import Smoothfs.WorkerRemoval

/-! What a failed `Worker.execute` leaves behind on the lower directories when
nobody else acts: its effect on the files that were there before. -/
namespace Smoothfs.WorkerFrame

open Program Control Movement Worker Run Function

/-- Every file that had a name keeps the name and its content. -/
def Untouched (world after : World) : Prop :=
  ∀ loc file, world.names loc = some file →
    after.names loc = some file ∧ (after.files file).content = (world.files file).content

def Event.switches : Event → Bool
  | .switched _ _ _ _ => true
  | _ => false

def Cut (world : World) : Prop :=
  world.history.any Event.switches = true

/-- When `execute` returns an error and the kernel carried out no cutover, what
was there before is untouched. -/
def LeavesFiles (hooks : Hooks) (plan : MovementPlan) (world : World) : Prop :=
  ∀ (outcomes : List Outcome) config error, run (step machine) ⟨execute hooks plan,world⟩ (outcomes.map .call) = some config →
    config.program = .fail error → ¬ Cut config.world → Untouched world config.world

def resolved (world : World) (plan : MovementPlan) : MovementPlan :=
  {plan with relPath := effectivePath world plan}

def destination (world : World) (plan : MovementPlan) : Loc :=
  joinPath plan.destLowerDir (effectivePath world plan)

def ready (world : World) (plan : MovementPlan) : Bool :=
  match world.inodes plan.objectID with
  | none => false
  | some inode =>
    inode.pinState ≠ .lun ∧ ¬ inode.rangeStaged ∧ ¬ plan.rePinLUN ∧ effectivePath world plan ≠ [] ∧
      inode.movementState = .placed

def rowState (world : World) (oid : Oid) : Option MovementState :=
  (world.rows oid).map (·.movementState)

def vacant : Option MovementState → Bool
  | none => true
  | some state => state = .placed ∨ state = .cleanupComplete ∨ state = .failed

def accepts (world : World) (plan : MovementPlan) : Bool :=
  ready world plan ∧ vacant (rowState world plan.objectID) ∧
    (movementPlan world plan.objectID plan.destTierRank plan.transactionSeq false).2 = .ok ()

def alone : Rely Op World Outcome Interference where
  outcome := fun _ _ _ => True
  action := fun _ _ => False

theorem stable_alone (holds : World → Prop) : Stable machine alone holds :=
  fun _ _ ⟨_,never,_⟩ => never.elim

abbrev Alone {α : Type} (pre : World → Prop) (program : Act α) (ok : α → World → Prop) (bad : World → Prop) : Prop :=
  Triple machine alone (fun _ _ => True) pre program (Ends ok bad)

variable {pre : World → Prop}

theorem alone_request {bad : World → Prop} {op : Op} {ok : Value op → World → Prop} (text : String)
    (performed : ∀ world outcome after reply, pre world → perform world op outcome = some (after,reply) →
      Ends ok bad reply after) : Alone pre (request op text) ok bad :=
  triple_request text (stable_alone _) (fun _ => stable_alone _) (stable_alone _) (fun _ _ => trivial)
    (fun world outcome after reply holds _ => performed world outcome after reply holds)

theorem alone_uses {α : Type} {allowed : Op → Prop} (kept : ∀ world op outcome after reply, allowed op → pre world →
      perform world op outcome = some (after,reply) → pre after)
    {program : Act α} (uses : Uses allowed program) : Alone pre program (fun _ => pre) pre :=
  triple_uses (stable_alone _) (fun _ _ _ _ => trivial)
    (fun world op outcome after reply fits holds _ => kept world op outcome after reply fits holds) uses

section Preflight

variable (start : World) (plan : MovementPlan)

structure Initial (world : World) : Prop extends Steady start world where
  state : rowState world plan.objectID = rowState start plan.objectID

variable {start plan}

variable {world : World} {outcome : Outcome}

theorem Initial.idle {after : World} {op : Op} {reply : Reply op} (holds : Initial start plan world)
    (idle : op.idle = true) (performed : perform world op outcome = some (after,reply)) : Initial start plan after := by
  rw [perform_idle idle performed]
  exact holds

theorem rowState_updateRelPath (world : World) (oid other : Oid) (rel : RelPath) :
    rowState (execStatement world (.updateRelPath oid rel)).1 other = rowState world other := by
  simp only [execStatement,updateRow]
  split
  · rfl
  next row found =>
  by_cases same : other = oid
  · subst other
    simp only [rowState,World.setRow,update_self,found,Option.map_some]
  · simp only [rowState,World.setRow,update_of_ne same]

theorem Initial.updateRelPath {after : World} {oid : Oid} {rel : RelPath}
    {reply : Reply (.exec (.updateRelPath oid rel))} (holds : Initial start plan world)
    (performed : perform world (.exec (.updateRelPath oid rel)) outcome = some (after,reply)) : Initial start plan after := by
  rcases (perform_exec _ performed).1 with rfl | rfl
  · exact holds
  · exact ⟨holds.toSteady.trans (execStatement_steady world _),(rowState_updateRelPath world oid _ rel).trans holds.state⟩

theorem Initial.inspect (holds : Initial start plan world) (oid : Oid) :
    Movement.inspect world oid = Movement.inspect start oid := by
  simp only [Movement.inspect,holds.inodes]

theorem returns_require {condition : Bool} {error : GoError} :
    Returns (fun _ => condition = true) (require condition error) := by
  unfold require
  split
  · assumption
  · exact trivial

variable (ins : InspectResult) {place : Loc}

theorem fails_checkQuiescedLUN (sent : ins.currentTierPath = some place) (root : place.rel = []) :
    Fails (checkQuiescedLUN plan ins) := by
  refine returns_bind returns_require fun _ usable => returns_bind returns_require fun _ normal => ?_
  refine fails_bind fun _ => fails_bind fun _ => fails_bind fun _ => fails_bind fun _ => ?_
  refine fails_bind fun _ => fails_bind fun _ => fails_bind fun _ => ?_
  have proper : plan.relPath ≠ [] := fun empty => by simp [lacksPath,empty] at usable
  unfold require
  split
  · next met =>
    rcases of_decide_eq_true met with silent | empty | same
    · cases silent.symm.trans sent
    · exact absurd empty proper
    · cases sent.symm.trans same
      rw [joinPath,Filepath.clean_normalized normal] at root
      exact absurd root proper
  · exact trivial

theorem triple_checkLUN (sent : ins.currentTierPath = some place) (root : place.rel = []) :
    Alone (Initial start plan) (checkLUN plan ins) (fun _ world => plan.rePinLUN = false ∧ Initial start plan world)
      (Initial start plan) := by
  unfold checkLUN
  split
  · have reads : Uses (fun op => op.idle = true) (checkQuiescedLUN plan ins) := uses_checkQuiescedLUN plan ins rfl
    exact triple_fails _ (fails_checkQuiescedLUN ins sent root)
      (alone_uses (fun _ _ _ _ _ idle holds performed => holds.idle idle performed) reads)
  · next ordinary => exact triple_done (stable_alone _) (fun _ holds => ⟨eq_false_of_ne_true ordinary,holds⟩)

theorem triple_resolveRelPath (inspected : Movement.inspect start plan.objectID = .ok ins) :
    Alone (Initial start plan) (resolveRelPath plan ins)
      (fun value world => (effectivePath start plan ≠ [] ∧ value = resolved start plan) ∧ Initial start plan world)
      (Initial start plan) := by
  have path := effectivePath_inspect inspected
  rw [chosenPath] at path
  unfold resolveRelPath
  split
  · next lacks =>
    rw [if_pos lacks] at path
    split
    · exact triple_fail (stable_alone _) (fun _ => id)
    next proper =>
    refine triple_call (stable_alone _) (fun _ => Initial start plan) (fun _ _ => trivial)
      (fun _ _ _ _ holds _ performed => holds.updateRelPath performed) (fun _ => ?_)
    refine triple_done (stable_alone _) (fun _ holds => ⟨⟨?_,?_⟩,holds⟩)
    · rw [path]
      exact proper
    · rw [resolved,path]
  · next has =>
    rw [if_neg has] at path
    refine triple_done (stable_alone _) (fun _ holds => ⟨⟨?_,?_⟩,holds⟩)
    · rw [path]
      exact fun empty => has (by simp [lacksPath,empty])
    · rw [resolved,path]

theorem triple_preflight :
    Alone (Initial start plan) (preflight plan)
      (fun value world => (ready start plan = true ∧ value.2 = resolved start plan) ∧ Initial start plan world)
      (Initial start plan) := by
  have inspects : Alone (Initial start plan) (request (.inspect plan.objectID) "inspect before movement")
      (fun ins world => Movement.inspect start plan.objectID = .ok ins ∧ Initial start plan world) (Initial start plan) := by
    refine alone_request _ fun world outcome after reply holds performed => ?_
    have kept := holds.idle rfl performed
    cases reply with
    | error errno => exact kept
    | ok ins =>
      have executed := perform_ok _ outcome ins (fun _ _ equal => nomatch equal) performed
      exact ⟨(holds.inspect _).symm.trans (congrArg Prod.snd executed),kept⟩
  have requires (condition : Bool) (error : GoError) :
      Alone (Initial start plan) (require condition error) (fun _ world => condition = true ∧ Initial start plan world)
        (Initial start plan) :=
    triple_require condition error (stable_alone _)
  refine triple_seq inspects (fun ins => triple_pure fun inspected => ?_)
  refine triple_seq (requires _ _) (fun _ => triple_pure fun unpinned => ?_)
  refine triple_seq (requires _ _) (fun _ => triple_pure fun unstaged => ?_)
  obtain ⟨place,sent,root⟩ := inspect_root inspected
  refine triple_seq (triple_checkLUN ins sent root) (fun _ => triple_pure fun ordinary => ?_)
  refine triple_seq (triple_resolveRelPath ins inspected) (fun value => triple_pure fun path => ?_)
  refine triple_seq (requires _ _) (fun _ => triple_pure fun placed => ?_)
  refine triple_done (stable_alone _) (fun _ holds => ⟨⟨?_,path.2⟩,holds⟩)
  unfold Movement.inspect at inspected
  split at inspected
  · cases inspected
  next inode found =>
  cases inspected
  simp only [decide_eq_true_eq] at unpinned unstaged placed
  simp only [ready,found,decide_eq_true_eq]
  exact ⟨unpinned,unstaged,ne_true_of_eq_false ordinary,path.1,placed⟩

theorem persistIntent_vacant (world : World) (plan : MovementPlan) (affected : (Control.persistIntent world plan).2 = 1) :
    vacant (rowState world plan.objectID) = true := by
  unfold Control.persistIntent at affected
  split at affected
  · next absent => rw [rowState,absent]; rfl
  next row found =>
  split at affected
  · next free =>
    rw [rowState,found]
    exact decide_eq_true free
  · cases affected

theorem triple_persistIntent :
    Alone (Initial start plan) (Worker.persistIntent (resolved start plan))
      (fun _ world => vacant (rowState start plan.objectID) = true ∧ Steady start world) (Steady start) := by
  have persists : Alone (Initial start plan)
      (request (.exec (.persistIntent (resolved start plan))) "persist movement intent")
      (fun affected world => (affected = 1 → vacant (rowState start plan.objectID) = true) ∧ Steady start world)
      (Steady start) := by
    refine alone_request _ fun world outcome after reply holds performed => ?_
    have kept := holds.toSteady.trans (perform_steady after outcome rfl performed)
    cases reply with
    | error errno => exact kept
    | ok affected =>
      refine ⟨fun one => ?_,kept⟩
      have executed := (perform_exec _ performed).2 affected rfl
      have count := congrArg Prod.snd executed
      rw [← holds.state]
      exact persistIntent_vacant world (resolved start plan) (count.symm.trans one)
  refine triple_seq persists (fun affected => triple_pure fun free => ?_)
  refine (triple_require _ _ (stable_alone _)).consequence (fun _ => id) fun result world holds => ?_
  cases result with
  | ok value => exact ⟨free (of_decide_eq_true holds.1),holds.2⟩
  | error error => exact holds

end Preflight

theorem canMove_steady {start world : World} (same : Steady start world) (inode : Inode) (force : Bool) :
    canMove world inode force = canMove start inode force := by
  have regular := congrArg LowerFile.regular (same.files inode.lowerPath.file)
  simp only at regular
  simp only [canMove,regular]

theorem movementPlan_steady {start world : World} (same : Steady start world) {oid : Oid} {destTier seq : Nat} {force : Bool}
    (accepted : (movementPlan world oid destTier seq force).2 = .ok ()) :
    (movementPlan start oid destTier seq force).2 = .ok () := by
  unfold movementPlan planAdmitted at accepted ⊢
  rw [same.pool,same.inodes] at accepted
  split at accepted
  · cases accepted
  next running =>
  split at accepted
  · cases accepted
  next bound =>
  split at accepted
  · cases accepted
  next cache =>
  rw [if_neg running,if_neg bound,if_neg cache]
  cases found : start.inodes oid with
  | none =>
    rw [found] at accepted
    cases accepted
  | some inode =>
    rw [found] at accepted
    dsimp only at accepted ⊢
    rw [canMove_steady same] at accepted
    split at accepted
    · cases accepted
    next placed =>
    split at accepted
    · cases accepted
    next elsewhere =>
    split at accepted
    · cases accepted
    next movable =>
    rw [if_neg placed,if_neg elsewhere,if_neg movable]

section Moving

variable (start : World) (dest : Loc)

structure Kept (world : World) : Prop where
  untouched : Untouched start world
  own : ∀ file, world.names dest = some file → start.nextFile ≤ file
  later : start.nextFile ≤ world.nextFile

variable {start dest} {world after : World}

theorem Untouched.congr (holds : Untouched start world) (names : after.names = world.names)
    (contents : ∀ file, (after.files file).content = (world.files file).content) : Untouched start after := by
  intro loc file found
  rw [names,contents]
  exact holds loc file found

theorem Kept.congr (holds : Kept start dest world) (names : after.names = world.names)
    (nextFile : after.nextFile = world.nextFile)
    (contents : ∀ file, (after.files file).content = (world.files file).content) : Kept start dest after := by
  refine ⟨Untouched.congr holds.untouched names contents,?_,?_⟩
  · rw [names]
    exact holds.own
  · rw [nextFile]
    exact holds.later

theorem Steady.content (same : Steady world after) (file : FileId) :
    (after.files file).content = (world.files file).content := by
  have equal := congrArg LowerFile.content (same.files file)
  exact equal

theorem Kept.steady (holds : Kept start dest world) (same : Steady world after) : Kept start dest after :=
  holds.congr same.names same.nextFile (Steady.content same)

variable (tidy : start.Tidy)
include tidy

variable (holds : Kept start dest world)
include holds

theorem Kept.setFile (file : FileId) (value : LowerFile) (own : start.nextFile ≤ file) :
    Kept start dest (world.setFile file value) := by
  refine ⟨fun loc old found => ⟨(holds.untouched loc old found).1,?_⟩,holds.own,holds.later⟩
  have older := tidy.fresh loc old found
  change (update world.files file value old).content = _
  rw [update_of_ne (Nat.ne_of_lt (Nat.lt_of_lt_of_le older own))]
  exact (holds.untouched loc old found).2

theorem Kept.remove : Kept start dest (world.setName dest none) := by
  refine ⟨fun loc old found => ⟨?_,(holds.untouched loc old found).2⟩,fun file found => ?_,holds.later⟩
  · have named := (holds.untouched loc old found).1
    have older := tidy.fresh loc old found
    rw [World.setName_names,if_neg,named]
    rintro rfl
    exact absurd (holds.own old named) (Nat.not_le_of_lt older)
  · rw [World.setName_names,if_pos rfl] at found
    cases found

theorem Kept.create (value : LowerFile) (absent : world.names dest = none) : Kept start dest (world.create dest value) := by
  refine ⟨fun loc old found => ⟨?_,?_⟩,fun file found => ?_,Nat.le_succ_of_le holds.later⟩
  · have named := (holds.untouched loc old found).1
    rw [World.create_names,if_neg,named]
    rintro rfl
    rw [absent] at named
    cases named
  · have older := tidy.fresh loc old found
    change (update world.files world.nextFile value old).content = _
    rw [update_of_ne (Nat.ne_of_lt (Nat.lt_of_lt_of_le older holds.later))]
    exact (holds.untouched loc old found).2
  · rw [World.create_names,if_pos rfl] at found
    cases found
    exact holds.later

theorem Kept.openDestination (object : Oid) : Kept start dest (openDestination world dest object).1 ∧
      ∀ file, (openDestination world dest object).2 = .ok file → start.nextFile ≤ file := by
  unfold Control.openDestination
  split
  · next absent =>
    refine ⟨holds.create tidy _ absent,fun file same => ?_⟩
    cases same
    exact holds.later
  · next file found =>
    dsimp only
    split
    · refine ⟨holds.setFile tidy file _ (holds.own file found),fun other same => ?_⟩
      cases same
      exact holds.own file found
    · exact ⟨holds,fun _ same => nomatch same⟩

omit holds

def Contained (start : World) (dest : Loc) (op : Op) : Prop :=
  op.steady = true ∨ op = .remove dest ∨ ∃ src dst, op = .ioCopy src dst ∧ start.nextFile ≤ dst

variable {op : Op} {outcome : Outcome} {reply : Reply op}

theorem Kept.contained (holds : Kept start dest world)
    (contained : Contained start dest op) (performed : perform world op outcome = some (after,reply)) : Kept start dest after := by
  rcases contained with steady | rfl | ⟨src,dst,rfl,own⟩
  · exact holds.steady (perform_steady after outcome steady performed)
  · rcases perform_remove after dest outcome performed with rfl | ⟨file,_,rfl⟩
    · exact holds
    · exact (holds.remove tidy).congr rfl rfl (fun _ => rfl)
  · rcases perform_ioCopy performed with ⟨rfl,_⟩ | ⟨count,rfl,_⟩
    · exact holds
    · exact (holds.setFile tidy dst _ own).congr rfl rfl (fun _ => rfl)

theorem triple_kept {α : Type} {program : Act α} (uses : Uses (Contained start dest) program) :
    Alone (Kept start dest) program (fun _ => Kept start dest) (Kept start dest) :=
  alone_uses (fun _ _ _ _ _ contained holds performed => holds.contained tidy contained performed) uses

theorem triple_copy (object : Oid) (source : Loc) :
    Alone (Kept start dest) (copyWithChecksum object source dest) (fun _ => Kept start dest) (Kept start dest) := by
  have asks (op : Op) (text : String) (steady : op.steady = true) :
      Alone (Kept start dest) (request op text) (fun _ => Kept start dest) (Kept start dest) :=
    triple_kept tidy (uses_request op text (.inl steady))
  have opens : Alone (Kept start dest) (request (.openDestination dest object) "open destination (nofollow)")
      (fun file world => start.nextFile ≤ file ∧ Kept start dest world) (Kept start dest) := by
    refine alone_request _ fun world outcome after reply holds performed => ?_
    obtain ⟨kept,own⟩ := holds.openDestination tidy object
    rcases perform_openDestination dest performed with ⟨rfl,errno,rfl⟩ | opened
    · exact holds
    rw [← opened] at kept own
    cases reply with
    | error errno => exact kept
    | ok file => exact ⟨own file rfl,kept⟩
  refine triple_seq (asks _ _ rfl) fun src => ?_
  refine triple_seq (asks _ _ rfl) fun info => ?_
  refine triple_seq (asks _ _ rfl) fun _ => ?_
  refine triple_seq opens (fun dst => triple_pure fun own => ?_)
  exact triple_kept tidy (uses_fill (fun _ steady _ => .inl steady) (.inr (.inr ⟨src,dst,rfl,own⟩)))

variable (hooks : Hooks) (ins : InspectResult) (plan : MovementPlan)

theorem triple_copyAndVerify (source : Loc) :
    Alone (Kept start dest) (copyAndVerify hooks ins plan source dest) (fun _ => Kept start dest) (Kept start dest) := by
  have quiet (op : Op) (steady : op.steady = true) : Contained start dest op := .inl steady
  refine triple_seq (triple_kept tidy (uses_reserve quiet _ (.inr (.inl rfl)))) fun before => ?_
  refine triple_seq (triple_orDrop plan dest _ _ (triple_copy tidy _ _) (fun _ => stable_alone _)
    (fun cause => triple_kept tidy (uses_dropDestination quiet _ _ _ _ (.inr (.inl rfl))))) (fun sum => ?_)
  exact triple_kept tidy (uses_verifyCopy quiet _ (.inr (.inl rfl)))

omit tidy

theorem Cut.performed (cut : Cut world) (performed : perform world op outcome = some (after,reply)) : Cut after := by
  obtain ⟨more,grown⟩ := perform_history performed
  rw [Cut,grown,List.any_append,show world.history.any Event.switches = true from cut,Bool.true_or]

theorem Kept.refused (holds : Kept start dest world) (oid : Oid) (refused : Refused world after oid) :
    Kept start dest after := by
  rcases refused with rfl | ⟨_,_,_,rfl | ⟨file,rfl⟩⟩
  · exact holds
  · exact holds.congr rfl rfl (fun _ => rfl)
  refine holds.congr rfl rfl (fun other => ?_)
  change (update world.files file {world.files file with oid := some oid} other).content = _
  by_cases same : other = file
  · subst other
    rw [update_self]
  · rw [update_of_ne same]

theorem triple_moveCutover (oid : Oid) (seq : Nat) (expected : Option Nat) (text : String) :
    Alone (Kept start dest) (request (.moveCutover oid seq expected) text) (fun _ => Cut)
      (fun world => Cut world ∨ Kept start dest world) := by
  refine alone_request _ fun world outcome after reply holds performed => ?_
  have cases (fault : CutoverFault) :
      (∃ errno, (movementCutover world oid seq expected fault).2 = .error errno ∧
        Kept start dest (movementCutover world oid seq expected fault).1) ∨
        Cut (movementCutover world oid seq expected fault).1 := by
    rcases movementCutover_spec world oid seq expected fault with ⟨stopped,errno,result,refused⟩ | ⟨inode,file,_,_,_,_,_,_,result⟩
    · rw [result]
      exact .inl ⟨errno,rfl,holds.refused oid refused⟩
    · rw [result]
      exact .inr (by simp [Cut,publish,World.record,Event.switches])
  rcases perform_moveCutover oid seq expected performed with
    ⟨rfl,errno,rfl⟩ | ⟨fault,done⟩ | ⟨errno,_,rfl,rfl⟩
  · exact .inr holds
  · have result := cases fault
    rw [← done] at result
    rcases result with ⟨errno,refused,kept⟩ | cut
    · cases refused
      exact .inr kept
    · cases reply with
      | ok value => exact cut
      | error errno => exact .inl cut
  · rcases cases .none with ⟨_,_,kept⟩ | cut
    · exact .inr kept
    · exact .inl cut

include tidy

theorem triple_cutover (source : Loc) : Alone (Kept start dest) (cutover hooks ins plan source dest) (fun _ => Cut)
      (fun world => Cut world ∨ Kept start dest world) := by
  have drops (cause : GoError) : Alone (fun world => Cut world ∨ Kept start dest world)
      (dropDestination hooks plan source dest cause : Act Unit) (fun _ => Cut) (fun world => Cut world ∨ Kept start dest world) := by
    refine triple_fails _ (fails_dropDestination _) (alone_uses (fun _ _ _ _ _ contained holds performed => ?_)
      (uses_dropDestination (fun op => (.inl : op.steady = true → Contained start dest op)) _ _ _ _ (.inr (.inl rfl))))
    rcases holds with cut | kept
    · exact .inl (cut.performed performed)
    · exact .inr (kept.contained tidy contained performed)
  refine triple_seq (triple_orDrop plan dest _ _ (triple_moveCutover _ _ _ _) (fun _ => stable_alone _)
    drops) (fun _ => ?_)
  refine (alone_uses (fun _ _ _ _ _ _ cut performed => Cut.performed cut performed)
    (uses_any _)).consequence (fun _ => id) fun result world holds => ?_
  cases result with
  | ok value => exact holds
  | error error => exact .inl holds

end Moving

section Failing

variable {start world : World} {plan : MovementPlan}

theorem Untouched.steady {after : World} (holds : Untouched start world) (same : Steady world after) : Untouched start after :=
  Untouched.congr holds same.names (Steady.content same)

theorem untouched_of_steady (same : Steady start world) : Untouched start world := by
  intro loc file found
  rw [same.names]
  exact ⟨found,Steady.content same file⟩

theorem triple_movePlan (dest : Loc) (oid : Oid) (destTier seq : Nat) (text : String)
    (free : (movementPlan start oid destTier seq false).2 = .ok () → start.names dest = none) :
    Alone (Steady start) (request (.movePlan oid destTier seq) text) (fun _ => Kept start dest) (Untouched start) := by
  refine alone_request _ fun world outcome after reply holds performed => ?_
  have result : ∃ inodes, (movementPlan world oid destTier seq false).1 = {world with inodes := inodes} := by
    rcases movementPlan_spec world oid destTier seq false with ⟨_,result⟩ | ⟨_,_,_,_,_,_,result⟩
    · exact ⟨world.inodes,by rw [result]⟩
    · exact ⟨_,by rw [result]; rfl⟩
  obtain ⟨inodes,planned⟩ := result
  have untouched : Untouched start {world with inodes := inodes} :=
    Untouched.congr (untouched_of_steady holds) rfl (fun _ => rfl)
  rcases perform_movePlan oid performed with ⟨rfl,_,rfl⟩ | done | ⟨rfl,_,rfl⟩
  · exact untouched_of_steady holds
  · cases reply with
    | error errno =>
      rw [← done] at planned
      cases planned
      exact untouched
    | ok value =>
      have absent := free (movementPlan_steady holds (congrArg Prod.snd done).symm)
      rw [← done] at planned
      cases planned
      refine ⟨untouched,fun file found => ?_,Nat.le_of_eq holds.nextFile.symm⟩
      rw [← holds.names] at absent
      cases absent.symm.trans found
  · rw [planned]
    exact untouched

theorem triple_execute (tidy : start.Tidy) (hooks : Hooks)
    (free : accepts start plan = true → start.names (destination start plan) = none) :
    Alone (Initial start plan) (execute hooks plan) (fun _ _ => True) (fun world => Cut world ∨ Untouched start world) := by
  have initial (error : GoError) (world : World) (holds : Steady start world) :
      (Ends (fun _ _ => True) (fun world => Cut world ∨ Untouched start world) : Except GoError Unit → World → Prop)
        (.error error) world := .inr (untouched_of_steady holds)
  refine triple_seq triple_preflight (fun value => triple_pure fun passed => ?_)
    (fun error world holds => initial error world holds.toSteady)
  obtain ⟨ins,moved⟩ := value
  obtain ⟨ready,rfl⟩ := passed
  refine triple_seq triple_persistIntent (fun _ => triple_pure fun vacant => ?_) initial
  have plans := triple_movePlan (destination start plan) plan.objectID plan.destTierRank plan.transactionSeq "plan"
    (fun planned => free (decide_eq_true ⟨ready,vacant,planned⟩))
  have rolls (source : Loc) (cause : GoError) : Alone (Untouched start)
      (rollbackLUNBeforeSwitch hooks (resolved start plan) source cause : Act Unit)
      (fun _ => Kept start (destination start plan)) (Untouched start) :=
    triple_fails _ (fails_rollback _ _ _ _) (alone_uses (fun _ _ _ _ _ steady holds performed =>
      Untouched.steady holds (perform_steady _ _ steady performed)) (uses_rollback (fun _ => id) _ _ _ _))
  refine triple_seq (triple_orRollback _ _ _ plans (fun _ => stable_alone _) (rolls _)) (fun _ => ?_)
    (fun _ _ => .inr)
  refine triple_seq (triple_copyAndVerify tidy hooks ins (resolved start plan) _) (fun _ => ?_)
    (fun _ _ kept => .inr kept.untouched)
  refine triple_seq (triple_cutover tidy hooks ins (resolved start plan) _) (fun _ => ?_)
    (fun _ _ => Or.imp_right Kept.untouched)
  -- once the kernel has switched, nothing later is a failure before the cutover
  refine (alone_uses (fun _ _ _ _ _ _ cut performed => Cut.performed cut performed) (uses_any _)).consequence
    (fun _ => id) fun result world holds => ?_
  cases result with
  | ok value => trivial
  | error error => exact .inl holds

end Failing

variable {file : FileId}

section Dropping

variable {start world : World} {plan : MovementPlan}

theorem Steady.symm (same : Steady start world) : Steady world start where
  pool := same.pool.symm
  inodes := same.inodes.symm
  names := same.names.symm
  nextFile := same.nextFile.symm
  files := fun file => (same.files file).symm
  history := same.history.symm
  umask := same.umask.symm

theorem reaches_request {op : Op} {text : String} {value : Value op} {after : World}
    (executed : execOp world op = (after,.ok value)) : Reaches machine (request op text) world (.done value) after :=
  reaches_call .done (congrArg some executed) (reaches_refl _)

theorem reaches_require {condition : Bool} (error : GoError) (met : condition = true) :
    Reaches machine (require condition error) world (.done ()) world := by
  rw [require,if_pos met]
  exact reaches_refl _

theorem reaches_preflight (passes : ready start plan = true) : ∃ ins after,
    Reaches machine (preflight plan) start (.done (ins,resolved start plan)) after ∧ Initial start plan after := by
  unfold ready at passes
  split at passes
  · cases passes
  next inode found =>
  obtain ⟨unpinned,unstaged,ordinary,proper,placed⟩ := of_decide_eq_true passes
  obtain ⟨ins,inspected⟩ : ∃ ins, Movement.inspect start plan.objectID = .ok ins := by
    rw [Movement.inspect,found]
    exact ⟨_,rfl⟩
  have resolves : ∃ after, Reaches machine (resolveRelPath plan ins) start (.done (resolved start plan)) after ∧
      Initial start plan after := by
    have path := effectivePath_inspect inspected
    rw [chosenPath] at path
    unfold resolveRelPath
    split
    · next lacks =>
      rw [if_pos lacks] at path
      rw [path] at proper
      rw [if_neg proper,resolved,path]
      refine ⟨_,reaches_call .done rfl (reaches_refl _),?_⟩
      exact ⟨execStatement_steady start _,rowState_updateRelPath start _ _ _⟩
    · next has =>
      rw [if_neg has] at path
      rw [resolved,path]
      exact ⟨start,reaches_refl _,steady_refl start,rfl⟩
  obtain ⟨after,resolves,initial⟩ := resolves
  refine ⟨ins,after,?_,initial⟩
  refine reaches_seq (reaches_request (Prod.ext rfl inspected)) ?_
  rw [Movement.inspect,found] at inspected
  cases inspected
  refine reaches_seq (reaches_require _ (decide_eq_true unpinned)) ?_
  refine reaches_seq (reaches_require _ (decide_eq_true unstaged)) ?_
  rw [checkLUN,if_neg ordinary]
  refine reaches_seq (reaches_refl _) (reaches_seq resolves ?_)
  exact reaches_seq (reaches_require _ (decide_eq_true placed)) (reaches_refl _)

theorem persistIntent_affected (world : World) (plan : MovementPlan) (free : vacant (rowState world plan.objectID) = true) :
    (Control.persistIntent world plan).2 = 1 := by
  unfold Control.persistIntent
  split
  · rfl
  · next row found =>
    rw [rowState,found] at free
    rw [if_pos (of_decide_eq_true free)]

theorem reaches_persistIntent (initial : Initial start plan world) (free : vacant (rowState start plan.objectID) = true) :
    ∃ after, Reaches machine (Worker.persistIntent (resolved start plan)) world (.done ()) after ∧ Steady start after := by
  rw [← initial.state] at free
  have affected := persistIntent_affected world (resolved start plan) free
  refine ⟨_,reaches_seq (reaches_request rfl) (reaches_require _ (decide_eq_true affected)),?_⟩
  exact initial.toSteady.trans (execStatement_steady world _)

theorem reaches_movePlan (same : Steady start world) (hooks : Hooks) (source : Loc)
    (planned : (movementPlan start plan.objectID plan.destTierRank plan.transactionSeq false).2 = .ok ()) :
    ∃ after, Reaches machine (orRollback hooks plan source "move_plan"
      (request (.movePlan plan.objectID plan.destTierRank plan.transactionSeq) "plan")) world (.done ()) after ∧
      after.names = start.names ∧ after.history = start.history := by
  have accepted := movementPlan_steady (Steady.symm same) planned
  rcases movementPlan_spec world plan.objectID plan.destTierRank plan.transactionSeq false with
    ⟨errno,refused⟩ | ⟨inode,_,_,_,_,_,result⟩
  · rw [refused] at accepted
    cases accepted
  · exact ⟨_,reaches_handle _ (reaches_request result) (reaches_refl _),same.names,same.history⟩

variable (hooks : Hooks)

theorem reaches_dropDestination {α : Type} (source dest : Loc) (cause : GoError) (file : FileId)
    (ordinary : plan.rePinLUN = false) (occupied : world.names dest = some file) :
    ∃ after, Reaches machine (dropDestination hooks plan source dest cause : Act α) world (.fail cause) after ∧
      after.names dest = none ∧ after.history = world.history ++ [.removed dest file] := by
  have removes : execOp world (.remove dest) = ((world.setName dest none).record (.removed dest file),.ok ()) := by
    simp only [execOp,remove,occupied]
  have aborts (before : World) : ∃ after, Reaches machine (abort plan cause : Act α) before (.fail cause) after ∧
      Steady before after := by
    refine ⟨_,reaches_call .done rfl (reaches_call .done rfl (reaches_refl _)),?_⟩
    exact (execStatement_steady before _).trans (execStatement_steady _ _)
  obtain ⟨after,aborted,same⟩ := aborts ((world.setName dest none).record (.removed dest file))
  refine ⟨after,reaches_call .done (congrArg some removes) ?_,?_,same.history⟩
  · change Reaches machine (rollbackLUNBeforeSwitch hooks plan source cause) _ _ _
    rw [rollbackLUNBeforeSwitch,if_neg (by rw [ordinary]; decide)]
    exact aborted
  · rw [same.names]
    exact update_self ..

theorem reaches_reserve (source : Loc) {dest : Loc}
    (ordinary : plan.rePinLUN = false) (occupied : world.names dest = some file) : ∃ error after,
    Reaches machine (reserve hooks plan source dest) world (.fail error) after ∧
      after.names dest = none ∧ after.history = world.history ++ [.removed dest file] := by
  have logged := execStatement_steady world (.logTransition plan (some .planAccepted) .destinationReserved)
  have reserved := logged.trans (execStatement_steady _ (.persistObject plan .destinationReserved))
  rw [← reserved.names] at occupied
  obtain ⟨after,drops,gone,history⟩ := reaches_dropDestination hooks source dest
    (.wrap "pre-copy stat" (.wrap "stat" (.errno .eio))) file ordinary occupied
  rw [reserved.history] at history
  refine ⟨.wrap "pre-copy stat" (.wrap "stat" (.errno .eio)),after,?_,gone,history⟩
  refine reaches_seq (reaches_handle _ (reaches_request rfl) (reaches_refl _)) ?_
  refine reaches_seq (reaches_call .done rfl (reaches_refl _)) ?_
  refine reaches_seq (reaches_call .done rfl (reaches_refl _)) ?_
  exact reaches_handle _ (reaches_call (.failed .eio) rfl (reaches_refl _)) drops

theorem reaches_drop (accepted : accepts start plan = true)
    (occupied : start.names (destination start plan) = some file) : ∃ error after,
    Reaches machine (execute hooks plan) start (.fail error) after ∧ after.names (destination start plan) = none ∧
      after.history = start.history ++ [.removed (destination start plan) file] := by
  obtain ⟨passes,free,planned⟩ := of_decide_eq_true accepted
  obtain ⟨ins,checked,preflights,initial⟩ := reaches_preflight passes
  obtain ⟨intended,persists,steady⟩ := reaches_persistIntent initial free
  have ordinary : plan.rePinLUN = false := by
    unfold ready at passes
    split at passes
    · cases passes
    · exact eq_false_of_ne_true (of_decide_eq_true passes).2.2.1
  obtain ⟨moving,plans,names,history⟩ := reaches_movePlan steady hooks
    (joinPath plan.sourceLowerDir (effectivePath start plan)) (show (movementPlan start (resolved start plan).objectID
      (resolved start plan).destTierRank (resolved start plan).transactionSeq false).2 = .ok () from planned)
  rw [← names] at occupied
  obtain ⟨error,after,reserves,gone,grown⟩ := reaches_reserve hooks
    (joinPath plan.sourceLowerDir (effectivePath start plan))
    (show (resolved start plan).rePinLUN = false from ordinary) occupied
  refine ⟨error,after,?_,gone,by rw [grown,history]⟩
  refine reaches_seq preflights (reaches_seq persists (reaches_seq plans ?_))
  exact reaches_bind (reaches_bind reserves (reaches_refl _)) (reaches_refl _)

end Dropping

/-- A failed movement leaves other files untouched exactly when none stands at its destination, or
the plan does not get past MOVE_PLAN. -/
theorem leaves_files_iff (hooks : Hooks) (plan : MovementPlan) (world : World) (tidy : world.Tidy)
    (quiet : world.history = []) :
    LeavesFiles hooks plan world ↔ (accepts world plan = true → world.names (destination world plan) = none) := by
  constructor
  · intro leaves accepted
    cases occupied : world.names (destination world plan) with
    | none => rfl
    | some file =>
      obtain ⟨error,after,⟨outcomes,reached⟩,gone,history⟩ := reaches_drop hooks accepted occupied
      have uncut : ¬ Cut after := by
        rw [Cut,history,quiet]
        exact Bool.false_ne_true
      have kept := (leaves outcomes _ error reached rfl uncut _ _ occupied).1
      rw [gone] at kept
      cases kept
  · intro free outcomes config error reached failed uncut
    have guarded : Guarded (step machine) alone.guard ⟨execute hooks plan,world⟩ (outcomes.map .call) := by
      refine guarded_of_labels _ _ _ fun label member config => ?_
      obtain ⟨outcome,_,rfl⟩ := List.mem_map.mp member
      obtain ⟨program,reached⟩ := config
      cases program <;> trivial
    have holds := wp_run _ (triple_execute tidy hooks free world ⟨steady_refl world,rfl⟩) guarded reached
    rw [failed] at holds
    exact (holds config.world .refl).resolve_left uncut

theorem demote_leaves_files : WorkerRemoval.twoTiers.Tidy ∧ LeavesFiles ⟨false⟩ WorkerRemoval.demote WorkerRemoval.twoTiers :=
  ⟨WorkerRemoval.twoTiers_tidy,(leaves_files_iff _ _ _ WorkerRemoval.twoTiers_tidy rfl).mpr (fun _ => rfl)⟩

def renamed : World :=
  {WorkerRemoval.twoTiers with
    inodes := fun oid =>
      if oid = 7 then some (Namespace.newInode 0 0 ["b"])
      else if oid = 8 then some (Namespace.newInode 1 1 ["a"]) else none
    names := fun loc => if loc = ⟨0,["b"]⟩ then some 0 else if loc = ⟨1,["a"]⟩ then some 1 else none
    nextFile := 2}

theorem renamed_names {loc : Loc} (found : renamed.names loc = some file) :
    loc = ⟨0,["b"]⟩ ∧ file = 0 ∨ loc = ⟨1,["a"]⟩ ∧ file = 1 := by
  simp only [renamed] at found
  split at found
  · next same => exact .inl ⟨same,(Option.some.inj found).symm⟩
  · split at found
    · next same => exact .inr ⟨same,(Option.some.inj found).symm⟩
    · cases found

theorem renamed_tidy : renamed.Tidy where
  apart := by
    intro first second file one two
    rcases renamed_names one with ⟨rfl,rfl⟩ | ⟨rfl,rfl⟩ <;>
      rcases renamed_names two with ⟨rfl,same⟩ | ⟨rfl,same⟩ <;> first | rfl | cases same
  fresh := by
    intro loc file found
    rcases renamed_names found with ⟨_,rfl⟩ | ⟨_,rfl⟩ <;> decide

/-- The plan of object 7 still has its old path; the source is not found, and object 8 loses its
file. -/
theorem stale_plan_removes_other_file : renamed.Tidy ∧ ¬ LeavesFiles ⟨false⟩ WorkerRemoval.demote renamed ∧
    ∃ config error, run (step machine) ⟨execute ⟨false⟩ WorkerRemoval.demote,renamed⟩ (List.replicate 10 (.call .done)) =
      some config ∧ config.program = .fail error ∧ ¬ Cut config.world ∧ renamed.names ⟨1,["a"]⟩ = some 1 ∧
      config.world.names ⟨1,["a"]⟩ = none := by
  refine ⟨renamed_tidy,fun leaves => ?_,_,_,rfl,rfl,Bool.false_ne_true,rfl,rfl⟩
  have kept := leaves (List.replicate 10 .done) _ _ rfl rfl Bool.false_ne_true ⟨1,["a"]⟩ 1 rfl
  cases kept.1

end Smoothfs.WorkerFrame
