import Smoothfs.Durability
import Smoothfs.WorkerSource

/-! A worker that moves an object keeps every confirmed write in its live file. -/
namespace Smoothfs.DurableMovement

open Program Control Movement Worker Durability Run
open Coherence (SamePlace)

def fitting (path : RelPath) (state : State) (plan : MovementPlan) : Bool :=
  (state.world.inodes plan.objectID).any fun inode =>
    joinPath plan.sourceLowerDir plan.relPath = ⟨inode.lowerPath.mnt,path⟩ ∧
      joinPath plan.destLowerDir plan.relPath = ⟨plan.destTierRank,path⟩

def honestly (path : RelPath) (state : State) (op : Op) (outcome : Outcome) : Bool :=
  match op, outcome with
  | .exec (.persistIntent plan), _ => fitting path state plan
  | .moveCutover oid seq expected, .lost _ => (movementCutover state.world oid seq expected .none).2 ≠ .ok ()
  | _, _ => true

/-- The condition on a run; writes, fsyncs, flushes and index rebuilds are free. -/
def honest (path : RelPath) : Rely Op State Outcome Env where
  outcome := fun state op outcome => honestly path state op outcome = true
  action := fun _ _ => True

abbrev Safe (oid : Oid) (path : RelPath) : State → Prop := At oid path (fun _ => True)

abbrev Keeping {α : Type} (oid : Oid) (path : RelPath) (pre : State → Prop) (program : Act α)
    (post : Except GoError α → State → Prop) : Prop :=
  Triple (machine oid) (honest path) (fun state _ => Safe oid path state) pre program post

section Triples

variable {α : Type} {oid : Oid} {path : RelPath} {place : Inode → Prop} {source : Loc} {dest seen size : Nat} {file dst : FileId}
variable {fact : State → Prop} {state after : State}

theorem stable_at (lasting : Lasting place) : Stable (machine oid) (honest path) (At oid path place) :=
  fun _ _ ⟨_,_,interfered⟩ holds => holds.interfered lasting interfered

theorem stable_safe : Stable (machine oid) (honest path) (Safe oid path) :=
  stable_at fun _ _ _ _ => trivial

theorem stable_watched (lasts : Lasts fact) : Stable (machine oid) (honest path) (Watched oid source dest seen file fact) :=
  fun _ _ ⟨_,_,interfered⟩ holds => holds.interfered lasts interfered

theorem safe_of_at (holds : At oid path place state) : Safe oid path state :=
  holds.weaken fun _ _ => trivial

def Keeps (place : Inode → Prop) (op : Op) : Prop :=
  op.steady = true ∨ ∃ loc, op = .remove loc ∧ ∀ inode, place inode → loc.dir ≠ inode.lowerPath.mnt

theorem keeps_steady (op : Op) (steady : op.steady = true) : Keeps place op := .inl steady

variable {op : Op} {outcome : Outcome} {reply : Reply op}

theorem Keeps.at (keeps : Keeps place op) (holds : At oid path place state)
    (performed : perform oid state op outcome = some (after,reply)) : At oid path place after := by
  rcases keeps with steady | ⟨loc,rfl,away⟩
  · exact holds.settles (perform_settles steady performed)
  · exact holds.removed away performed

theorem triple_place (lasting : Lasting place) {program : Act α} (uses : Uses (Keeps place) program) :
    Keeping oid path (At oid path place) program
      (Ends (fun _ => At oid path place) (At oid path place)) :=
  triple_uses (stable_at lasting) (fun _ _ _ holds => safe_of_at holds)
    (fun _ _ _ _ _ keeps holds _ performed => keeps.at holds performed) uses

theorem triple_steady (lasts : Lasts fact) {program : Act α} (uses : Uses (fun op => op.steady = true) program) :
    Keeping oid source.rel (Watched oid source dest seen file fact) program
      (Ends (fun _ => Watched oid source dest seen file fact) (Watched oid source dest seen file fact)) :=
  triple_uses (stable_watched lasts) (fun _ _ _ holds => safe_of_at holds.leaving)
    (fun _ _ _ _ _ steady holds _ performed => holds.settles lasts (perform_settles steady performed)) uses

theorem triple_fill (loc : Loc) (different : dst ≠ file) :
    Keeping oid source.rel (Watched oid source dest seen file (Opened loc file dst size)) (fillDestination file dst size loc)
      (Ends (fun _ => Watched oid source dest seen file (Complete loc file)) (At oid source.rel (Leaving source dest seen file))) := by
  have lasting := lasting_leaving source dest seen file
  have closes (error : GoError) : Keeping oid source.rel (At oid source.rel (Leaving source dest seen file))
    (do ignore (.closeFile dst); .fail error : Act Bytes)
      (Ends (fun _ => Watched oid source dest seen file (Complete loc file)) (At oid source.rel (Leaving source dest seen file))) :=
    triple_seq (triple_place lasting (uses_ignore _ (.inl rfl))) (fun _ => triple_fail (stable_at lasting) (fun _ => id))
  have copies : Keeping oid source.rel (Watched oid source dest seen file (Opened loc file dst size)) (request (.ioCopy file dst) "copy")
      (Ends (fun bytes => Watched oid source dest seen file (fun state => bytes.length = size → Filled loc file dst state))
        (At oid source.rel (Leaving source dest seen file))) := by
    refine triple_request "copy" (stable_watched lasts_opened)
      (fun bytes => stable_watched fun before after quiet holds long => lasts_filled before after quiet (holds long))
      (stable_at lasting) (fun _ holds => safe_of_at holds.leaving) ?_
    intro state outcome after reply holds _ performed
    cases reply with
    | ok bytes => exact holds.copied different performed
    | error errno => exact holds.leaving.copying different performed
  refine triple_handle copies (fun bytes => ?_) closes
  dsimp only
  split
  · exact (closes _).consequence (fun _ holds => holds.leaving) (fun _ _ => id)
  next long =>
  have filled (state : State)
      (holds : Watched oid source dest seen file (fun state => bytes.length = size → Filled loc file dst state) state) :
      Watched oid source dest seen file (Filled loc file dst) state :=
    ⟨holds.leaving,fun inode found unwritten => holds.watched inode found unwritten (not_not.mp long)⟩
  have syncs : Keeping oid source.rel (Watched oid source dest seen file (Filled loc file dst)) (request (.syncFile dst) "sync destination")
      (Ends (fun _ => Watched oid source dest seen file (Complete loc file)) (At oid source.rel (Leaving source dest seen file))) := by
    refine triple_request _ (stable_watched lasts_filled) (fun _ => stable_watched lasts_complete) (stable_at lasting)
      (fun _ holds => safe_of_at holds.leaving) ?_
    intro state outcome after reply holds _ performed
    cases reply with
    | ok value => exact holds.synced performed
    | error errno => exact holds.leaving.settles (perform_settles rfl performed)
  refine (triple_handle syncs (fun _ => ?_) closes).consequence filled (fun _ _ => id)
  refine triple_seq (triple_steady lasts_complete (uses_request _ _ rfl)) (fun _ => ?_) (fun _ _ holds => holds.leaving)
  refine triple_seq (triple_steady lasts_complete (uses_request _ _ rfl)) (fun _ => ?_) (fun _ _ holds => holds.leaving)
  exact triple_done (stable_watched lasts_complete) (fun _ => id)

theorem source_named (holds : At oid source.rel (Leaving source dest seen file) state) : state.world.names source = some file := by
  obtain ⟨inode,live,there⟩ := holds.live
  have named := live.named
  rw [there.mnt,there.lower] at named
  exact named

theorem triple_copy (loc : Loc) (different : loc.dir ≠ source.dir) (object : Oid) :
    Keeping oid source.rel (At oid source.rel (Leaving source dest seen file)) (copyWithChecksum object source loc)
      (Ends (fun _ => Watched oid source dest seen file (Complete loc file)) (At oid source.rel (Leaving source dest seen file))) := by
  have lasting := lasting_leaving source dest seen file
  have opens : Keeping oid source.rel (At oid source.rel (Leaving source dest seen file)) (request (.openSource source) "open source")
      (Ends (fun src state => src = file ∧ At oid source.rel (Leaving source dest seen file) state)
        (At oid source.rel (Leaving source dest seen file))) := by
    refine triple_request _ (stable_at lasting)
      (fun src state next interferes holds => ⟨holds.1,stable_at lasting state next interferes holds.2⟩)
      (stable_at lasting) (fun _ holds => safe_of_at holds) ?_
    intro state outcome after reply holds _ performed
    have kept := holds.settles (perform_settles rfl performed)
    cases reply with
    | error errno => exact kept
    | ok src =>
      obtain ⟨executed,_⟩ := perform_world (fun _ _ => rfl) performed
      exact ⟨(WorkerSource.openSource_reads (source_named holds) executed).1,kept⟩
  have stats : Keeping oid source.rel (At oid source.rel (Leaving source dest seen file)) (request (.statFile file) "stat source")
      (Ends (fun info => Watched oid source dest seen file (Sized file info.size))
        (At oid source.rel (Leaving source dest seen file))) := by
    refine triple_request _ (stable_at lasting) (fun info => stable_watched lasts_sized) (stable_at lasting)
      (fun _ holds => safe_of_at holds) ?_
    intro state outcome after reply holds _ performed
    have settles := perform_settles rfl performed
    cases reply with
    | error errno => exact holds.settles settles
    | ok info =>
      obtain ⟨executed,_⟩ := perform_world (fun _ _ => rfl) performed
      refine ⟨holds.settles settles,fun _ _ _ => ?_⟩
      have read := congrArg Prod.snd (perform_ok _ _ _ (by nofun) executed)
      cases read
      exact congrArg List.length (settles.content file)
  have opening (size : Nat) : Keeping oid source.rel (Watched oid source dest seen file (Sized file size))
    (request (.openDestination loc object) "open destination (nofollow)")
      (Ends (fun dst state => dst ≠ file ∧ Watched oid source dest seen file (Opened loc file dst size) state)
        (At oid source.rel (Leaving source dest seen file))) := by
    refine triple_request _ (stable_watched lasts_sized)
      (fun dst state next interferes holds => ⟨holds.1,stable_watched lasts_opened state next interferes holds.2⟩)
      (stable_at lasting) (fun _ holds => safe_of_at holds.leaving) ?_
    intro state outcome after reply holds _ performed
    cases reply with
    | ok dst => exact holds.opened different performed
    | error errno => exact holds.leaving.unopened performed
  refine triple_seq opens (fun src => triple_pure fun same => ?_)
  subst same
  refine triple_seq stats fun info => ?_
  refine triple_seq (triple_steady lasts_sized (uses_request _ _ rfl)) (fun _ => ?_) (fun _ _ holds => holds.leaving)
  exact triple_seq (opening info.size) (fun dst => triple_pure fun other => triple_fill loc other)

variable (hooks : Hooks) (plan : MovementPlan) (loc : Loc)

theorem triple_drop {ok : α → State → Prop} (away : loc.dir ≠ source.dir) (cause : GoError) :
    Keeping oid path (At oid path (Leaving source dest seen file))
      (dropDestination hooks plan source loc cause : Act α) (Ends ok (At oid path (Leaving source dest seen file))) := by
  refine triple_fails _ (fails_dropDestination _) (triple_place (lasting_leaving source dest seen file)
    (uses_dropDestination keeps_steady _ _ _ _ (.inr ⟨_,rfl,fun inode there => ?_⟩)))
  rw [there.mnt]
  exact away

theorem at_refused (holds : At oid path (Leaving source dest seen file) state)
    (plain : ∀ world reply, fileEffect state world op reply = state) (performed : perform oid state op outcome = some (after,reply))
    (refused : Refused state.world after.world oid) : At oid path (Leaving source dest seen file) after := by
  refine holds.commanded plain performed fun inode found there => ?_
  rcases refused with same | ⟨known,phase,present,same | ⟨copy,same⟩⟩
  · rw [same]
    exact ⟨rfl,rfl,inode,found,Coherence.samePlace_refl inode,there⟩
  all_goals
    cases found.symm.trans present
    rw [same]
    exact ⟨rfl,rfl,_,Function.update_self ..,⟨rfl,rfl,rfl,rfl,rfl⟩,there.counted,there.mnt,there.lower,there.aim⟩

theorem triple_moveCutover (seq : Nat) (text : String) :
    Keeping oid source.rel (Watched oid source dest seen file (Complete ⟨dest,source.rel⟩ file))
      (request (.moveCutover oid seq (some seen)) text)
      (Ends (fun _ => At oid source.rel (fun inode => inode.lowerPath.mnt = dest))
        (At oid source.rel (Leaving source dest seen file))) := by
  refine triple_request text (stable_watched lasts_complete) (fun _ => stable_at fun _ _ _ there => there)
    (stable_at (lasting_leaving source dest seen file)) (fun _ holds => safe_of_at holds.leaving) ?_
  intro state outcome after reply holds condition performed
  obtain ⟨executed,alike⟩ := perform_world (fun _ _ => rfl) performed
  have refuses := at_refused holds.leaving (fun _ _ => rfl) performed
  rcases perform_moveCutover _ _ _ executed with ⟨same,errno,rfl⟩ | ⟨fault,done⟩ | ⟨errno,rfl,reached,rfl⟩
  · exact refuses (.inl same)
  · rcases movementCutover_spec state.world oid seq (some seen) fault with
      ⟨stopped,errno,result,refused⟩ | ⟨inode,copy,found,_,_,_,_,resolved,result⟩
    · rw [result] at done
      obtain ⟨rfl,rfl⟩ := Prod.mk.inj done
      exact refuses refused
    · rw [result] at done
      obtain ⟨switched,rfl⟩ := Prod.mk.inj done
      obtain ⟨unwritten,named,_⟩ := resolveCutover_ok state.world oid resolved
      exact holds.published found (unwritten seen rfl) named alike switched
  · rcases movementCutover_spec state.world oid seq (some seen) .none with
      ⟨stopped,cause,result,refused⟩ | ⟨inode,copy,_,_,_,_,_,_,result⟩
    · rw [result] at reached
      subst reached
      exact refuses refused
    · exact absurd (congrArg Prod.snd result) (of_decide_eq_true condition)

def CleanupOp (oid : Oid) (dest : Nat) (op : Op) : Prop :=
  Keeps (fun inode => inode.lowerPath.mnt = dest) op ∨ ∃ seq, op = .moveComplete oid seq

theorem triple_arrived {program : Act α} (uses : Uses (CleanupOp oid dest) program) :
    Keeping oid path (At oid path (fun inode => inode.lowerPath.mnt = dest)) program
      (Ends (fun _ => At oid path (fun inode => inode.lowerPath.mnt = dest)) (At oid path (fun inode => inode.lowerPath.mnt = dest))) := by
  refine triple_uses (stable_at fun _ _ _ there => there) (fun _ _ _ holds => safe_of_at holds) ?_ uses
  rintro state op outcome after reply (keeps | ⟨seq,rfl⟩) holds _ performed
  · exact keeps.at holds performed
  obtain ⟨executed,_⟩ := perform_world (fun _ _ => rfl) performed
  refine holds.commanded (fun _ _ => rfl) performed fun inode found there => ?_
  have completed : Marked oid state.world after.world := by
    rcases perform_moveComplete _ _ executed with ⟨same,_⟩ | done | ⟨done,_⟩
    · exact .inl same
    · have world : after.world = _ := congrArg Prod.fst done
      exact world ▸ settle_marked ..
    · exact done ▸ settle_marked ..
  obtain same | ⟨known,_,_,_,present,result⟩ := completed
  · rw [same]
    exact ⟨rfl,rfl,inode,found,Coherence.samePlace_refl inode,there⟩
  · cases found.symm.trans present
    rw [result]
    exact ⟨rfl,rfl,_,Function.update_self ..,⟨rfl,rfl,rfl,rfl,rfl⟩,there⟩

end Triples

section Work

variable {path : RelPath} {seen : Nat} (hooks : Hooks) (plan : MovementPlan)

structure Matched (path : RelPath) (plan : MovementPlan) (seen : Nat) (inode : Inode) : Prop where
  counted : seen ≤ inode.writeSeq
  source : joinPath plan.sourceLowerDir plan.relPath = ⟨inode.lowerPath.mnt,path⟩

theorem lasting_matched : Lasting (Matched path plan seen) :=
  fun _ _ later there => ⟨Nat.le_trans there.counted later,there.source⟩

theorem lasting_since : Lasting (fun inode => seen ≤ inode.writeSeq) :=
  fun _ _ later counted => Nat.le_trans counted later

theorem triple_persistIntent : Keeping plan.objectID path (At plan.objectID path (fun inode => seen ≤ inode.writeSeq))
    (Worker.persistIntent plan)
    (Ends (fun _ state => joinPath plan.destLowerDir plan.relPath = ⟨plan.destTierRank,path⟩ ∧
        At plan.objectID path (Matched path plan seen) state)
      (At plan.objectID path (fun inode => seen ≤ inode.writeSeq))) := by
  have stable : Stable (machine plan.objectID) (honest path) (fun state =>
      joinPath plan.destLowerDir plan.relPath = ⟨plan.destTierRank,path⟩ ∧ At plan.objectID path (Matched path plan seen) state) :=
    fun state next interferes holds => ⟨holds.1,stable_at (lasting_matched plan) state next interferes holds.2⟩
  have records : Keeping plan.objectID path (At plan.objectID path (fun inode => seen ≤ inode.writeSeq))
      (request (.exec (.persistIntent plan)) "persist movement intent")
      (Ends (fun _ state => joinPath plan.destLowerDir plan.relPath = ⟨plan.destTierRank,path⟩ ∧
          At plan.objectID path (Matched path plan seen) state)
        (At plan.objectID path (fun inode => seen ≤ inode.writeSeq))) := by
    refine triple_request _ (stable_at lasting_since) (fun _ => stable) (stable_at lasting_since) (fun _ holds => safe_of_at holds) ?_
    intro state outcome after reply holds fits performed
    have settles := perform_settles rfl performed
    cases reply with
    | error errno => exact holds.settles settles
    | ok count =>
      obtain ⟨inode,live,counted⟩ := holds.live
      change fitting path state plan = true at fits
      rw [fitting,live.found] at fits
      obtain ⟨source,target⟩ := of_decide_eq_true fits
      exact ⟨target,settles.same.tidy holds.tidy,inode,live.settles settles,counted,source⟩
  refine triple_seq records fun _ => ?_
  refine (triple_require _ _ stable).consequence (fun _ => id) fun result state holds => ?_
  cases result with
  | ok value => exact holds.2
  | error error => exact holds.2.weaken fun _ there => there.counted

variable (text : String)

theorem triple_movePlan : Keeping plan.objectID path (At plan.objectID path (Matched path plan seen))
    (request (.movePlan plan.objectID plan.destTierRank plan.transactionSeq) text)
    (Ends (fun _ state => ∃ file, (joinPath plan.sourceLowerDir plan.relPath).rel = path ∧
        plan.destTierRank ≠ (joinPath plan.sourceLowerDir plan.relPath).dir ∧
        At plan.objectID path (Leaving (joinPath plan.sourceLowerDir plan.relPath) plan.destTierRank seen file) state)
      (At plan.objectID path (fun inode => seen ≤ inode.writeSeq))) := by
  refine triple_request _ (stable_at (lasting_matched plan)) (fun _ state next interferes => ?_) (stable_at lasting_since)
    (fun _ holds => safe_of_at holds) ?_
  · rintro ⟨file,same,different,holds⟩
    exact ⟨file,same,different,stable_at (lasting_leaving _ _ _ _) state next interferes holds⟩
  · intro state outcome after reply holds _ performed
    obtain ⟨executed,_⟩ := perform_world (fun _ _ => rfl) performed
    have refuses (same : after.world = state.world) : At plan.objectID path (fun inode => seen ≤ inode.writeSeq) after :=
      holds.commanded (fun _ _ => rfl) performed fun inode found there => by
        rw [same]
        exact ⟨rfl,rfl,inode,found,Coherence.samePlace_refl inode,there.counted⟩
    have accepts {inode : Inode} (found : state.world.inodes plan.objectID = some inode)
      (reached : after.world = state.world.setInode plan.objectID
        {inode with intendedTier := plan.destTierRank, movementState := .planAccepted, transactionSeq := plan.transactionSeq}) :
        At plan.objectID path (Leaving ⟨inode.lowerPath.mnt,path⟩ plan.destTierRank seen inode.lowerPath.file) after :=
      holds.commanded (fun _ _ => rfl) performed fun known present there => by
        cases found.symm.trans present
        rw [reached]
        exact ⟨rfl,rfl,_,Function.update_self ..,⟨rfl,rfl,rfl,rfl,rfl⟩,there.counted,rfl,rfl,rfl⟩
    obtain ⟨inode,live,there⟩ := holds.live
    have plans := movementPlan_spec state.world plan.objectID plan.destTierRank plan.transactionSeq false
    rcases perform_movePlan _ executed with ⟨same,errno,rfl⟩ | done | ⟨done,errno,rfl⟩
    · exact refuses same
    · rcases plans with ⟨errno,refused⟩ | ⟨known,found,_,elsewhere,_,_,result⟩
      · rw [refused] at done
        obtain ⟨same,rfl⟩ := Prod.mk.inj done
        exact refuses same
      · rw [result] at done
        obtain ⟨reached,rfl⟩ := Prod.mk.inj done
        cases live.found.symm.trans found
        refine ⟨inode.lowerPath.file,?_⟩
        rw [there.source]
        exact ⟨rfl,by rw [← live.tier]; exact elsewhere,accepts live.found reached⟩
    · -- a plan whose acceptance is not reported leaves the inode in place
      rcases plans with ⟨errno,refused⟩ | ⟨known,found,_,_,_,_,result⟩
      · rw [refused] at done
        exact refuses done
      · rw [result] at done
        exact (accepts found done).weaken fun _ there => there.counted

variable (ins : InspectResult)

variable {source : Loc} {file : FileId}

theorem triple_copyAndVerify {dest : Nat} (loc : Loc) (away : loc.dir ≠ source.dir) (oid : Oid) :
    Keeping oid source.rel (At oid source.rel (Leaving source dest seen file)) (copyAndVerify hooks ins plan source loc)
      (Ends (fun _ => Watched oid source dest seen file (Complete loc file)) (At oid source.rel (Leaving source dest seen file))) := by
  have lasting := lasting_leaving source dest seen file
  have drops : Keeps (Leaving source dest seen file) (.remove loc) :=
    .inr ⟨loc,rfl,fun inode there => by rw [there.mnt]; exact away⟩
  refine triple_seq (triple_place lasting (uses_reserve keeps_steady _ drops)) fun before => ?_
  refine triple_seq (triple_orDrop plan loc "copy" _ (triple_copy loc away plan.objectID)
    (fun _ => stable_watched lasts_complete) (triple_drop hooks plan loc away)) (fun sum => ?_)
  exact triple_verifyCopy (stable_watched lasts_complete) (fun _ holds => holds.leaving)
    (fun program uses => (triple_steady lasts_complete uses).onError fun _ holds => holds.leaving)
    (triple_drop hooks plan loc away) ins before sum

theorem triple_cutover (sends : ins.hasWriteSeq = true) (away : plan.destTierRank ≠ source.dir) :
    Keeping plan.objectID source.rel
      (Watched plan.objectID source plan.destTierRank ins.writeSeq file (Complete ⟨plan.destTierRank,source.rel⟩ file))
      (cutover hooks ins plan source ⟨plan.destTierRank,source.rel⟩)
      (Ends (fun _ => At plan.objectID source.rel (fun inode => inode.lowerPath.mnt = plan.destTierRank))
        (Safe plan.objectID source.rel)) := by
  have quiet (op : Op) (steady : op.steady = true) : CleanupOp plan.objectID plan.destTierRank op := .inl (.inl steady)
  unfold cutover
  rw [if_pos sends]
  refine triple_seq (triple_orDrop plan _ _ _ (triple_moveCutover _ _) (fun _ => stable_at fun _ _ _ there => there)
    (triple_drop hooks plan _ away)) (fun _ => ?_) (fun _ _ holds => safe_of_at holds)
  refine (triple_arrived (uses_bind (uses_log (calmed quiet) _) fun _ => uses_persist (calmed quiet) _)).consequence (fun _ => id)
    fun result state holds => ?_
  cases result with
  | ok value => exact holds
  | error error => exact safe_of_at holds

theorem triple_move (sends : ins.hasWriteSeq = true) :
    Keeping plan.objectID path (At plan.objectID path (fun inode => ins.writeSeq ≤ inode.writeSeq)) (move hooks ins plan)
      (fun _ => Safe plan.objectID path) := by
  have quiet (op : Op) (steady : op.steady = true) : CleanupOp plan.objectID plan.destTierRank op := .inl (.inl steady)
  have arrived (program : Act Unit) (uses : Uses (CleanupOp plan.objectID plan.destTierRank) program) :
      Keeping plan.objectID path (At plan.objectID path (fun inode => inode.lowerPath.mnt = plan.destTierRank)) program
        (fun _ => Safe plan.objectID path) := by
    refine (triple_arrived uses).consequence (fun _ => id) fun result state holds => ?_
    cases result <;> exact safe_of_at holds
  have rolls (cause : GoError) : Keeping plan.objectID path (At plan.objectID path (fun inode => ins.writeSeq ≤ inode.writeSeq))
      (rollbackLUNBeforeSwitch hooks plan (joinPath plan.sourceLowerDir plan.relPath) cause : Act Unit)
      (Ends (fun _ state => ∃ file, (joinPath plan.sourceLowerDir plan.relPath).rel = path ∧
          plan.destTierRank ≠ (joinPath plan.sourceLowerDir plan.relPath).dir ∧
          At plan.objectID path (Leaving (joinPath plan.sourceLowerDir plan.relPath) plan.destTierRank ins.writeSeq file) state)
        (At plan.objectID path (fun inode => ins.writeSeq ≤ inode.writeSeq))) :=
    triple_fails _ (fails_rollback _ _ _ _) (triple_place lasting_since (uses_rollback keeps_steady _ _ _ _))
  refine triple_seq (triple_persistIntent plan) (fun _ => triple_pure fun target => ?_) (fun _ _ holds => safe_of_at holds)
  refine triple_seq (triple_orRollback plan _ _ (triple_movePlan plan "plan") (fun _ state next interferes => ?_) rolls)
    (fun _ => ?_) (fun _ _ holds => safe_of_at holds)
  · rintro ⟨file,same,different,holds⟩
    exact ⟨file,same,different,stable_at (lasting_leaving _ _ _ _) state next interferes holds⟩
  rintro state ⟨file,rfl,away,holds⟩
  have cleans := arrived _ (uses_cleanup (calmed quiet) plan
    (.inl (.inr ⟨_,rfl,fun inode there => by rw [there]; exact away.symm⟩)) (.inr ⟨_,rfl⟩))
  rw [target]
  refine triple_seq (triple_copyAndVerify hooks plan ins _ away plan.objectID) (fun _ => ?_) (fun _ _ holds => safe_of_at holds) state holds
  refine triple_seq (triple_cutover hooks plan ins sends away) fun _ => ?_
  split
  · exact triple_handle (triple_arrived (uses_repinDestination quiet _)) (fun _ => cleans)
      (fun error => arrived _ (uses_failAfterSwitch (calmed quiet) _ _))
  · exact cleans

theorem triple_inspect : Keeping plan.objectID path (Safe plan.objectID path) (request (.inspect plan.objectID) text)
    (Ends (fun ins state => ins.hasWriteSeq = true ∧ At plan.objectID path (fun inode => ins.writeSeq ≤ inode.writeSeq) state)
      (Safe plan.objectID path)) := by
  refine triple_request text stable_safe (fun ins state next interferes holds =>
    ⟨holds.1,stable_at lasting_since state next interferes holds.2⟩) stable_safe (fun _ holds => holds) ?_
  intro state outcome after reply holds _ performed
  have settles := perform_settles rfl performed
  cases reply with
  | error errno => exact holds.settles settles
  | ok ins =>
    obtain ⟨executed,_⟩ := perform_world (fun _ _ => rfl) performed
    have inspected : inspect state.world plan.objectID = .ok ins := congrArg Prod.snd (perform_ok _ _ _ (by nofun) executed)
    obtain ⟨known,found,rfl⟩ := (inspect_ok ..).mp inspected
    obtain ⟨inode,live,_⟩ := holds.live
    cases live.found.symm.trans found
    exact ⟨rfl,settles.same.tidy holds.tidy,_,live.settles settles,Nat.le_refl _⟩

theorem triple_execute : Keeping plan.objectID path (Safe plan.objectID path) (execute hooks plan) (fun _ => Safe plan.objectID path) := by
  have admits (ins : InspectResult) : Keeping plan.objectID path
      (fun state => ins.hasWriteSeq = true ∧ At plan.objectID path (fun inode => ins.writeSeq ≤ inode.writeSeq) state)
      (acceptPlan plan ins)
      (Ends (fun value state => (ins.hasWriteSeq = true ∧ value = (ins,{plan with relPath := chosenPath plan ins})) ∧
          At plan.objectID path (fun inode => ins.writeSeq ≤ inode.writeSeq) state)
        (Safe plan.objectID path)) := by
    refine triple_pure fun sends => (triple_returns _ (returns_acceptPlan plan ins) (triple_place lasting_since
      (uses_acceptPlan (calmed keeps_steady) plan ins))).consequence (fun _ => id) fun result state holds => ?_
    cases result with
    | ok value => exact ⟨⟨sends,holds.1⟩,holds.2⟩
    | error error => exact safe_of_at holds
  have preflights : Keeping plan.objectID path (Safe plan.objectID path) (preflight plan)
      (Ends (fun value state => (value.1.hasWriteSeq = true ∧ ∃ rel, value.2 = {plan with relPath := rel}) ∧
          At plan.objectID path (fun inode => value.1.writeSeq ≤ inode.writeSeq) state)
        (Safe plan.objectID path)) := by
    refine triple_seq (triple_inspect plan _) (fun ins => (admits ins).consequence (fun _ => id) ?_)
    intro result state holds
    cases result with
    | error error => exact holds
    | ok value =>
      obtain ⟨⟨sends,rfl⟩,there⟩ := holds
      exact ⟨⟨sends,_,rfl⟩,there⟩
  refine triple_seq preflights (fun ⟨ins,resolved⟩ => triple_pure fun ⟨sends,rel,same⟩ => ?_)
  cases same
  exact triple_move hooks {plan with relPath := rel} ins sends

theorem triple_work {oid : Oid} {plans : List MovementPlan} (mine : ∀ plan ∈ plans, plan.objectID = oid) :
    Keeping oid path (Safe oid path) (work hooks plans) (fun _ => Safe oid path) := by
  induction plans with
  | nil => exact triple_done stable_safe (fun _ => id)
  | cons plan plans ih =>
    have executes : Keeping oid path (Safe oid path) (execute hooks plan) (Ends (fun _ => Safe oid path) (Safe oid path)) := by
      obtain rfl := mine plan List.mem_cons_self
      refine (triple_execute hooks plan).consequence (fun _ => id) fun result state holds => ?_
      cases result <;> exact holds
    have rest := ih fun other member => mine other (List.mem_cons_of_mem _ member)
    exact triple_handle executes (fun _ => rest) (fun _ => rest)

end Work

theorem work_safe {oid : Oid} {path : RelPath} {hooks : Hooks} {plans : List MovementPlan} (mine : ∀ plan ∈ plans, plan.objectID = oid)
    {start : State} (safe : Safe oid path start) {labels : List (Label Outcome Env)} {config : Config Op Reply State GoError Unit}
    (guarded : Guarded (step (machine oid)) (honest path).guard ⟨work hooks plans,start⟩ labels)
    (reached : run (step (machine oid)) ⟨work hooks plans,start⟩ labels = some config) : Safe oid path config.world := by
  have holds := wp_run _ (triple_work hooks mine start safe) guarded reached
  obtain ⟨program,state⟩ := config
  cases program with
  | done value | fail error => exact holds state .refl
  | call op next => exact (holds state .refl).1

end Smoothfs.DurableMovement
