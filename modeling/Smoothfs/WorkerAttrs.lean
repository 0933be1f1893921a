import Smoothfs.WorkerSource

/-! Which attributes a move publishes. The worker copies bytes only, so the
attributes seen after the cutover are those of the file it created. -/
namespace Smoothfs.WorkerAttrs

open Program Control Movement Worker Run Namespace WorkerSource Function

/-- Attributes and xattrs seen through the mount are the same on both sides of
every cutover. -/
def Transparent (history : List Event) : Prop :=
  ∀ old new before after, .switched old new before after ∈ history → after = before

def freshAttrs (umask time : Nat) : Attrs :=
  ⟨createMode umask,time,[]⟩

/-- Immediately before the cutover the object looked like a file that the worker
had just written. -/
def Plain (umask : Nat) (history : List Event) : Prop :=
  ∀ file time old new before after, .copied file time ∈ history → .switched old new before after ∈ history →
    before = freshAttrs umask time

/-- Users leave the source name and the destination name alone. -/
def secluded (source dest : Loc) : Rely Op World Outcome Interference where
  outcome := fun _ _ _ => True
  action := fun world => fun
    | .user action => source ∉ takes world action ∧ dest ∉ touches world action
    | .foreign _ _ => False

section Destination

variable {source dest : Loc} {oid : Oid} {umask time : Nat} {world after : World}

theorem Robust.seclude {holds : World → Prop} (robust : Robust (undisturbed source oid) holds) :
    Robust (secluded source dest) holds where
  stable := by
    rintro world next ⟨action,allowed,interfered⟩
    apply robust.stable world next
    cases action with
    | user action => exact ⟨.user action,allowed.1,interfered⟩
    | foreign op outcome => exact absurd allowed (fun never => never)
  steady := robust.steady

structure Vacant (dest : Loc) (umask : Nat) (world : World) : Prop where
  free : world.names dest = none
  bounded : Bounded world
  umask : world.umask = umask

structure Made (dest : Loc) (umask : Nat) (file : FileId) (time : Nat) (world : World) : Prop where
  aside : Aside dest file world
  attrs : (world.files file).attrs = freshAttrs umask time

theorem robust_vacant : Robust (secluded source dest) (Vacant dest umask) := by
  constructor
  · rintro world next ⟨action,allowed,interfered⟩ holds
    cases action with
    | foreign op outcome => exact absurd allowed (fun never => never)
    | user action =>
      have effect := act_effect world next action interfered
      exact ⟨(effect.names dest allowed.2).trans holds.free,holds.bounded.effect effect,effect.umask.trans holds.umask⟩
  · intro world op outcome after reply steady holds performed
    have same := perform_steady after outcome steady performed
    refine ⟨by rw [same.names,holds.free],?_,same.umask.trans holds.umask⟩
    constructor
    · rw [same.names,same.nextFile]
      exact holds.bounded.names
    · rw [same.inodes,same.nextFile]
      exact holds.bounded.lower

theorem robust_made (file : FileId) (time : Nat) : Robust (secluded source dest) (Made dest umask file time) := by
  constructor
  · rintro world next ⟨action,allowed,interfered⟩ holds
    cases action with
    | foreign op outcome => exact absurd allowed (fun never => never)
    | user action =>
      obtain ⟨aside,same⟩ := holds.aside.effect allowed.2 (act_effect world next action interfered)
      exact ⟨aside,by rw [same,holds.attrs]⟩
  · intro world op outcome after reply steady holds performed
    have same := perform_steady after outcome steady performed
    have attrs := congrArg LowerFile.attrs (same.files file)
    refine ⟨⟨?_,?_,?_,?_⟩,Eq.trans attrs holds.attrs⟩
    · rw [same.names,holds.aside.named]
    · rw [same.names]
      exact holds.aside.only
    · intro oid inode found
      rw [same.inodes] at found
      exact holds.aside.idle oid inode found
    · rw [same.nextFile]
      exact holds.aside.old

theorem Vacant.movePlan (holds : Vacant dest umask world) (destTier txn : Nat)
    (planned : movementPlan world oid destTier txn false = (after,.ok ())) : Vacant dest umask after := by
  rcases movementPlan_spec world oid destTier txn false with ⟨_,refused⟩ | ⟨inode,found,_,_,_,_,result⟩
  · rw [refused] at planned
    cases planned
  rw [result] at planned
  cases planned
  refine ⟨holds.free,⟨holds.bounded.names,fun other known present => ?_⟩,holds.umask⟩
  rw [World.setInode_inodes] at present
  split at present
  · cases present
    exact holds.bounded.lower oid inode found
  · exact holds.bounded.lower other known present

theorem Vacant.opened (holds : Vacant dest umask world) {object : Oid} {outcome : Outcome} {dst : FileId}
    (performed : perform world (.openDestination dest object) outcome = some (after,.ok dst)) :
    Made dest umask dst world.clock after := by
  have executed := perform_ok (.openDestination dest object) outcome dst (by nofun) performed
  simp only [execOp,openDestination,holds.free] at executed
  cases executed
  have fresh (loc : Loc) : world.names loc ≠ some world.nextFile :=
    fun named => Nat.lt_irrefl _ (holds.bounded.names loc _ named)
  refine ⟨⟨update_self ..,fun other named => ?_,fun other inode found same => ?_,Nat.lt_succ_self _⟩,?_⟩
  · rw [World.create_names] at named
    split at named
    · assumption
    · exact absurd named (fresh other)
  · have older := holds.bounded.lower other inode found
    rw [same] at older
    exact Nat.lt_irrefl _ older
  · change (update world.files world.nextFile _ world.nextFile).attrs = _
    rw [update_self,holds.umask]
    rfl

theorem Made.copied {dst src : FileId} (holds : Made dest umask dst time world) (count : Nat) :
    ∃ later, Made dest umask dst later (ioCopy world src dst count).1 ∧
      (ioCopy world src dst count).1.history = world.history ++ [.copied src later] := by
  refine ⟨_,⟨⟨holds.aside.named,holds.aside.only,holds.aside.idle,holds.aside.old⟩,?_⟩,rfl⟩
  change (update world.files dst _ dst).attrs = _
  rw [update_self,holds.attrs]
  rfl

theorem lands_vacant {plan : MovementPlan} (rel : RelPath) (rooted : plan.destLowerDir = plan.destTierRank) :
    Lands (secluded (joinPath plan.sourceLowerDir rel) (joinPath plan.destLowerDir rel)) plan (joinPath plan.sourceLowerDir rel)
      (joinPath plan.destLowerDir rel) (Vacant (joinPath plan.destLowerDir rel) umask) (Made (joinPath plan.destLowerDir rel) umask)
      (fun time after => after = freshAttrs umask time) := by
  refine ⟨robust_vacant,robust_made,fun _ _ holds planned => holds.movePlan _ _ planned,
    fun _ _ _ _ holds performed => ⟨_,holds.opened performed⟩,fun _ _ _ _ count holds => holds.copied count,?_⟩
  intro world inode file dst time new holds here named
  have destination : cutoverDest inode = joinPath plan.destLowerDir rel := by
    simp only [cutoverDest,here.path,here.aim]
    rw [← rooted]
    rfl
  rw [destination,holds.aside.named] at named
  cases named
  exact holds.attrs

end Destination

theorem Traced.transparent_iff {umask : Nat} {history : List Event}
    (published : Traced (fun time after => after = freshAttrs umask time) history) : Transparent history ↔ Plain umask history := by
  obtain ⟨file,time,new,seen,_,rfl,record⟩ := published
  have copied : .copied file time ∈ history := by rcases record with rfl | ⟨_,rfl⟩ <;> simp
  have copies (other : FileId) (later : Nat) (member : .copied other later ∈ history) : later = time := by
    rcases record with rfl | ⟨_,rfl⟩ <;> simp at member <;> exact member.2
  have switches (old fresh : FileId) (before after : Attrs) (member : .switched old fresh before after ∈ history) :
      before = seen ∧ after = freshAttrs umask time := by
    rcases record with rfl | ⟨_,rfl⟩ <;> simp at member <;> exact ⟨member.2.2.1,member.2.2.2⟩
  constructor
  · intro transparent other later old fresh before after first second
    obtain ⟨rfl,rfl⟩ := switches old fresh before after second
    rw [copies other later first]
    exact (transparent old fresh before _ second).symm
  · intro plain old fresh before after member
    obtain ⟨rfl,rfl⟩ := switches old fresh before after member
    exact (plain file time old fresh before _ copied member).symm

/-- A move onto a free destination is transparent exactly when the object already had the attributes
of a new file. -/
theorem execute_transparent_iff (hooks : Hooks) (plan : MovementPlan) (world : World) (outcome : Outcome)
    (labels : List (Label Outcome Interference)) (config : Config Op Reply World GoError Unit) (agrees : Agrees world plan)
    (bounded : Bounded world) (free : world.names (destinationOf world plan) = none)
    (rooted : plan.destLowerDir = plan.destTierRank) (quiet : world.history = [])
    (guarded : Guarded (step machine) (secluded (sourceOf world plan) (destinationOf world plan)).guard
      ⟨execute hooks plan,world⟩ (.call outcome::labels))
    (reached : run (step machine) ⟨execute hooks plan,world⟩ (.call outcome::labels) = some config)
    (returned : config.program = .done ()) :
    Transparent config.world.history ↔ Plain world.umask config.world.history :=
  Traced.transparent_iff (execute_traced agrees quiet (fun _ _ _ => Robust.seclude robust_tracked)
    (fun _ => Robust.seclude (@robust_named _ plan.objectID _)) (lands_vacant (effectivePath world plan) rooted)
      ⟨free,bounded,rfl⟩ guarded reached
    returned)

theorem promote_bounded {world : World} (names : world.names = threeTiers.names) (inodes : world.inodes = threeTiers.inodes)
    (nextFile : world.nextFile = 1) : Bounded world := by
  constructor
  · intro loc file found
    rw [names] at found
    simp only [threeTiers] at found
    split at found <;> cases found
    rw [nextFile]
    exact Nat.one_pos
  · intro oid inode found
    rw [inodes] at found
    simp only [threeTiers] at found
    split at found <;> cases found
    rw [nextFile]
    exact Nat.one_pos

def plainTiers : World :=
  {threeTiers with files := fun _ => ⟨true,[1],⟨0o644,9,[]⟩,some 7,false,7⟩}

theorem promote_plain_transparent : ∃ config,
    run (step machine) ⟨execute ⟨false⟩ promote,plainTiers⟩ (.call .done::List.replicate 30 (.call .done)) = some config ∧
      config.program = .done () ∧ Transparent config.world.history := by
  refine ⟨_,rfl,rfl,?_⟩
  refine (execute_transparent_iff ⟨false⟩ promote plainTiers .done (List.replicate 30 (.call .done)) _ promote_agrees
    (promote_bounded rfl rfl rfl) rfl rfl rfl (guarded_of_labels _ _ _ ?_) rfl rfl).mpr ?_
  · rintro label member ⟨program,world⟩
    cases List.eq_of_mem_replicate (show label ∈ List.replicate 31 (.call .done) from member)
    cases program <;> trivial
  · intro file time old new before after copied switched
    change .copied file time ∈ [Event.copied 0 9,.switched 0 1 ⟨0o644,9,[]⟩ ⟨0o644,9,[]⟩,.removed ⟨2,["a"]⟩ 0] at copied
    change .switched old new before after ∈ [Event.copied 0 9,.switched 0 1 ⟨0o644,9,[]⟩ ⟨0o644,9,[]⟩,.removed ⟨2,["a"]⟩ 0]
      at switched
    simp at copied switched
    rw [switched.2.2.1,copied.2]
    rfl

/-- A file of mode 0600 is moved: afterwards it has mode 0644 and a new
modification time. -/
theorem promote_changes_attributes : Agrees threeTiers promote ∧ ∃ config,
    run (step machine) ⟨execute ⟨false⟩ promote,threeTiers⟩ (List.replicate 31 (.call .done)) = some config ∧
      config.program = .done () ∧ .switched 0 1 ⟨0o600,5,[]⟩ ⟨0o644,9,[]⟩ ∈ config.world.history ∧
      ¬ Transparent config.world.history := by
  refine ⟨promote_agrees,_,rfl,rfl,?_,fun transparent => ?_⟩
  · exact .tail _ (.head _)
  · exact absurd (transparent 0 1 ⟨0o600,5,[]⟩ ⟨0o644,9,[]⟩ (.tail _ (.head _))) (by decide)

end Smoothfs.WorkerAttrs
