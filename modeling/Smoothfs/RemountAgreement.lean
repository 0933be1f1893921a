import Smoothfs.Resolve

/-! Two ways to an object on a pool that is mounted again: by its name, along the
tiers, and by its identity, along the placement log and the path index. -/
namespace Smoothfs.RemountAgreement

open Control Lookup Resolve Run
open Placement hiding recoveryResolveOid
open CrashRecovery (reachedByName)

def lookedUp (number : Oid → Nat) (mount : Mount) (mask parent : Nat) (rel : RelPath) (fresh gen : Oid) :
    Option (Oid × Inode) := do
  let found ← lookupInner number mount.world mount.cache (hasLink mount.world) mask parent rel fresh
  let after ← lookup number mount (hasLink mount.world) mask parent rel fresh gen
  let inode ← after.world.inodes found.oid
  some (found.oid,inode)

def resolved (number : Oid → Nat) (mount : Mount) (fresh oid : Oid) : Option Inode :=
  match recoveryResolveOid number mount fresh oid with
  | (after,some found) => after.world.inodes found
  | (_,none) => none

/-- One file carries the identity, a place that is recorded for it has no other file, and the last
record is not one that replay takes over as it is. -/
structure Unambiguous (mount : Mount) (oid : Oid) : Prop where
  sole : ∀ one two file copy, mount.world.names one = some file → mount.world.names two = some copy →
    (mount.world.files file).oid = some oid → (mount.world.files copy).oid = some oid → one = two
  current : ∀ record place file, recorded mount oid = some (record,place,file) → (mount.world.files file).oid = some oid
  resumed : mount.world.pool.cacheMode = true ∨ ∀ last, (mount.log.filter (·.oid = oid)).getLast? = some last →
    last.movementState ∉ [.failed,.stale,.cleanupComplete]

variable (number : Oid → Nat)

theorem iget_empty (world : World) (fresh : Oid) (tier : Nat) (file : FileId) :
    iget number world ⟨[],[]⟩ fresh tier file = ⟨(world.files file).oid.getD fresh,tier,file,(world.files file).oid.isNone⟩ := by
  simp only [iget,igetIdentity,igetLocked]
  cases (world.files file).oid <;> rfl

variable {mount : Mount}

theorem lookedUp_spec {mount : Mount} {kept mask parent : Nat} {rel : RelPath} {fresh gen oid : Oid}
    {inode : Inode} (looked : lookedUp number (remount mount kept) mask parent rel fresh gen = some (oid,inode)) :
    ∃ tier file, mount.world.names ⟨tier,rel⟩ = some file ∧ inode.lowerPath.mnt = tier ∧ inode.lowerPath.file = file ∧
      inode.movementState = .placed ∧ (mount.world.files file).oid.getD fresh = oid := by
  obtain ⟨found,inner,looked⟩ := Option.bind_eq_some_iff.mp looked
  obtain ⟨after,made,looked⟩ := Option.bind_eq_some_iff.mp looked
  obtain ⟨known,present,same⟩ := Option.bind_eq_some_iff.mp looked
  cases same
  obtain ⟨place,there,rfl⟩ := Option.map_eq_some_iff.mp made
  rw [lookupInner,there] at inner
  cases inner
  have stands := reached_stands mask there
  cases place with
  | known known => cases stands.1
  | lower place tracked =>
    obtain ⟨tier,file⟩ := place
    change (World.setInode _ _ _).inodes _ = _ at present
    rw [World.setInode_inodes,if_pos rfl] at present
    cases present
    refine ⟨tier,file,stands,?_⟩
    have own := congrArg Found.oid (iget_empty number (remount mount kept).world fresh tier file)
    split <;> exact ⟨rfl,rfl,rfl,own.symm⟩

theorem replayNormalize_resumed {record : ReplayRecord} (resumed : record.movementState ∉ [.failed,.stale,.cleanupComplete]) :
    (replayNormalize record).normalizedState = .placed := by
  unfold replayNormalize
  split <;> simp_all

theorem pathIndexRead_resumed {log : List PlacementRecord} {oid : Oid} {ntiers : Nat} {entry : Option Loc} {record : ReplayRecord}
    (resumed : ∀ last, (log.filter (·.oid = oid)).getLast? = some last → last.movementState ∉ [.failed,.stale,.cleanupComplete])
    (read : pathIndexRead ntiers (replayLoadLog log oid) entry = some record) : record.normalizedState = .placed := by
  have loaded (known : ReplayRecord) (found : replayLoadLog log oid = some known) : known.normalizedState = .placed := by
    obtain ⟨last,there,rfl⟩ := Option.map_eq_some_iff.mp found
    exact replayNormalize_resumed (resumed last there)
  unfold pathIndexRead at read
  split at read
  · exact loaded record read
  split at read
  · exact loaded record read
  cases read
  cases found : replayLoadLog log oid with
  | none => rfl
  | some known => exact loaded known found

theorem resolved_eq (mount : Mount) (kept : Nat) (fresh oid : Oid) :
    resolved number (remount mount kept) fresh oid = (recorded (remount mount kept) oid).map fun (record,place,file) =>
      replayedInode mount.world.pool record place (Namespace.newInode place.dir file place.rel) := by
  unfold resolved recoveryResolveOid
  rw [if_neg (by simp [remount])]
  cases led : recorded (remount mount kept) oid with
  | none => rfl
  | some target => simp only [instantiate,World.setInode_inodes]; rfl

theorem resolved_remount (mount : Mount) (kept : Nat) (fresh oid : Oid) : resolved number (remount mount kept) fresh oid =
      Placement.recoveryResolveOid (remount mount kept).world (mount.log.take kept) (mount.index oid) oid := by
  rw [resolved_eq]
  unfold recorded Placement.recoveryResolveOid
  change _ = ((remount mount kept).records oid).bind (replayInstantiateOne (remount mount kept).world)
  cases (remount mount kept).records oid with
  | none => rfl
  | some record =>
    simp only [Option.bind_some,bind,replayInstantiateOne]
    cases record.chosen <|> record.fallback with
    | none => rfl
    | some loc =>
      by_cases inside : loc.dir < (remount mount kept).world.pool.ntiers
      · simp only [Option.filter_some,inside,decide_true,if_true,Option.bind_some,Nat.not_le.mpr inside]
        cases (remount mount kept).world.names (backing (remount mount kept).world.pool loc) with
        | none => rfl
        | some file =>
          simp only [replayedInode,Namespace.newInode,ite_self]
          rfl
      · simp [Nat.not_lt.mp inside]

/-- Lookup and resolution give the same backing and the same movement state, as long as the disks
are unambiguous about the identity. -/
theorem name_and_identity_agree (number : Oid → Nat) (mount : Mount) (kept mask parent : Nat) (rel : RelPath)
    (fresh gen other oid : Oid) (one two : Inode)
    (new : ∀ loc file, mount.world.names loc = some file → (mount.world.files file).oid ≠ some fresh)
    (looked : lookedUp number (remount mount kept) mask parent rel fresh gen = some (oid,one))
    (made : resolved number (remount mount kept) other oid = some two) (unambiguous : Unambiguous (remount mount kept) oid) :
    one.lowerPath.mnt = two.lowerPath.mnt ∧ one.lowerPath.file = two.lowerPath.file ∧ one.movementState = two.movementState := by
  obtain ⟨tier,file,named,mnt,backing,placed,identity⟩ :=
    lookedUp_spec number looked
  rw [resolved_eq] at made
  obtain ⟨⟨record,place,copy⟩,led,rfl⟩ := Option.map_eq_some_iff.mp made
  obtain ⟨recorded,standing⟩ := recorded_named led
  have carries := unambiguous.current record place copy led
  -- The name's file has an identity of its own, since that of the copy is not a new one.
  have own : (mount.world.files file).oid = some oid := by
    cases has : (mount.world.files file).oid with
    | some name =>
      rw [has] at identity
      exact congrArg some identity
    | none =>
      rw [has] at identity
      exact absurd (carries.trans (congrArg some identity.symm)) (new place copy standing)
  have same : (⟨tier,rel⟩ : Loc) = place := unambiguous.sole _ _ file copy named standing own carries
  subst same
  have files : file = copy := Option.some.inj (named.symm.trans standing)
  refine ⟨mnt,backing.trans files,?_⟩
  rw [placed]
  dsimp only [replayedInode]
  split
  · rfl
  next tierMode =>
  have resumed := unambiguous.resumed.resolve_left tierMode
  exact (pathIndexRead_resumed resumed recorded).symm

def switched : List Label :=
  [.user (.create 7 0 ["a"] 0o600),.user (.write 7 [1,2]),.control (.movePlan 7 1 1) .done,
    .control (.openDestination ⟨1,["a"]⟩ 7) .done,.control (.ioCopy 0 1) .done,.control (.moveCutover 7 1 (some 1)) .done]

def completedMove : Mount :=
  (run (step id) (emptyMount StagingDrain.twoTierPool 0 0) (switched ++
    [.control (.remove ⟨0,["a"]⟩) .done,.control (.moveComplete 7 1) .done,.rebuild [(⟨1,["a"]⟩,9)]])).getD
    (emptyMount StagingDrain.twoTierPool 0 0)

theorem completedMove_names {loc : Loc} {file : FileId} (named : completedMove.world.names loc = some file) : loc = ⟨1,["a"]⟩ := by
  have names : completedMove.world.names = ((((emptyMount StagingDrain.twoTierPool 0 0).world.setName
      ⟨0,["a"]⟩ (some 0)).setName ⟨1,["a"]⟩ (some 1)).setName ⟨0,["a"]⟩ none).names := rfl
  rw [names] at named
  rw [World.setName_names,World.setName_names,World.setName_names] at named
  split at named
  · cases named
  · split at named
    next here => exact here
    next => cases named

theorem completed_move_agrees : ∃ one two, lookedUp id (remount completedMove 9) 3 0 ["a"] 9 0 = some (7,one) ∧
    resolved id (remount completedMove 9) 9 7 = some two ∧
    one.lowerPath.mnt = two.lowerPath.mnt ∧ one.lowerPath.file = two.lowerPath.file ∧ one.movementState = two.movementState := by
  refine ⟨_,_,rfl,rfl,?_⟩
  apply name_and_identity_agree id completedMove 9 3 0 ["a"] 9 0 9 7 _ _ ?_ rfl rfl
  · refine ⟨?_,?_,.inr ?_⟩
    · intro one two file copy first second _ _
      rw [completedMove_names first,completedMove_names second]
    · intro record place file led
      have there : (recorded (remount completedMove 9) 7).map (·.2.2) = some 1 := by decide +kernel
      rw [led] at there
      cases there
      decide +kernel
    · intro last there
      have placed : (((remount completedMove 9).log.filter (·.oid = 7)).getLast?).map (·.movementState) = some .placed := by
        decide +kernel
      rw [there] at placed
      simp [Option.some.inj placed]
  · intro loc file named
    cases completedMove_names named
    have there : completedMove.world.names ⟨1,["a"]⟩ = some 1 := by decide +kernel
    cases there.symm.trans named
    decide +kernel

/-- If the index is made before the source is removed, the name leads to the source
and the identity to the copy. -/
theorem switched_move_disagrees : ∃ mount, run (step id) (emptyMount StagingDrain.twoTierPool 0 0)
      (switched ++ [.rebuild [(⟨0,["a"]⟩,8),(⟨1,["a"]⟩,9)]]) = some mount ∧
    (lookedUp id (remount mount 9) 3 0 ["a"] 9 0).map (fun found => (found.1,found.2.lowerPath.mnt,found.2.lowerPath.file)) =
      some (7,0,0) ∧
    (resolved id (remount mount 9) 9 7).map (fun inode => (inode.lowerPath.mnt,inode.lowerPath.file)) = some (1,1) :=
  ⟨_,rfl,by decide +kernel,by decide +kernel⟩

end Smoothfs.RemountAgreement
