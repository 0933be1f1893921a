import Smoothfs.Control

/-! The placement log with its writeback queue, the path index, and the inode
that a mount makes out of the two for an object it is asked for by identity. -/
namespace Smoothfs.Placement

open Control

structure PlacementRecord where
  oid : Oid
  movementState : MovementState
  currentTier : Nat
  intendedTier : Nat
  deriving DecidableEq, Repr

def cutoverAdmitted (world : World) (inode : Inode) (seq : Nat) : Bool :=
  ¬ world.pool.quiesced ∧ inode.intendedTier < world.pool.ntiers ∧ inode.movementState.preCutover ∧
    inode.transactionSeq = seq ∧ ¬ inode.mapped

def inodeRecords (world : World) (oid : Oid) (before after : Inode) : Op → List PlacementRecord
  | .movePlan _ _ _ =>
    if before.movementState = .placed ∧ after.movementState = .planAccepted then
      [⟨oid,.planAccepted,after.currentTier,after.intendedTier⟩]
    else []
  | .moveCutover _ seq _ =>
    if cutoverAdmitted world before seq then
      [⟨oid,.cutoverInProgress,before.currentTier,before.intendedTier⟩,
        ⟨oid,after.movementState,after.currentTier,after.intendedTier⟩]
    else []
  | .moveComplete _ _ | .moveRollback _ _ =>
    if before.movementState ≠ .placed ∧ after.movementState = .placed then
      [⟨oid,.placed,after.currentTier,after.currentTier⟩]
    else []
  | _ => []

def placementRecords (world after : World) (oid : Oid) (op : Op) : List PlacementRecord :=
  match op.moves oid, world.inodes oid, after.inodes oid with
  | true, some before, some later => inodeRecords world oid before later op
  | _, _, _ => []

/-- A `smoothfs_replay_record`. `logged` says that the log holds a record of the
object, and `none` stands for the tier `U8_MAX`. -/
structure ReplayRecord where
  logged : Bool
  movementState : MovementState
  currentTier : Nat
  intendedTier : Nat
  authoritativeTier : Option Nat
  normalizedState : MovementState
  normalized : Bool
  fallback : Option Loc
  chosen : Option Loc
  deriving DecidableEq, Repr

def ReplayRecord.fresh : ReplayRecord := ⟨false,.placed,0,0,none,.placed,false,none,none⟩

def replayNormalize (record : ReplayRecord) : ReplayRecord :=
  match record.movementState with
  | .planAccepted | .destinationReserved | .copyInProgress | .copyComplete | .copyVerified =>
    {record with normalized := true, normalizedState := .placed, authoritativeTier := some record.currentTier}
  | .cutoverInProgress | .switched | .cleanupInProgress =>
    {record with normalized := true, normalizedState := .placed, authoritativeTier := some record.intendedTier}
  | .placed | .cleanupComplete | .failed | .stale =>
    {record with normalized := false, normalizedState := record.movementState, authoritativeTier := some record.currentTier}

def replayLoadLog (log : List PlacementRecord) (oid : Oid) : Option ReplayRecord :=
  ((log.filter (·.oid = oid)).getLast?).map fun record =>
    replayNormalize {ReplayRecord.fresh with
      logged := true
      movementState := record.movementState
      currentTier := record.currentTier
      intendedTier := record.intendedTier}

def pathIndexRead (ntiers : Nat) (loaded : Option ReplayRecord) (entry : Option Loc) : Option ReplayRecord :=
  match entry with
  | none => loaded
  | some loc =>
    if ntiers ≤ loc.dir then loaded
    else
      let record := loaded.getD .fresh
      some {record with
        chosen := if record.chosen = none ∧ (record.authoritativeTier = none ∨ record.authoritativeTier = some loc.dir) then some loc
          else record.chosen
        fallback := record.fallback <|> some loc}

def scanNode (found : Option ReplayRecord) (loc : Loc) : ReplayRecord :=
  let record := found.getD .fresh
  let record := if ¬ record.logged ∧ record.chosen = none then
      replayNormalize {record with movementState := .placed, currentTier := loc.dir, intendedTier := loc.dir}
    else record
  {record with
    fallback := record.fallback <|> some loc
    chosen := if record.authoritativeTier = some loc.dir ∧ record.chosen = none then some loc else record.chosen}

/-- Where a mount looks for the file of an entry: a cache keeps it on the base tier. -/
def backing (pool : Pool) (loc : Loc) : Loc :=
  ⟨if pool.cacheMode then pool.ntiers - 1 else loc.dir,loc.rel⟩

def replayInstantiateOne (world : World) (record : ReplayRecord) : Option Inode :=
  match record.chosen <|> record.fallback with
  | none => none
  | some loc =>
    if world.pool.ntiers ≤ loc.dir then none
    else
      let tier := (backing world.pool loc).dir
      (world.names (backing world.pool loc)).map fun file =>
        {Namespace.newInode tier file loc.rel with
          intendedTier := if record.normalized ∨ world.pool.cacheMode then tier else record.intendedTier
          movementState := if world.pool.cacheMode then .placed else record.normalizedState}

/-- For an object without an inode. -/
def recoveryResolveOid (world : World) (log : List PlacementRecord) (entry : Option Loc) (oid : Oid) : Option Inode :=
  (pathIndexRead world.pool.ntiers (replayLoadLog log oid) entry).bind (replayInstantiateOne world)

variable {record : ReplayRecord}

theorem replayNormalize_places :
    (replayNormalize record).chosen = record.chosen ∧ (replayNormalize record).fallback = record.fallback := by
  unfold replayNormalize
  split <;> exact ⟨rfl,rfl⟩

variable {log : List PlacementRecord}

theorem replayLoadLog_places {oid : Oid}
    (loaded : replayLoadLog log oid = some record) : record.chosen = none ∧ record.fallback = none := by
  obtain ⟨last,_,rfl⟩ := Option.map_eq_some_iff.mp loaded
  exact replayNormalize_places

theorem pathIndexRead_place {oid : Oid} {ntiers : Nat} {entry : Option Loc}
    {loc : Loc} (read : pathIndexRead ntiers (replayLoadLog log oid) entry = some record)
    (place : (record.chosen <|> record.fallback) = some loc) : entry = some loc := by
  unfold pathIndexRead at read
  split at read
  · obtain ⟨unchosen,nowhere⟩ := replayLoadLog_places read
    simp [unchosen,nowhere] at place
  split at read
  · obtain ⟨unchosen,nowhere⟩ := replayLoadLog_places read
    simp [unchosen,nowhere] at place
  have empty : ((replayLoadLog log oid).getD .fresh).chosen = none ∧ ((replayLoadLog log oid).getD .fresh).fallback = none := by
    cases loaded : replayLoadLog log oid with
    | none => exact ⟨rfl,rfl⟩
    | some known => exact replayLoadLog_places loaded
  cases read
  rw [empty.1,empty.2] at place
  split at place <;> simpa using place

theorem recoveryResolveOid_spec {world : World} {entry : Option Loc} {oid : Oid} {inode : Inode}
    (resolved : recoveryResolveOid world log entry oid = some inode) :
    ∃ loc, entry = some loc ∧ world.names (backing world.pool loc) = some inode.lowerPath.file ∧
      inode.currentTier = (backing world.pool loc).dir ∧ inode.relPath = some (backing world.pool loc).rel := by
  obtain ⟨record,read,made⟩ := Option.bind_eq_some_iff.mp resolved
  unfold replayInstantiateOne at made
  split at made
  · cases made
  next loc place =>
  split at made
  · cases made
  · obtain ⟨file,named,rfl⟩ := Option.map_eq_some_iff.mp made
    exact ⟨loc,pathIndexRead_place read place,named,rfl,rfl⟩

end Smoothfs.Placement
