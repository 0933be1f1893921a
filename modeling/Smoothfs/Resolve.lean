import Smoothfs.Lookup

/-! Resolution of an object by its identity, through the recovery index that a mount
made of the placement log and the path index. The index leads to a path, and the
inode that is taken is that of whatever file stands there now. -/
namespace Smoothfs.Resolve

open Namespace Control Placement Lookup Run Function
open CrashRecovery (reachedByName)

/-- The inodes of `world` are those in memory, `gens` holds their `gen`, and `records` is the
recovery index. -/
structure Mount where
  world : World
  cache : Cache
  gens : Oid → Nat
  log : List PlacementRecord
  index : Oid → Option Loc
  records : Oid → Option ReplayRecord

def recorded (mount : Mount) (oid : Oid) : Option (ReplayRecord × Loc × FileId) := do
  let record ← mount.records oid
  let loc ← (record.chosen <|> record.fallback).filter (·.dir < mount.world.pool.ntiers)
  let file ← mount.world.names (backing mount.world.pool loc)
  some (record,backing mount.world.pool loc,file)

def remember (cache : Cache) (oid : Oid) (keyed : Bool) : Cache :=
  ⟨cache.incore.insert oid,if keyed then cache.keyed.insert oid else cache.keyed⟩

def identified (world : World) (found : Found) (file : FileId) (fresh : Oid) : World :=
  if found.minted then Movement.stamp world file fresh else world

def replayedInode (pool : Pool) (record : ReplayRecord) (place : Loc) (inode : Inode) : Inode :=
  {inode with
    relPath := some place.rel
    currentTier := place.dir
    intendedTier := if record.normalized ∨ pool.cacheMode then place.dir else record.intendedTier
    movementState := if pool.cacheMode then .placed else record.normalizedState
    pinState := .none
    transactionSeq := if record.normalized then 0 else inode.transactionSeq}

def instantiate (number : Oid → Nat) (mount : Mount) (fresh oid : Oid) (record : ReplayRecord) (place : Loc) (file : FileId) :
    Mount × Oid :=
  let found := iget number mount.world mount.cache fresh place.dir file
  let inode := (mount.world.inodes found.oid).getD (newInode place.dir file place.rel)
  ({mount with
    world := (identified mount.world found file fresh).setInode found.oid (replayedInode mount.world.pool record place inode)
    cache := remember mount.cache found.oid true
    gens := update mount.gens found.oid 0
    log := if record.normalized then mount.log ++ [⟨oid,.placed,place.dir,place.dir⟩] else mount.log},found.oid)

/-- With the identity of the inode it returns. -/
def recoveryResolveOid (number : Oid → Nat) (mount : Mount) (fresh oid : Oid) : Mount × Option Oid :=
  if oid ∈ mount.cache.incore then (mount,some oid)
  else
    match recorded mount oid with
    | none => (mount,none)
    | some (record,place,file) =>
      let (after,found) := instantiate number mount fresh oid record place file
      (after,some found)

def placedInode (rel : RelPath) (tier : Nat) (inode : Inode) : Inode :=
  {inode with
    relPath := some rel
    currentTier := tier
    intendedTier := tier
    movementState := .placed
    transactionSeq := 0}

/-- Nothing here renames a directory: a lower file has a link while it stands at the recorded path. -/
def hasLink (world : World) (oid : Oid) : Bool :=
  (world.inodes oid).any fun inode => inode.relPath.any fun rel =>
    world.names ⟨inode.lowerPath.mnt,rel⟩ = some inode.lowerPath.file

/-- `gen` is what the attribute of the lower file says. An inode that `path_map` leads to stays as
it is. -/
def lookup (number : Oid → Nat) (mount : Mount) (live : Oid → Bool) (mask parent : Nat) (rel : RelPath) (fresh gen : Oid) :
    Option Mount :=
  (reached mount.world mount.cache live mask parent rel).map fun
    | .known _ => mount
    | .lower (tier,file) tracked =>
      let found := iget number mount.world mount.cache fresh tier file
      let inode := (mount.world.inodes found.oid).getD (newInode tier file rel)
      {mount with
        world := (identified mount.world found file fresh).setInode found.oid (if tracked then placedInode rel tier inode else inode)
        cache := remember mount.cache found.oid tracked
        gens := if found.oid ∈ mount.cache.incore then mount.gens else update mount.gens found.oid gen
        log := if tracked then mount.log ++ [⟨found.oid,.placed,tier,tier⟩] else mount.log}

def scanName (found : World × (Oid → Option ReplayRecord)) (visit : Loc × Oid) : World × (Oid → Option ReplayRecord) :=
  let (world,records) := found
  match world.names visit.1 with
  | none => found
  | some file =>
    match (world.files file).oid with
    | some oid => (world,update records oid (some (scanNode (records oid) visit.1)))
    | none => (Movement.stamp world file visit.2,update records visit.2 (some (scanNode (records visit.2) visit.1)))

def rebuild (mount : Mount) (visits : List (Loc × Oid)) : Mount :=
  let (world,records) := visits.foldl scanName (mount.world,replayLoadLog mount.log)
  {mount with world := world, index := fun oid => (records oid).bind (·.chosen)}

/-- Nothing is in memory, of the log `kept` records are left, and the recovery index
is made of the log and the path index. -/
def remount (mount : Mount) (kept : Nat) : Mount :=
  {mount with
    world := {mount.world with inodes := fun _ => none}
    cache := ⟨[],[]⟩
    log := mount.log.take kept
    records := fun oid => pathIndexRead mount.world.pool.ntiers (replayLoadLog (mount.log.take kept) oid) (mount.index oid)}

def evict (mount : Mount) (oid : Oid) : Mount :=
  {mount with
    world := {mount.world with inodes := update mount.world.inodes oid none}
    cache := ⟨mount.cache.incore.erase oid,mount.cache.keyed.erase oid⟩}

inductive Label
  | user (action : Action)
  | control (op : Op) (outcome : Outcome)
  | lookup (mask parent : Nat) (rel : RelPath) (fresh gen : Oid)
  | resolve (oid fresh : Oid)
  | evict (oid : Oid)
  | rebuild (visits : List (Loc × Oid))
  | remount (kept : Nat)
  deriving DecidableEq, Repr

def userRecords (world : World) : Action → List PlacementRecord
  | .truncate oid =>
    if (world.inodes oid).any (Coherence.rehomes world) then [⟨oid,.placed,world.pool.fastestTier,world.pool.fastestTier⟩] else []
  | _ => []

def userStep (mount : Mount) (action : Action) : Option Mount :=
  (act mount.world action).map fun world =>
    let after := {mount with world := world, log := mount.log ++ userRecords mount.world action}
    match action with
    | .create oid _ _ _ => {after with cache := remember mount.cache oid true, gens := update mount.gens oid 0}
    | _ => after

def moved : Op → Option Oid
  | .movePlan oid _ _ | .moveCutover oid _ _ | .moveComplete oid _ | .moveRollback oid _ => some oid
  | _ => none

def controlStep (mount : Mount) (op : Op) (outcome : Outcome) : Option Mount :=
  (perform mount.world op outcome).map fun result =>
    let records := match outcome with
      | .failed _ => []
      | _ => (moved op).elim [] fun oid => placementRecords mount.world result.1 oid op
    {mount with world := result.1, log := mount.log ++ records}

def step (number : Oid → Nat) (mount : Mount) : Label → Option Mount
  | .user action => userStep mount action
  | .control (.lookupObject _ _) _ => none
  | .control op outcome => controlStep mount op outcome
  | .lookup mask parent rel fresh gen => lookup number mount (hasLink mount.world) mask parent rel fresh gen
  | .resolve oid fresh => some (recoveryResolveOid number mount fresh oid).1
  | .evict oid => some (evict mount oid)
  | .rebuild visits => some (rebuild mount visits)
  | .remount kept => some (remount mount kept)

def emptyMount (pool : Pool) (umask clock : Nat) : Mount where
  world := (StagingDrain.emptyPool pool umask clock).world
  cache := ⟨[],[]⟩
  gens := fun _ => 0
  log := []
  index := fun _ => none
  records := fun _ => none

/-- The object itself is returned or none, and no other object's inode changes. -/
structure Own (oid : Oid) (mount : Mount) (result : Mount × Option Oid) : Prop where
  returned : result.2 = none ∨ result.2 = some oid
  inodes : ∀ other, other ≠ oid → result.1.world.inodes other = mount.world.inodes other
  gens : ∀ other, other ≠ oid → result.1.gens other = mount.gens other

/-- It carries the object's identity and backs no inode in memory, and none in memory has the
object's inode number. -/
structure Identifies (number : Oid → Nat) (world : World) (cache : Cache) (oid : Oid) (tier : Nat) (file : FileId) : Prop where
  unused : ∀ known ∈ held world cache.incore, ¬ (known.2.lowerPath.mnt = tier ∧ known.2.lowerPath.file = file)
  carries : (world.files file).oid = some oid
  numbered : ∀ known ∈ held world cache.incore, number known.1 ≠ number oid

section Identity

variable {cache : Cache} {oid : Oid}

variable (number : Oid → Nat) (world : World)

theorem igetLocked_own_iff (absent : oid ∉ cache.incore) (made : Found) : (igetLocked number world cache made).oid = oid ↔
      made.oid = oid ∧ ∀ known ∈ held world cache.incore, number known.1 ≠ number oid := by
  unfold igetLocked
  split
  next other inode chosen =>
    have member := List.mem_of_find?_eq_some chosen
    have same := List.find?_some chosen
    constructor
    · rintro rfl
      exact absurd (mem_held member).1 absent
    · rintro ⟨rfl,numbered⟩
      exact absurd (of_decide_eq_true same) (numbered _ member)
  next none_ =>
  rw [List.find?_eq_none] at none_
  constructor
  · rintro rfl
    exact ⟨rfl,fun known member => by simpa using none_ known member⟩
  · exact And.left

theorem iget_own_iff (absent : oid ∉ cache.incore) {fresh : Oid} (new : fresh ≠ oid) (tier : Nat) (file : FileId) :
    (iget number world cache fresh tier file).oid = oid ↔ Identifies number world cache oid tier file := by
  unfold iget
  split
  next other inode chosen =>
    have member := List.mem_of_find?_eq_some chosen
    have same := List.find?_some chosen
    constructor
    · rintro rfl
      exact absurd (mem_held member).1 absent
    · intro identifies
      exact absurd (of_decide_eq_true same) (identifies.unused _ member)
  next unused =>
  rw [List.find?_eq_none] at unused
  unfold igetIdentity
  split
  next name carried =>
    rw [igetLocked_own_iff number world absent]
    constructor
    · rintro ⟨rfl,numbered⟩
      exact ⟨fun known member => by simpa using unused known member,carried,numbered⟩
    · intro identifies
      exact ⟨Option.some.inj (carried.symm.trans identifies.carries),identifies.numbered⟩
  next bare =>
  rw [igetLocked_own_iff number world absent]
  constructor
  · intro ⟨same,_⟩
    exact absurd same new
  · intro identifies
    cases bare.symm.trans identifies.carries

variable {number world} in
theorem Identifies.iget {tier : Nat} {file : FileId} (identifies : Identifies number world cache oid tier file) (fresh : Oid) :
    iget number world cache fresh tier file = ⟨oid,tier,file,false⟩ := by
  have unused : (held world cache.incore).find?
      (fun known => known.2.lowerPath.mnt = tier ∧ known.2.lowerPath.file = file) = none := by
    simpa [List.find?_eq_none] using identifies.unused
  have numbered : (held world cache.incore).find? (fun known => number known.1 = number oid) = none := by
    simpa [List.find?_eq_none] using identifies.numbered
  simp only [Lookup.iget,unused,igetIdentity,identifies.carries,igetLocked,numbered]

end Identity

theorem recorded_named {mount : Mount} {oid : Oid} {record : ReplayRecord} {place : Loc} {file : FileId}
    (led : recorded mount oid = some (record,place,file)) :
    mount.records oid = some record ∧ mount.world.names place = some file := by
  obtain ⟨known,there,led⟩ := Option.bind_eq_some_iff.mp led
  obtain ⟨loc,_,led⟩ := Option.bind_eq_some_iff.mp led
  obtain ⟨target,named,same⟩ := Option.bind_eq_some_iff.mp led
  cases same
  exact ⟨there,named⟩

variable (world : World) (found : Found) (file : FileId) (fresh : Oid)

theorem identified_inodes : (identified world found file fresh).inodes = world.inodes := by
  unfold identified
  split <;> rfl

theorem identified_names : (identified world found file fresh).names = world.names := by
  unfold identified
  split <;> rfl

theorem instantiate_own {number : Oid → Nat} {mount after : Mount} {fresh oid result : Oid} {record : ReplayRecord} {place : Loc}
    {file : FileId} (made : instantiate number mount fresh oid record place file = (after,result))
    (same : (iget number mount.world mount.cache fresh place.dir file).oid = oid) : Own oid mount (after,some result) := by
  cases made
  refine ⟨.inr (congrArg some same),?_,?_⟩
  · intro other different
    rw [same,World.setInode_inodes,if_neg different,identified_inodes]
  · intro other different
    dsimp only
    rw [same,update_of_ne different]

/-- Resolution returns the object or none exactly when the object is in memory, or its record leads
to no file, or the file there is the object's. -/
theorem resolve_own_iff (number : Oid → Nat) (mount : Mount) (fresh oid : Oid) (new : fresh ≠ oid) :
    Own oid mount (recoveryResolveOid number mount fresh oid) ↔
      oid ∈ mount.cache.incore ∨ ∀ record place file, recorded mount oid = some (record,place,file) →
        Identifies number mount.world mount.cache oid place.dir file := by
  have still (result : Option Oid) (returned : result = none ∨ result = some oid) : Own oid mount (mount,result) :=
    ⟨returned,fun _ _ => rfl,fun _ _ => rfl⟩
  unfold recoveryResolveOid
  split
  next present => simp [present,still]
  next absent =>
  cases led : recorded mount oid with
  | none => simp [still]
  | some target =>
    obtain ⟨record,place,file⟩ := target
    have identity := iget_own_iff number mount.world absent new place.dir file
    constructor
    · intro own
      refine .inr ?_
      rintro _ _ _ ⟨⟩
      rw [← identity]
      simpa [instantiate] using own.returned
    · intro holds
      have identifies := holds.resolve_left absent record place file rfl
      exact instantiate_own rfl (identity.mpr identifies)

def indexed : List Label :=
  [.user (.create 1 0 ["a"] 0o600),.rebuild [(⟨0,["a"]⟩,9)],.user (.create 2 0 ["b"] 0o600),.remount 0]

theorem indexed_resolved : ∃ mount, run (step id) (emptyMount StagingDrain.twoTierPool 0 0) indexed = some mount ∧
    (recorded mount 1).isSome = true ∧ Own 1 mount (recoveryResolveOid id mount 9 1) := by
  have outcome : (run (step id) (emptyMount StagingDrain.twoTierPool 0 0) indexed).map (fun mount =>
      ((recorded mount 1).map Prod.snd,mount.cache.incore,(mount.world.files 0).oid)) = some (some (⟨0,["a"]⟩,0),[],some 1) := by
    decide +kernel
  obtain ⟨mount,reached,facts⟩ := Option.map_eq_some_iff.mp outcome
  simp only [Prod.mk.injEq] at facts
  obtain ⟨led,nothing,carries⟩ := facts
  refine ⟨mount,reached,?_,(resolve_own_iff id mount 9 1 (by decide)).mpr (.inr ?_)⟩
  · cases there : recorded mount 1 with
    | none => simp [there] at led
    | some target => rfl
  · intro record place file there
    simp only [there,Option.map_some,Option.some.injEq,Prod.mk.injEq] at led
    obtain ⟨rfl,rfl⟩ := led
    exact ⟨by simp [held,nothing],carries,by simp [held,nothing]⟩

def reused : List Label :=
  [.user (.create 1 0 ["a"] 0o600),.rebuild [(⟨0,["a"]⟩,9)],.user (.unlink 1),.user (.create 2 0 ["a"] 0o600),.remount 0,
    .lookup 3 0 ["a"] 9 0,.control (.movePlan 2 1 5) .done]

theorem reused_name_resolved : ∃ mount, run (step id) (emptyMount StagingDrain.twoTierPool 0 0) reused = some mount ∧
    (recoveryResolveOid id mount 9 1).2 = some 2 ∧
    (mount.world.inodes 2).map (fun inode => (inode.movementState,inode.intendedTier)) = some (.planAccepted,1) ∧
    ((recoveryResolveOid id mount 9 1).1.world.inodes 2).map (fun inode => (inode.movementState,inode.intendedTier)) =
      some (.placed,0) :=
  ⟨_,rfl,by decide +kernel,by decide +kernel,by decide +kernel⟩

end Smoothfs.Resolve
