import Smoothfs.CutoverSteps
import Smoothfs.Resolve

/-! The movement fields of the inodes in memory: `current_tier`, `intended_tier`,
`movement_state` and `transaction_seq` beside the tier of `lower_path`. They are
written by the movement commands, by the replay of a record when an object is resolved,
by lookups that track an object as placed, by the truncate that rehomes and by the
relower after a forget. -/
namespace Smoothfs.MovementFields
open Movement Namespace Lookup Resolve Run
open CrashRecovery (reachedByName)

structure Fields where
  mnt : Nat
  currentTier : Nat
  intendedTier : Nat
  movementState : MovementState
  transactionSeq : Nat
  deriving DecidableEq, Repr

def fieldsOf (inode : Inode) : Fields :=
  ⟨inode.lowerPath.mnt,inode.currentTier,inode.intendedTier,inode.movementState,inode.transactionSeq⟩

/-- `draining` are the objects whose cutover dropped the inode lock. -/
structure State where
  mount : Mount
  draining : Oid → Bool
  plan : Oid → Option Nat

/-- A command acts on an inode in memory. For an object that is not, it comes after `resolve`, and acts
on the inode to which that leads. -/
inductive Label
  | resolve (fresh oid : Oid)
  | plan (oid : Oid) (destTier seq : Nat) (force : Bool)
  | cutoverBegin (oid : Oid) (seq : Nat)
  | cutoverFinish (oid : Oid) (expected : Option Nat) (fault : CutoverFault)
  | complete (oid : Oid) (seq : Nat) (failure : Option Errno)
  | rollback (oid : Oid) (seq : Nat) (failure : Option Errno)
  | lookup (mask parent : Nat) (rel : RelPath) (fresh gen : Oid)
  | forget (mask : Nat) (oid : Oid) (oldTier : Nat)
  | user (action : Action)
  | lower (names : Loc → Option FileId) (files : FileId → LowerFile)

def acrossTiers (pool : Pool) (mask excluded : Nat) : List Nat :=
  (activeTiers pool mask).filter fun tier => tier ≠ excluded ∧ (pool.cacheMode → tier = pool.ntiers - 1)

def relowerAfterForget (world : World) (mask : Nat) (inode : Inode) (oldTier : Nat) : Option Inode := do
  let rel ← inode.relPath
  let (tier,file) ← reachedByName world (acrossTiers world.pool mask oldTier) rel
  if inode.lowerPath.mnt ≠ oldTier then none
  else some {inode with lowerPath := ⟨tier,file,rel.getLastD ""⟩, currentTier := tier, cutoverGen := inode.cutoverGen + 1}

def waits (world : World) : Action → Bool
  | .write oid _ | .setAttrs oid _ | .truncate oid => (world.inodes oid).any (·.movementState = .cutoverInProgress)
  | _ => false

/-- The object that an action enters into `path_map`, besides a new one. -/
def enters (world : World) : Action → Option Oid
  | .truncate oid => if (world.inodes oid).any (Coherence.rehomes world) then some oid else none
  | .rename oid _ _ => some oid
  | _ => none

def enterPathMap (mount : Mount) (oid : Oid) : Mount :=
  {mount with cache := remember mount.cache oid true}

def State.setWorld (state : State) (world : World) : State :=
  {state with mount := {state.mount with world := world}}

def step (number : Oid → Nat) (state : State) : Label → Option State
  | .resolve fresh oid => some {state with mount := (recoveryResolveOid number state.mount fresh oid).1}
  | .plan oid destTier seq force =>
    match movementPlan state.mount.world oid destTier seq force with
    | (world,.ok ()) => some {state.setWorld world with plan := Function.update state.plan oid (some seq)}
    | (world,.error _) => some (state.setWorld world)
  | .cutoverBegin oid seq =>
    if state.mount.world.pool.quiesced then some state
    else
      match cutoverBegin state.mount.world oid seq with
      | (world,.ok ()) => some {state.setWorld world with draining := Function.update state.draining oid true}
      | (world,.error _) => some (state.setWorld world)
  | .cutoverFinish oid expected fault =>
    if state.draining oid then
      match cutoverFinish state.mount.world oid expected fault with
      | (world,.ok ()) =>
        some {mount := enterPathMap {state.mount with world := world} oid, plan := state.plan,
              draining := Function.update state.draining oid false}
      | (world,.error _) => some {state.setWorld world with draining := Function.update state.draining oid false}
    else none
  | .complete oid seq failure =>
    some (state.setWorld (recordPlaced state.mount.world oid failure (movementComplete state.mount.world oid seq)).1)
  | .rollback oid seq failure =>
    some (state.setWorld (recordPlaced state.mount.world oid failure (movementRollback state.mount.world oid seq)).1)
  | .lookup mask parent rel fresh gen =>
    (Resolve.lookup number state.mount (hasLink state.mount.world) mask parent rel fresh gen).map fun mount => {state with mount := mount}
  | .forget mask oid oldTier =>
    let world := state.mount.world
    match (world.inodes oid).bind fun inode => relowerAfterForget world mask inode oldTier with
    | some inode => some (state.setWorld (world.setInode oid inode))
    | none => some state
  | .user action =>
    if waits state.mount.world action then none
    else
      (userStep state.mount action).map fun mount =>
        {state with mount := (enters state.mount.world action).elim mount (enterPathMap mount)}
  | .lower names files => some (state.setWorld {state.mount.world with names := names, files := files})

def mounted (mount : Mount) : State where
  mount := {mount with world := {mount.world with inodes := fun _ => none}, cache := ⟨[],[]⟩}
  draining := fun _ => false
  plan := fun _ => none

def tracks (number : Oid → Nat) (mount : Mount) (mask parent : Nat) (rel : RelPath) (fresh : Oid) : Option (Oid × Nat) :=
  (reached mount.world mount.cache (hasLink mount.world) mask parent rel).bind fun
    | .lower (tier,file) true => some ((iget number mount.world mount.cache fresh tier file).oid,tier)
    | _ => none

/-- The record leaves the object at rest where it is found, and an inode in memory that is had for it
is over that tier and not in a cutover. -/
def Replays (number : Oid → Nat) (state : State) (fresh : Oid) (record : Placement.ReplayRecord) (place : Loc) (file : FileId) : Prop :=
  let world := state.mount.world
  let oid := (iget number world state.mount.cache fresh place.dir file).oid
  (world.pool.cacheMode ∨ record.normalizedState = .placed ∧ (record.normalized ∨ record.intendedTier = place.dir)) ∧
    ∀ inode ∈ world.inodes oid, inode.lowerPath.mnt = place.dir ∧ state.draining oid = false

instance (number : Oid → Nat) (state : State) (fresh : Oid) (record : Placement.ReplayRecord) (place : Loc) (file : FileId) :
    Decidable (Replays number state fresh record place file) :=
  inferInstanceAs (Decidable (_ ∧ ∀ inode ∈ state.mount.world.inodes _, _))

/-- The replay of a record leaves the object at rest, a lookup tracks an inode only where its
`lower_path` is and not during a cutover, and no object at rest is re-pointed. -/
def Orderly (number : Oid → Nat) (state : State) : Label → Prop
  | .resolve fresh oid => oid ∉ state.mount.cache.incore →
    ∀ entry ∈ recorded state.mount oid, Replays number state fresh entry.1 entry.2.1 entry.2.2
  | .lookup mask parent rel fresh _ =>
    ∀ tracked ∈ tracks number state.mount mask parent rel fresh, ∀ inode ∈ state.mount.world.inodes tracked.1,
      inode.lowerPath.mnt = tracked.2 ∧ state.draining tracked.1 = false
  | .forget mask oid oldTier =>
    ∀ inode ∈ state.mount.world.inodes oid,
      inode.movementState = .placed → relowerAfterForget state.mount.world mask inode oldTier = none
  | _ => True

instance (number : Oid → Nat) (state : State) (label : Label) : Decidable (Orderly number state label) :=
  match label with
  | .resolve fresh oid =>
    inferInstanceAs (Decidable (oid ∉ state.mount.cache.incore →
      ∀ entry ∈ recorded state.mount oid, Replays number state fresh entry.1 entry.2.1 entry.2.2))
  | .lookup mask parent rel fresh _ =>
    inferInstanceAs (Decidable (∀ tracked ∈ tracks number state.mount mask parent rel fresh,
      ∀ inode ∈ state.mount.world.inodes tracked.1, inode.lowerPath.mnt = tracked.2 ∧ state.draining tracked.1 = false))
  | .forget mask oid oldTier =>
    inferInstanceAs (Decidable (∀ inode ∈ state.mount.world.inodes oid,
      inode.movementState = .placed → relowerAfterForget state.mount.world mask inode oldTier = none))
  | .plan _ _ _ _ | .cutoverBegin _ _ | .cutoverFinish _ _ _ | .complete _ _ _ | .rollback _ _ _ | .user _ | .lower _ _ =>
    isTrue trivial

/-- What the fields of an inode say, with no cutover of it in progress. -/
def Consistent (state : State) (oid : Oid) (inode : Inode) : Prop :=
  inode.currentTier = inode.lowerPath.mnt ∧
    (inode.movementState = .placed → inode.intendedTier = inode.currentTier) ∧
    (inode.movementState ≠ .placed → state.plan oid = some inode.transactionSeq ∧
      ∃ after settled, (movementComplete state.mount.world oid inode.transactionSeq = (after,.ok ()) ∨
        movementRollback state.mount.world oid inode.transactionSeq = (after,.ok ())) ∧
        after.inodes oid = some settled ∧ settled.movementState = .placed)

structure Fits (plan : Option Nat) (draining : Bool) (fields : Fields) : Prop where
  placedOn : fields.currentTier = fields.mnt
  settled : fields.movementState = .placed → fields.intendedTier = fields.currentTier ∧ draining = false
  moving : fields.movementState ≠ .placed → plan = some fields.transactionSeq ∧
    (fields.movementState = .cutoverInProgress ∧ draining = true ∨
      (fields.movementState.preCutover = true ∨ fields.movementState = .failed ∨ fields.movementState = .switched) ∧
        draining = false)

structure Kept (state : State) : Prop where
  fits : ∀ oid inode, state.mount.world.inodes oid = some inode → Fits (state.plan oid) (state.draining oid) (fieldsOf inode)
  present : ∀ oid, state.draining oid = true → state.mount.world.inodes oid ≠ none

theorem kept_mounted (mount : Mount) : Kept (mounted mount) := by
  constructor <;> simp [mounted]

section Steps

variable {number : Oid → Nat} {state next : State}

theorem Kept.changed (kept : Kept state) (oid : Oid)
    (others : ∀ other, other ≠ oid → next.mount.world.inodes other = state.mount.world.inodes other ∧
      next.plan other = state.plan other ∧ next.draining other = state.draining other)
    (fits : ∀ inode, next.mount.world.inodes oid = some inode → Fits (next.plan oid) (next.draining oid) (fieldsOf inode))
    (present : next.draining oid = true → next.mount.world.inodes oid ≠ none) : Kept next := by
  constructor
  · intro other inode found
    by_cases same : other = oid
    · subst same
      exact fits inode found
    · obtain ⟨inodes,plan,draining⟩ := others other same
      rw [plan,draining]
      exact kept.fits other inode (inodes ▸ found)
  · intro other drained
    by_cases same : other = oid
    · subst same
      exact present drained
    · obtain ⟨inodes,_,draining⟩ := others other same
      rw [inodes]
      exact kept.present other (draining ▸ drained)

variable {oid : Oid} {inode : Inode}

theorem Kept.setInode (kept : Kept state) (fits : Fits (state.plan oid) (state.draining oid) (fieldsOf inode)) :
    Kept (state.setWorld (state.mount.world.setInode oid inode)) := by
  apply kept.changed oid
  · intro other different
    exact ⟨Function.update_of_ne different _ _,rfl,rfl⟩
  · intro new found
    rw [mem_setInode found]
    exact fits
  · intro _
    simp [State.setWorld,World.setInode]

theorem Kept.inodes (kept : Kept state) (inodes : next.mount.world.inodes = state.mount.world.inodes)
    (plan : next.plan = state.plan) (draining : next.draining = state.draining) : Kept next := by
  constructor
  · rw [inodes,plan,draining]
    exact kept.fits
  · rw [inodes,draining]
    exact kept.present

variable {draining : Bool} {fields : Fields}

theorem Fits.idle {plan : Option Nat} (fits : Fits plan draining fields)
    (other : fields.movementState ≠ .cutoverInProgress) : draining = false := by
  by_cases placed : fields.movementState = .placed
  · exact (fits.settled placed).2
  · exact ((fits.moving placed).2.resolve_left (fun busy => other busy.1)).2

theorem Fits.accepted {plan : Option Nat} (fits : Fits plan draining fields)
    (moves : fields.movementState ≠ .placed) : plan = some fields.transactionSeq :=
  (fits.moving moves).1

theorem fits_placed {plan : Option Nat} (placedOn : fields.currentTier = fields.mnt)
    (placed : fields.movementState = .placed) (intended : fields.intendedTier = fields.currentTier) : Fits plan false fields :=
  ⟨placedOn,fun _ => ⟨intended,rfl⟩,fun moves => absurd placed moves⟩

theorem fits_moving {plan : Option Nat} (placedOn : fields.currentTier = fields.mnt)
    (moves : fields.movementState ≠ .placed) (accepted : plan = some fields.transactionSeq)
    (stage : fields.movementState = .cutoverInProgress ∧ draining = true ∨
      (fields.movementState.preCutover = true ∨ fields.movementState = .failed ∨ fields.movementState = .switched) ∧
        draining = false) : Fits plan draining fields :=
  ⟨placedOn,fun placed => absurd placed moves,fun _ => ⟨accepted,stage⟩⟩

theorem Kept.plan (kept : Kept state) {destTier seq : Nat} {force : Bool}
    (taken : step number state (.plan oid destTier seq force) = some next) : Kept next := by
  obtain ⟨errno,refused⟩ | ⟨inode,found,placed,_,_,_,accepted⟩ := movementPlan_spec state.mount.world oid destTier seq force
  · simp only [step,refused,Option.some.injEq] at taken
    subst taken
    exact kept
  simp only [step,accepted,Option.some.injEq] at taken
  subst taken
  have before := kept.fits oid inode found
  have idle := (before.settled placed).2
  apply kept.changed oid
  · intro other different
    exact ⟨Function.update_of_ne different _ _,Function.update_of_ne different _ _,rfl⟩
  · intro new there
    rw [mem_setInode there]
    exact fits_moving before.placedOn (by simp [fieldsOf]) (Function.update_self ..) (.inr ⟨.inl rfl,idle⟩)
  · intro drained
    exact absurd (idle.symm.trans drained) (by decide)

theorem Kept.begin (kept : Kept state) {seq : Nat} (taken : step number state (.cutoverBegin oid seq) = some next) :
    Kept next := by
  simp only [step] at taken
  split at taken
  · cases taken
    exact kept
  obtain ⟨errno,refused⟩ | ⟨inode,found,early,_,_,marked⟩ := cutoverBegin_spec state.mount.world oid seq
  · simp only [refused,Option.some.injEq] at taken
    subst taken
    exact kept
  simp only [marked,Option.some.injEq] at taken
  subst taken
  have before := kept.fits oid inode found
  have moves : inode.movementState ≠ .placed := by
    intro placed
    simp [placed,MovementState.preCutover] at early
  apply kept.changed oid
  · intro other different
    exact ⟨Function.update_of_ne different _ _,rfl,Function.update_of_ne different _ _⟩
  · intro new there
    rw [mem_setInode there]
    exact fits_moving before.placedOn (by simp [fieldsOf,begun]) (before.accepted moves) (.inl ⟨rfl,Function.update_self ..⟩)
  · intro _
    simp [State.setWorld,World.setInode]

variable {world : World}

theorem cutoverFinish_fields (expected : Option Nat) (fault : CutoverFault)
    (found : world.inodes oid = some inode) (busy : inode.movementState = .cutoverInProgress) :
    ∃ after, (cutoverFinish world oid expected fault).1.inodes = Function.update world.inodes oid (some after) ∧
      after.transactionSeq = inode.transactionSeq ∧
      (after.lowerPath.mnt = inode.lowerPath.mnt ∧ after.currentTier = inode.currentTier ∧
          (after.movementState.preCutover = true ∨ after.movementState = .failed) ∨
        after.currentTier = after.lowerPath.mnt ∧ after.movementState = .switched) := by
  rw [cutoverFinish_begun found busy]
  unfold cutoverEnd
  split
  · exact ⟨_,rfl,rfl,.inl ⟨rfl,rfl,.inl rfl⟩⟩
  · exact ⟨_,rfl,rfl,.inl ⟨rfl,rfl,.inr rfl⟩⟩
  · next stamped _ _ =>
    refine ⟨{inode with movementState := .failed},?_,rfl,.inl ⟨rfl,rfl,.inr rfl⟩⟩
    cases stamped <;> rfl
  · exact ⟨_,rfl,rfl,.inr ⟨rfl,rfl⟩⟩

theorem Kept.finish (kept : Kept state) {expected : Option Nat} {fault : CutoverFault}
    (taken : step number state (.cutoverFinish oid expected fault) = some next) : Kept next := by
  simp only [step,Option.ite_none_right_eq_some] at taken
  obtain ⟨drained,taken⟩ := taken
  obtain ⟨world,draining,plan⟩ : next.mount.world = (cutoverFinish state.mount.world oid expected fault).1 ∧
      next.draining = Function.update state.draining oid false ∧ next.plan = state.plan := by
    split at taken
    · next outcome => cases taken; rw [outcome]; exact ⟨rfl,rfl,rfl⟩
    · next outcome => cases taken; rw [outcome]; exact ⟨rfl,rfl,rfl⟩
  obtain ⟨inode,found⟩ := Option.ne_none_iff_exists'.mp (kept.present oid drained)
  have before := kept.fits oid inode found
  have moves : inode.movementState ≠ .placed := fun placed => by
    exact absurd ((before.settled placed).2.symm.trans drained) (by decide)
  have busy : inode.movementState = .cutoverInProgress := by
    obtain busy | idle := (before.moving moves).2
    · exact busy.1
    · exact absurd (idle.2.symm.trans drained) (by decide)
  obtain ⟨after,inodes,number,fields⟩ := cutoverFinish_fields expected fault found busy
  apply kept.changed oid
  · intro other different
    simp [world,draining,plan,inodes,different]
  · intro new there
    simp only [world,inodes,Function.update_self,Option.some.injEq] at there
    subst there
    simp only [draining,plan,Function.update_self]
    have accepted : state.plan oid = some after.transactionSeq := by
      rw [number]
      exact before.accepted moves
    obtain ⟨mnt,current,ended⟩ | ⟨placedOn,switched⟩ := fields
    · refine fits_moving ?_ ?_ accepted (.inr ⟨ended.imp_right .inl,rfl⟩)
      · exact current.trans (before.placedOn.trans mnt.symm)
      · intro placed
        have placed : after.movementState = .placed := placed
        simp [placed,MovementState.preCutover] at ended
    · refine fits_moving placedOn ?_ accepted (.inr ⟨.inr (.inr switched),rfl⟩)
      simp [fieldsOf,switched]
  · simp [draining]

theorem Kept.settle (kept : Kept state) {failure : Option Errno} {result : World × Except Errno Unit}
    (spec : result.1 = state.mount.world ∨ ∃ inode, state.mount.world.inodes oid = some inode ∧
      inode.movementState ≠ .cutoverInProgress ∧
      result.1 = state.mount.world.setInode oid {inode with movementState := .placed, intendedTier := inode.currentTier}) :
    Kept (state.setWorld (recordPlaced state.mount.world oid failure result).1) := by
  obtain whole | ⟨errno,failed⟩ := recordPlaced_spec state.mount.world oid failure result
  swap
  · rw [failed]
    exact kept
  rw [whole]
  obtain unchanged | ⟨inode,found,idle,settled⟩ := spec
  · rw [unchanged]
    exact kept
  rw [settled]
  have before := kept.fits oid inode found
  apply kept.setInode
  rw [before.idle idle]
  exact fits_placed before.placedOn rfl rfl

theorem Kept.idle_absent (kept : Kept state) (absent : state.mount.world.inodes oid = none) : state.draining oid = false := by
  cases drained : state.draining oid with
  | false => rfl
  | true => exact absurd absent (kept.present oid drained)

theorem Kept.resolve (kept : Kept state) {fresh oid : Oid} (orderly : Orderly number state (.resolve fresh oid)) :
    Kept {state with mount := (recoveryResolveOid number state.mount fresh oid).1} := by
  unfold recoveryResolveOid
  split
  · exact kept
  next cold =>
  split
  · exact kept
  next record place file entry =>
  obtain ⟨rests,idle⟩ := orderly cold _ entry
  have fits : Fits (state.plan (iget number state.mount.world state.mount.cache fresh place.dir file).oid)
      (state.draining (iget number state.mount.world state.mount.cache fresh place.dir file).oid)
      (fieldsOf (replayedInode state.mount.world.pool record place
        ((state.mount.world.inodes (iget number state.mount.world state.mount.cache fresh place.dir file).oid).getD
          (newInode place.dir file place.rel)))) := by
    have placed : (if state.mount.world.pool.cacheMode then MovementState.placed else record.normalizedState) = .placed := by
      split
      · rfl
      next tiered => exact (rests.resolve_left tiered).1
    have intended : (if record.normalized ∨ state.mount.world.pool.cacheMode then place.dir else record.intendedTier) = place.dir := by
      split
      · rfl
      next apart => exact (rests.resolve_left fun cached => apart (.inr cached)).2.resolve_left fun normal => apart (.inl normal)
    cases known : state.mount.world.inodes (iget number state.mount.world state.mount.cache fresh place.dir file).oid with
    | some inode =>
      obtain ⟨on,still⟩ := idle inode known
      rw [still]
      exact fits_placed on.symm placed intended
    | none =>
      rw [kept.idle_absent known]
      exact fits_placed rfl placed intended
  exact (kept.setInode fits).inodes (by simp [instantiate,World.setInode,identified_inodes,State.setWorld]) rfl rfl

variable {mask parent : Nat} {rel : RelPath} {fresh : Oid}

theorem Kept.lookup (kept : Kept state) {gen : Oid} (orderly : Orderly number state (.lookup mask parent rel fresh gen))
    (taken : step number state (.lookup mask parent rel fresh gen) = some next) : Kept next := by
  obtain ⟨after,looked,rfl⟩ := Option.map_eq_some_iff.mp taken
  obtain ⟨place,there,rfl⟩ := Option.map_eq_some_iff.mp looked
  cases place with
  | known known => exact kept
  | lower place tracked =>
    obtain ⟨tier,file⟩ := place
    refine (kept.setInode ?_).inodes (by simp [World.setInode,identified_inodes,State.setWorld]; rfl) rfl rfl
    cases known : state.mount.world.inodes (iget number state.mount.world state.mount.cache fresh tier file).oid with
    | none =>
      rw [kept.idle_absent known]
      cases tracked <;> exact fits_placed rfl rfl rfl
    | some inode =>
      cases tracked with
      | false => exact kept.fits _ inode known
      | true =>
        obtain ⟨on,idle⟩ := orderly (_,tier) (by rw [tracks,there]; rfl) inode known
        rw [idle]
        exact fits_placed on.symm rfl rfl

variable {oldTier : Nat}

theorem relower_spec {after : Inode} (relowered : relowerAfterForget world mask inode oldTier = some after) :
    after.currentTier = after.lowerPath.mnt ∧ after.intendedTier = inode.intendedTier ∧
      after.movementState = inode.movementState ∧ after.transactionSeq = inode.transactionSeq := by
  obtain ⟨rel,_,relowered⟩ := Option.bind_eq_some_iff.mp relowered
  obtain ⟨copy,_,relowered⟩ := Option.bind_eq_some_iff.mp relowered
  dsimp only at relowered
  split at relowered
  · cases relowered
  · cases relowered
    exact ⟨rfl,rfl,rfl,rfl⟩

theorem Kept.forget (kept : Kept state) (orderly : Orderly number state (.forget mask oid oldTier))
    (taken : step number state (.forget mask oid oldTier) = some next) : Kept next := by
  simp only [step] at taken
  split at taken
  · next after pointed =>
    cases taken
    obtain ⟨inode,found,relowered⟩ := Option.bind_eq_some_iff.mp pointed
    obtain ⟨placedOn,_,movement,number⟩ := relower_spec relowered
    have before := kept.fits oid inode found
    have moves : inode.movementState ≠ .placed := by
      intro placed
      rw [orderly inode found placed] at relowered
      cases relowered
    obtain ⟨accepted,stage⟩ := before.moving moves
    apply kept.setInode
    refine fits_moving placedOn ?_ ?_ ?_
    · simpa [fieldsOf,movement] using moves
    · simpa [fieldsOf,number] using accepted
    · simpa [fieldsOf,movement] using stage
  · cases taken
    exact kept

def Resting (inode : Inode) : Prop :=
  inode.currentTier = inode.lowerPath.mnt ∧ inode.movementState = .placed ∧ inode.intendedTier = inode.currentTier

def Steady (world after : World) (rehomed : Oid → Prop) (oid : Oid) : Prop :=
  after.inodes oid = world.inodes oid ∨ ∃ later, after.inodes oid = some later ∧
    ((∃ inode, world.inodes oid = some inode ∧ fieldsOf later = fieldsOf inode) ∨
      Resting later ∧ (world.inodes oid = none ∨ rehomed oid))

variable {rehomed : Oid → Prop}

theorem steady_setInode {base : World} (same : base.inodes = world.inodes)
    (fits : (∃ before, world.inodes oid = some before ∧ fieldsOf inode = fieldsOf before) ∨
      Resting inode ∧ (world.inodes oid = none ∨ rehomed oid)) (other : Oid) :
    Steady world (base.setInode oid inode) rehomed other := by
  by_cases self : other = oid
  · subst self
    exact .inr ⟨inode,Function.update_self ..,fits⟩
  · refine .inl ?_
    rw [World.setInode_inodes,if_neg self,same]

theorem Steady.replaced {lower : World} {mnt : Nat} {target : RelPath} {replaced : Oid}
    {victim : Inode} {other : Oid} (steady : Steady world lower rehomed other) (known : world.inodes replaced = some victim) :
    Steady world (dropReplaced lower mnt target replaced victim) rehomed other := by
  have dropped : ∃ gone, fieldsOf gone = fieldsOf victim ∧
      (dropReplaced lower mnt target replaced victim).inodes = Function.update lower.inodes replaced (some gone) := by
    unfold dropReplaced
    split
    · exact ⟨{victim with linked := false},rfl,rfl⟩
    · exact ⟨{victim with linked := false, relPath := none},rfl,rfl⟩
  obtain ⟨gone,same,inodes⟩ := dropped
  unfold Steady
  rw [inodes]
  by_cases self : other = replaced
  · subst self
    exact .inr ⟨gone,Function.update_self ..,.inl ⟨victim,known,same⟩⟩
  · rw [Function.update_of_ne self]
    exact steady

variable {action : Action}

theorem act_steady {after : World} (acted : act world action = some after) (oid : Oid) :
    Steady world after (fun other => action = .truncate other) oid := by
  cases action with
  | create other tier rel mode =>
    obtain ⟨_,absent,_,rfl⟩ := create_spec world after acted
    apply steady_setInode rfl
    exact .inr ⟨⟨rfl,rfl,rfl⟩,.inl absent⟩
  | write other content =>
    obtain ⟨inode,found,rfl⟩ := Option.map_eq_some_iff.mp acted
    apply steady_setInode rfl
    exact .inl ⟨inode,found,rfl⟩
  | setAttrs other attrs =>
    obtain ⟨inode,_,rfl⟩ := Option.map_eq_some_iff.mp acted
    exact .inl rfl
  | truncate other =>
    rcases truncate_spec world after acted with written | ⟨inode,rel,found,_,_,staged⟩
    · obtain ⟨inode,found,rfl⟩ := Option.map_eq_some_iff.mp written
      apply steady_setInode rfl
      exact .inl ⟨inode,found,rfl⟩
    rcases stage_spec world after rel staged with ⟨_,_,_,_,rfl⟩ | ⟨_,_,_,rfl⟩
    · apply steady_setInode rfl
      exact .inr ⟨⟨rfl,rfl,rfl⟩,.inr rfl⟩
    · apply steady_setInode rfl
      exact .inr ⟨⟨rfl,rfl,rfl⟩,.inr rfl⟩
  | rename other target replaced =>
    obtain ⟨inode,source,found,_,_,_,result⟩ := rename_spec world after other target replaced acted
    have lower : Steady world (renameLower world other inode source target)
        (fun victim => Action.rename other target replaced = .truncate victim) oid := by
      apply steady_setInode rfl
      exact .inl ⟨inode,found,rfl⟩
    obtain ⟨_,rfl⟩ | ⟨gone,victim,_,known,_,_,_,rfl⟩ := result
    · exact lower
    · exact lower.replaced known
  | unlink other =>
    obtain ⟨inode,rel,found,_,_,rfl⟩ := unlink_spec world after other acted
    apply steady_setInode rfl
    exact .inl ⟨inode,found,rfl⟩
  | tick =>
    cases acted
    exact .inl rfl

theorem userStep_world {after : Mount} (acted : userStep mount action = some after) :
    act mount.world action = some after.world := by
  obtain ⟨world,performed,rfl⟩ := Option.map_eq_some_iff.mp acted
  cases action <;> exact performed

theorem Kept.user (kept : Kept state) (taken : step number state (.user action) = some next) : Kept next := by
  simp only [step] at taken
  split at taken
  · cases taken
  next free =>
  obtain ⟨after,acted,rfl⟩ := Option.map_eq_some_iff.mp taken
  have steady (oid : Oid) := act_steady (userStep_world acted) oid
  suffices same : Kept {state with mount := after} by
    refine same.inodes ?_ rfl rfl
    cases enters state.mount.world action <;> rfl
  constructor
  · intro oid later found
    obtain same | ⟨new,there,⟨inode,known,fields⟩ | ⟨resting,cause⟩⟩ := steady oid
    · exact kept.fits oid later (same ▸ found)
    · cases there.symm.trans found
      rw [fields]
      exact kept.fits oid inode known
    cases there.symm.trans found
    have idle : state.draining oid = false := by
      cases known : state.mount.world.inodes oid with
      | none => exact kept.idle_absent known
      | some inode =>
        obtain absent | rfl := cause
        · cases known.symm.trans absent
        · refine (kept.fits oid inode known).idle ?_
          simpa [waits,known,fieldsOf] using free
    show Fits (state.plan oid) (state.draining oid) (fieldsOf later)
    rw [idle]
    exact fits_placed resting.1 resting.2.1 resting.2.2
  · intro oid drained
    obtain same | ⟨new,there,_⟩ := steady oid
    · rw [show after.world.inodes oid = _ from same]
      exact kept.present oid drained
    · simp [there]

theorem Kept.step (kept : Kept state) (label : Label) (orderly : Orderly number state label)
    (taken : step number state label = some next) : Kept next := by
  cases label with
  | resolve fresh oid =>
    cases taken
    exact kept.resolve orderly
  | plan oid destTier seq force => exact kept.plan taken
  | cutoverBegin oid seq => exact kept.begin taken
  | cutoverFinish oid expected fault => exact kept.finish taken
  | complete oid seq failure =>
    cases taken
    apply kept.settle
    obtain same | ⟨inode,found,switched,_,settled⟩ := settle_spec state.mount.world oid seq (· = .switched)
    · exact .inl same
    · exact .inr ⟨inode,found,by simp [switched],congrArg Prod.fst settled⟩
  | rollback oid seq failure =>
    cases taken
    apply kept.settle
    obtain same | ⟨inode,found,early,_,settled⟩ :=
      settle_spec state.mount.world oid seq (fun movement => movement.preCutover = true ∨ movement = .failed)
    · exact .inl same
    · refine .inr ⟨inode,found,?_,congrArg Prod.fst settled⟩
      intro busy
      simp [busy,MovementState.preCutover] at early
  | lookup mask parent rel fresh gen => exact kept.lookup orderly taken
  | forget mask oid oldTier => exact kept.forget orderly taken
  | user action => exact kept.user taken
  | lower names files =>
    cases taken
    exact kept.inodes rfl rfl rfl

theorem Fits.consistent (found : state.mount.world.inodes oid = some inode)
    (fits : Fits (state.plan oid) false (fieldsOf inode)) : Consistent state oid inode := by
  refine ⟨fits.placedOn,fun placed => (fits.settled placed).1,fun moves => ⟨fits.accepted moves,?_⟩⟩
  let settled : Inode := {inode with movementState := .placed, intendedTier := inode.currentTier}
  refine ⟨state.mount.world.setInode oid settled,settled,?_,Function.update_self ..,rfl⟩
  have stage := ((fits.moving moves).2.resolve_left (fun busy => by cases busy.2)).1
  by_cases switched : inode.movementState = .switched
  · exact .inl (settle_leaves _ found moves switched)
  have early : inode.movementState.preCutover = true ∨ inode.movementState = .failed :=
    stage.imp_right (fun last => last.resolve_right switched)
  exact .inr (settle_leaves _ found moves early)

end Steps

/-- In every state the fields of an inode are consistent, unless a cutover of it is in
progress. -/
theorem movement_fields_consistent (number : Oid → Nat) (mount : Mount) (labels : List Label) (final : State)
    (orderly : Guarded (step number) (Orderly number) (mounted mount) labels)
    (reached : run (step number) (mounted mount) labels = some final) (oid : Oid) (inode : Inode)
    (found : final.mount.world.inodes oid = some inode) (idle : final.draining oid = false) : Consistent final oid inode := by
  have kept : Kept final :=
    invariant (step number) (Orderly number) Kept (fun state label next kept met taken => kept.step label met taken) _ _ _
      (kept_mounted mount) orderly reached
  have fits := kept.fits oid inode found
  rw [idle] at fits
  exact fits.consistent found

def standing (tiers : List Nat) : Loc → Option FileId :=
  fun loc => if loc.rel = ["f"] ∧ loc.dir ∈ tiers then some loc.dir else none

def carried : FileId → LowerFile :=
  fun _ => ⟨true,[],⟨0o600,0,[]⟩,some 7,false,7⟩

def onFirst : Mount :=
  {emptyMount ⟨2,0,false,false,false,false⟩ 0 0 with
    world := {(emptyMount ⟨2,0,false,false,false,false⟩ 0 0).world with names := standing [0], files := carried, nextFile := 2}}

def moveAndForget : List Label :=
  [.lookup 3 0 ["f"] 9 0,.plan 7 1 5 false,.lower (standing [0,1]) carried,.cutoverBegin 7 5,.cutoverFinish 7 none .drainTimeout,
    .rollback 7 4 none,.cutoverBegin 7 5,.cutoverFinish 7 (some 0) .none,.lower (standing [1]) carried,.forget 3 7 0,
    .lookup 3 0 ["f"] 9 0]

theorem move_and_forget_consistent : Guarded (step id) (Orderly id) (mounted onFirst) moveAndForget ∧
    ∃ final inode, run (step id) (mounted onFirst) moveAndForget = some final ∧ final.mount.world.inodes 7 = some inode ∧
      inode.movementState = .switched ∧ Consistent final 7 inode := by
  have orderly : Guarded (step id) (Orderly id) (mounted onFirst) moveAndForget := by decide +kernel
  have shape : ∃ final, run (step id) (mounted onFirst) moveAndForget = some final ∧ final.draining 7 = false ∧
      (final.mount.world.inodes 7).map (·.movementState) = some .switched := reaches (by decide +kernel)
  obtain ⟨final,reached,idle,state⟩ := shape
  obtain ⟨inode,found,switched⟩ := Option.map_eq_some_iff.mp state
  exact ⟨orderly,final,inode,reached,found,switched,
    movement_fields_consistent id onFirst moveAndForget final orderly reached 7 inode found idle⟩

/-- A file that was moved behind the kernel's back and forgotten, and a lookup during its next
drain. -/
theorem forgotten_object_inconsistent :
    (∃ final, run (step id) (mounted onFirst) [.lookup 3 0 ["f"] 9 0,.lower (standing [1]) carried,.forget 3 7 0] = some final ∧
      final.draining 7 = false ∧ (final.mount.world.inodes 7).map fieldsOf = some ⟨1,1,0,.placed,0⟩) ∧
    ∃ final, run (step id) (mounted onFirst)
      [.lookup 3 0 ["f"] 9 0,.lower (standing [1]) carried,.forget 3 7 0,.plan 7 0 5 false,.cutoverBegin 7 5,
        .lookup 3 0 ["f"] 9 0,.cutoverFinish 7 none .none,.rollback 7 5 none] = some final ∧ final.draining 7 = false ∧
      final.plan 7 = some 5 ∧ (final.mount.world.inodes 7).map fieldsOf = some ⟨1,1,1,.copyVerified,0⟩ :=
  ⟨reaches (by decide +kernel),reaches (by decide +kernel)⟩

end Smoothfs.MovementFields
