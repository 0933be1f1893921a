import Smoothfs.Library.Run
import Smoothfs.CutoverSteps
import Smoothfs.Resolve

/-! What the answers of MOVE_COMPLETE and MOVE_ROLLBACK say about a plan. The
commands arrive for one object in any order; a ghost keeps the numbers of the
accepted plans, of those that were cut over and of the acknowledged settlements. -/
namespace Smoothfs.Acknowledgements
open Movement Resolve Run

/-- A cutover is two labels, since it drops the inode lock to drain the writers. `fresh` is the
identity that is made if the object is resolved to a file without one. `others` leaves the object's
state, its number and the recovery index alone. -/
inductive Command
  | plan (fresh : Oid) (destTier seq : Nat) (force : Bool)
  | cutoverBegin (fresh : Oid) (seq : Nat)
  | cutoverFinish (expected : Option Nat) (fault : CutoverFault)
  | complete (fresh : Oid) (seq : Nat) (failure : Option Errno)
  | rollback (fresh : Oid) (seq : Nat) (failure : Option Errno)
  | others (mount : Mount)

structure State where
  mount : Mount
  draining : Option (Oid × Nat)
  planned : List Nat
  cut : List Nat
  completed : List Nat
  rolledBack : List Nat

def control (world : World) (oid : Oid) : Option (MovementState × Nat) :=
  (world.inodes oid).map fun inode => (inode.movementState,inode.transactionSeq)

def start (mount : Mount) (oid : Oid) : State :=
  match control mount.world oid with
  | none | some (.placed,_) => ⟨mount,none,[],[],[],[]⟩
  | some (.switched,seq) => ⟨mount,none,[seq],[seq],[],[]⟩
  | some (_,seq) => ⟨mount,none,[seq],[],[],[]⟩

abbrev State.world (state : State) : World := state.mount.world

abbrev State.setWorld (state : State) (world : World) : State :=
  {state with mount := {state.mount with world := world}}

section Commands

variable (oid : Oid) (state : State)

def plan (destTier seq : Nat) (force : Bool) : State :=
  match movementPlan state.world oid destTier seq force with
  | (world,.ok ()) => {state.setWorld world with planned := seq::state.planned}
  | (world,.error _) => state.setWorld world

def begin (seq : Nat) : State :=
  match cutoverBegin state.world oid seq with
  | (world,.ok ()) => {state.setWorld world with draining := some (oid,seq)}
  | (world,.error _) => state.setWorld world

def complete (seq : Nat) (failure : Option Errno) : State :=
  match recordPlaced state.world oid failure (movementComplete state.world oid seq) with
  | (world,.ok ()) => {state.setWorld world with completed := seq::state.completed}
  | (world,.error _) => state.setWorld world

def rollback (seq : Nat) (failure : Option Errno) : State :=
  match recordPlaced state.world oid failure (movementRollback state.world oid seq) with
  | (world,.ok ()) => {state.setWorld world with rolledBack := seq::state.rolledBack}
  | (world,.error _) => state.setWorld world

/-- The command acts on the inode to which its OID leads. -/
def onResolved (number : Oid → Nat) (fresh : Oid) (command : Oid → State → State) : State :=
  match recoveryResolveOid number state.mount fresh oid with
  | (mount,some found) => command found {state with mount := mount}
  | (mount,none) => {state with mount := mount}

end Commands

def step (number : Oid → Nat) (oid : Oid) (state : State) : Command → Option State
  | .plan fresh destTier seq force =>
    let pool := state.world.pool
    if pool.quiesced ∨ pool.ntiers ≤ destTier ∨ pool.cacheMode ∧ destTier ≠ pool.ntiers - 1 then some state
    else some (onResolved oid state number fresh fun found state => plan found state destTier seq force)
  | .cutoverBegin fresh seq =>
    if state.world.pool.quiesced then some state
    else some (onResolved oid state number fresh fun found state => begin found state seq)
  | .cutoverFinish expected fault =>
    state.draining.map fun drained =>
      match cutoverFinish state.world drained.1 expected fault with
      | (world,.ok ()) => {state.setWorld world with draining := none, cut := drained.2::state.cut}
      | (world,.error _) => {state.setWorld world with draining := none}
  | .complete fresh seq failure => some (onResolved oid state number fresh fun found state => complete found state seq failure)
  | .rollback fresh seq failure => some (onResolved oid state number fresh fun found state => rollback found state seq failure)
  | .others mount =>
    if control mount.world oid = control state.world oid ∧ mount.records oid = state.mount.records oid ∧
        (oid ∈ mount.cache.incore ↔ oid ∈ state.mount.cache.incore) then some {state with mount := mount}
    else none

def Distinct (state : State) : Command → Prop
  | .plan _ _ seq _ => seq ∉ state.planned
  | _ => True

/-- Only an accepted plan is settled, and in one way. -/
def Consistent (state : State) : Command → Prop
  | .complete _ seq _ => seq ∈ state.planned ∧ seq ∉ state.rolledBack
  | .rollback _ seq _ => seq ∈ state.planned ∧ seq ∉ state.completed
  | _ => True

/-- The object is in memory, or what the recovery index leads to is its own file. -/
def Finds (number : Oid → Nat) (oid : Oid) (state : State) : Command → Prop
  | .plan fresh _ _ _ | .cutoverBegin fresh _ | .complete fresh _ _ | .rollback fresh _ _ => fresh ≠ oid ∧
      (oid ∈ state.mount.cache.incore ∨ ∀ entry ∈ recorded state.mount oid,
        Identifies number state.world state.mount.cache oid entry.2.1.dir entry.2.2)
  | _ => True

instance (number : Oid → Nat) (world : World) (cache : Lookup.Cache) (oid : Oid) (tier : Nat) (file : FileId) :
    Decidable (Identifies number world cache oid tier file) :=
  decidable_of_iff ((∀ known ∈ Lookup.held world cache.incore, ¬ (known.2.lowerPath.mnt = tier ∧ known.2.lowerPath.file = file)) ∧
      (world.files file).oid = some oid ∧ ∀ known ∈ Lookup.held world cache.incore, number known.1 ≠ number oid)
    ⟨fun met => ⟨met.1,met.2.1,met.2.2⟩,fun identifies => ⟨identifies.unused,identifies.carries,identifies.numbered⟩⟩

instance (state : State) (command : Command) : Decidable (Distinct state command) :=
  match command with
  | .plan _ _ seq _ => inferInstanceAs (Decidable (seq ∉ state.planned))
  | .cutoverBegin _ _ | .cutoverFinish _ _ | .complete _ _ _ | .rollback _ _ _ | .others _ => isTrue trivial

instance (state : State) (command : Command) : Decidable (Consistent state command) :=
  match command with
  | .complete _ seq _ => inferInstanceAs (Decidable (seq ∈ state.planned ∧ seq ∉ state.rolledBack))
  | .rollback _ seq _ => inferInstanceAs (Decidable (seq ∈ state.planned ∧ seq ∉ state.completed))
  | .cutoverBegin _ _ | .cutoverFinish _ _ | .plan _ _ _ _ | .others _ => isTrue trivial

/-- Replay leaves no object in the middle of a move. -/
def Replayable (mount : Mount) (oid : Oid) : Prop :=
  ∀ record ∈ mount.records oid, record.normalizedState ∈ [MovementState.placed,.failed,.stale,.cleanupComplete]

def Phase (state : State) (seq : Nat) : MovementState → Prop
  | .placed => seq ∈ state.planned → seq ∈ state.completed ∨ seq ∈ state.rolledBack
  | .switched => seq ∈ state.cut
  | .failed => seq ∈ state.planned → seq ∉ state.cut ∧ seq ∉ state.rolledBack
  | .cleanupInProgress | .cleanupComplete | .stale => True
  | _ => seq ∈ state.planned ∧ seq ∉ state.cut ∧ seq ∉ state.rolledBack

structure Kept (oid : Oid) (state : State) : Prop where
  cutPlanned : ∀ seq ∈ state.cut, seq ∈ state.planned
  completedCut : ∀ seq ∈ state.completed, seq ∈ state.cut
  rolledBackUncut : ∀ seq ∈ state.rolledBack, seq ∈ state.planned ∧ seq ∉ state.cut
  phase : ∀ fields ∈ control state.world oid, Phase state fields.2 fields.1
  draining : ∀ drained ∈ state.draining, drained.1 = oid ∧ control state.world oid = some (.cutoverInProgress,drained.2)
  cold : oid ∉ state.mount.cache.incore → control state.world oid = none ∧ state.planned = []
  replayable : Replayable state.mount oid

theorem phase_open {state : State} {seq : Nat} {movement : MovementState}
    (early : movement.preCutover = true ∨ movement = .cutoverInProgress) :
    Phase state seq movement ↔ seq ∈ state.planned ∧ seq ∉ state.cut ∧ seq ∉ state.rolledBack := by
  cases movement <;> simp [MovementState.preCutover] at early <;> rfl

theorem phase_early {state : State} {seq : Nat} {movement : MovementState}
    (early : movement.preCutover = true ∨ movement = .failed) (planned : seq ∈ state.planned) (phase : Phase state seq movement) :
    seq ∉ state.cut ∧ seq ∉ state.rolledBack := by
  rcases early with early | rfl
  · exact ((phase_open (.inl early)).mp phase).2
  · exact phase planned

theorem control_setInode (world : World) (oid : Oid) (inode : Inode) :
    control (world.setInode oid inode) oid = some (inode.movementState,inode.transactionSeq) := by
  simp [control,World.setInode]

variable {world : World}

theorem control_found {oid : Oid} {inode : Inode} (found : world.inodes oid = some inode) :
    control world oid = some (inode.movementState,inode.transactionSeq) := by
  simp [control,found]

theorem kept_start (mount : Mount) (oid : Oid) (memory : oid ∉ mount.cache.incore → mount.world.inodes oid = none)
    (replayable : Replayable mount oid) : Kept oid (start mount oid) := by
  have cold (absent : oid ∉ mount.cache.incore) : control mount.world oid = none := by simp [control,memory absent]
  unfold start
  cases fields : control mount.world oid with
  | none => constructor <;> simp [fields,replayable]
  | some pair =>
    have warm : oid ∈ mount.cache.incore := by
      by_contra absent
      cases fields.symm.trans (cold absent)
    obtain ⟨movement,seq⟩ := pair
    cases movement <;> constructor <;> simp [fields,Phase,warm,replayable]

section Steps

variable {oid : Oid} {state next : State}

variable (kept : Kept oid state)
include kept

theorem Kept.warm {fields : MovementState × Nat} (here : control state.world oid = some fields) : oid ∈ state.mount.cache.incore := by
  by_contra absent
  cases here.symm.trans (kept.cold absent).1

theorem Kept.undrained {fields : MovementState × Nat}
    (here : control state.world oid = some fields) (apart : fields.1 ≠ .cutoverInProgress) : state.draining = none := by
  cases drained : state.draining with
  | none => rfl
  | some entry =>
    have marked := (kept.draining entry drained).2
    rw [here] at marked
    cases marked
    exact absurd rfl apart

variable {seq : Nat}

theorem Kept.plan {destTier : Nat} {force : Bool} (distinct : seq ∉ state.planned) :
    Kept oid (plan oid state destTier seq force) := by
  unfold Acknowledgements.plan
  obtain ⟨errno,refused⟩ | ⟨inode,found,placed,_,_,_,accepted⟩ := movementPlan_spec state.world oid destTier seq force
  · rw [refused]
    exact kept
  rw [accepted]
  have undrained := kept.undrained (control_found found) (by simp [placed])
  have warm := kept.warm (control_found found)
  refine ⟨?_,kept.completedCut,?_,?_,by simp [undrained],fun absent => absurd warm absent,kept.replayable⟩
  · intro other member
    exact List.mem_cons_of_mem _ (kept.cutPlanned other member)
  · intro other member
    exact ⟨List.mem_cons_of_mem _ (kept.rolledBackUncut other member).1,(kept.rolledBackUncut other member).2⟩
  · intro fields there
    rw [control_setInode] at there
    cases there
    exact ⟨List.mem_cons_self,fun member => distinct (kept.cutPlanned seq member),
      fun member => distinct (kept.rolledBackUncut seq member).1⟩

theorem Kept.begin : Kept oid (begin oid state seq) := by
  unfold Acknowledgements.begin
  obtain ⟨errno,refused⟩ | ⟨inode,found,early,same,_,marked⟩ := cutoverBegin_spec state.world oid seq
  · rw [refused]
    exact kept
  rw [marked]
  have facts := (phase_open (.inl early)).mp (kept.phase _ (control_found found))
  have warm := kept.warm (control_found found)
  refine ⟨kept.cutPlanned,kept.completedCut,kept.rolledBackUncut,?_,?_,fun absent => absurd warm absent,kept.replayable⟩
  · intro fields there
    rw [control_setInode] at there
    cases there
    exact facts
  · intro other member
    cases member
    refine ⟨rfl,?_⟩
    rw [control_setInode,← same]
    rfl

omit kept

variable {after : World} {expected : Option Nat} {fault : CutoverFault}

theorem control_refused {errno : Errno} (marked : control world oid = some (.cutoverInProgress,seq))
    (refused : cutoverFinish world oid expected fault = (after,.error errno)) :
    ∃ movement, (movement.preCutover = true ∨ movement = .failed) ∧ control after oid = some (movement,seq) := by
  obtain ⟨inode,found,here⟩ := Option.map_eq_some_iff.mp marked
  simp only [Prod.mk.injEq] at here
  rw [cutoverFinish_begun found here.1] at refused
  unfold cutoverEnd at refused
  split at refused
  · cases refused
    exact ⟨.copyVerified,.inl rfl,by rw [control_setInode,here.2]⟩
  · cases refused
    exact ⟨.failed,.inr rfl,by rw [control_setInode,here.2]⟩
  · cases refused
    exact ⟨.failed,.inr rfl,by rw [control_setInode,here.2]⟩
  · cases refused

theorem control_publish (world : World) (inode : Inode) (dest : FileId) :
    control (publish world oid inode dest) oid = some (.switched,inode.transactionSeq) := by
  simp [control,publish,World.record,World.setInode,switchedInode]

theorem Kept.finish {number : Oid → Nat} (kept : Kept oid state)
    (taken : step number oid state (.cutoverFinish expected fault) = some next) : Kept oid next := by
  obtain ⟨⟨target,seq⟩,drained,result⟩ := Option.map_eq_some_iff.mp taken
  obtain ⟨own,marked⟩ := kept.draining _ drained
  rw [show target = oid from own] at result
  have facts := (phase_open (.inr rfl)).mp (kept.phase _ marked)
  have warm := kept.warm marked
  cases outcome : cutoverFinish state.world oid expected fault with
  | mk after reply =>
  rw [outcome] at result
  cases reply with
  | error errno =>
    subst result
    obtain ⟨movement,early,here⟩ := control_refused marked outcome
    refine ⟨kept.cutPlanned,kept.completedCut,kept.rolledBackUncut,?_,by simp,fun absent => absurd warm absent,kept.replayable⟩
    intro fields there
    rw [here] at there
    cases there
    rcases early with early | rfl
    · exact (phase_open (.inl early)).mpr facts
    · exact fun _ => facts.2
  | ok value =>
    subst result
    obtain ⟨_,_,refused,_⟩ | ⟨inode,dest,found,_,_,published⟩ := cutoverFinish_spec state.world oid expected fault
    · rw [outcome] at refused
      cases refused
    rw [outcome] at published
    have same : inode.transactionSeq = seq := by
      rw [control_found found] at marked
      simpa using congrArg (Option.map Prod.snd) marked
    have here : control after oid = some (.switched,seq) := by
      rw [(Prod.mk.inj published).1,control_publish,same]
    refine ⟨?_,?_,?_,?_,by simp,fun absent => absurd warm absent,kept.replayable⟩
    · intro other member
      rcases List.mem_cons.mp member with rfl | member
      · exact facts.1
      · exact kept.cutPlanned other member
    · intro other member
      exact List.mem_cons_of_mem _ (kept.completedCut other member)
    · intro other member
      refine ⟨(kept.rolledBackUncut other member).1,fun cut => ?_⟩
      rcases List.mem_cons.mp cut with rfl | cut
      · exact facts.2.2 member
      · exact (kept.rolledBackUncut other member).2 cut
    · intro fields there
      rw [here] at there
      cases there
      exact List.mem_cons_self

variable {failure : Option Errno}

theorem control_settled (source : MovementState → Prop)
    {reply : Except Errno Unit} {settled : World × Except Errno Unit}
    (cases : (∃ errno, settled = (world,.error errno)) ∨ ∃ inode, world.inodes oid = some inode ∧ inode.transactionSeq = seq ∧
      (inode.movementState = .placed ∧ settled = (world,.ok ()) ∨ source inode.movementState ∧
        settled = (world.setInode oid {inode with movementState := .placed, intendedTier := inode.currentTier},.ok ())))
    (answered : recordPlaced world oid failure settled = (after,reply)) : (∃ errno, after = world ∧ reply = .error errno) ∨
      ∃ movement, (movement = .placed ∨ source movement) ∧ control world oid = some (movement,seq) ∧
        control after oid = some (.placed,seq) ∧ reply = .ok () := by
  obtain whole | ⟨errno,failed⟩ := recordPlaced_spec world oid failure settled
  swap
  · rw [failed] at answered
    cases answered
    exact .inl ⟨errno,rfl,rfl⟩
  rw [whole] at answered
  obtain ⟨errno,refused⟩ | ⟨inode,found,same,⟨placed,settled⟩ | ⟨movement,settled⟩⟩ := cases
  · rw [refused] at answered
    cases answered
    exact .inl ⟨errno,rfl,rfl⟩
  · rw [settled] at answered
    cases answered
    have here : control world oid = some (.placed,seq) := by rw [control_found found,placed,same]
    exact .inr ⟨.placed,.inl rfl,here,here,rfl⟩
  · rw [settled] at answered
    cases answered
    exact .inr ⟨_,.inr movement,by rw [control_found found,same],by rw [control_setInode,same],rfl⟩

/-- The object comes to rest with a number that one of the two commands has acknowledged. -/
theorem Kept.settled {movement : MovementState} {completed rolledBack : List Nat} (kept : Kept oid state)
    (before : control state.world oid = some (movement,seq)) (apart : movement ≠ .cutoverInProgress)
    (settled : control after oid = some (.placed,seq)) (cut : ∀ seq ∈ completed, seq ∈ state.cut)
    (uncut : ∀ seq ∈ rolledBack, seq ∈ state.planned ∧ seq ∉ state.cut) (acknowledged : seq ∈ completed ∨ seq ∈ rolledBack) :
    Kept oid {state.setWorld after with completed := completed, rolledBack := rolledBack} := by
  have undrained := kept.undrained before apart
  refine ⟨kept.cutPlanned,cut,uncut,?_,by simp [undrained],fun absent => absurd (kept.warm before) absent,kept.replayable⟩
  intro fields there
  rw [settled] at there
  cases there
  exact fun _ => acknowledged

theorem Kept.complete (kept : Kept oid state) (consistent : seq ∈ state.planned ∧ seq ∉ state.rolledBack) :
    Kept oid (complete oid state seq failure) := by
  unfold Acknowledgements.complete
  cases answered : recordPlaced state.world oid failure (movementComplete state.world oid seq) with
  | mk after reply =>
  obtain ⟨errno,rfl,rfl⟩ | ⟨movement,source,before,settled,rfl⟩ :=
    control_settled (· = .switched) (settle_cases state.world oid seq _) answered
  · exact kept
  have phase : Phase state seq movement := kept.phase _ before
  have cut : seq ∈ state.cut := by
    rcases source with rfl | rfl
    · exact kept.completedCut seq ((phase consistent.1).resolve_right consistent.2)
    · exact phase
  exact kept.settled before (by rcases source with rfl | rfl <;> simp) settled
    (List.forall_mem_cons.mpr ⟨cut,kept.completedCut⟩) kept.rolledBackUncut (.inl List.mem_cons_self)

theorem Kept.rollback (kept : Kept oid state) (consistent : seq ∈ state.planned ∧ seq ∉ state.completed) :
    Kept oid (rollback oid state seq failure) := by
  unfold Acknowledgements.rollback
  cases answered : recordPlaced state.world oid failure (movementRollback state.world oid seq) with
  | mk after reply =>
  obtain ⟨errno,rfl,rfl⟩ | ⟨movement,source,before,settled,rfl⟩ :=
    control_settled (fun movement => movement.preCutover = true ∨ movement = .failed)
      (settle_cases state.world oid seq _) answered
  · exact kept
  have phase : Phase state seq movement := kept.phase _ before
  have uncut : seq ∉ state.cut := by
    rcases source with rfl | early
    · exact (kept.rolledBackUncut seq ((phase consistent.1).resolve_left consistent.2)).2
    · exact (phase_early early consistent.1 phase).1
  refine kept.settled before ?_ settled kept.completedCut
    (List.forall_mem_cons.mpr ⟨⟨consistent.1,uncut⟩,kept.rolledBackUncut⟩) (.inr List.mem_cons_self)
  rintro rfl
  simp [MovementState.preCutover] at source

variable {number : Oid → Nat} {fresh : Oid}

theorem recorded_record {mount : Mount} {entry : Placement.ReplayRecord × Loc × FileId} (led : recorded mount oid = some entry) :
    mount.records oid = some entry.1 := by
  obtain ⟨record,listed,led⟩ := Option.bind_eq_some_iff.mp led
  obtain ⟨_,_,led⟩ := Option.bind_eq_some_iff.mp led
  obtain ⟨_,_,led⟩ := Option.bind_eq_some_iff.mp led
  cases led
  exact listed

/-- Resolved from the index, the object is at rest and has no number yet. -/
theorem Kept.replayed (kept : Kept oid state) (absent : oid ∉ state.mount.cache.incore) {entry : Placement.ReplayRecord × Loc × FileId}
    (led : recorded state.mount oid = some entry)
    (own : (Lookup.iget number state.world state.mount.cache fresh entry.2.1.dir entry.2.2).oid = oid) :
    Kept oid {state with mount := (instantiate number state.mount fresh oid entry.1 entry.2.1 entry.2.2).1} := by
  obtain ⟨unknown,unplanned⟩ := kept.cold absent
  have missing : state.world.inodes oid = none := Option.map_eq_none_iff.mp unknown
  have fields : control (instantiate number state.mount fresh oid entry.1 entry.2.1 entry.2.2).1.world oid =
      some (if state.world.pool.cacheMode then .placed else entry.1.normalizedState,0) := by
    simp [control,instantiate,own,World.setInode,missing,replayedInode,Namespace.newInode]
  refine ⟨kept.cutPlanned,kept.completedCut,kept.rolledBackUncut,fun pair there => ?_,fun drained member => ?_,fun cold => ?_,
    kept.replayable⟩
  · rw [State.world,fields] at there
    cases there
    have unseen : 0 ∉ state.planned := by simp [unplanned]
    split
    · exact fun planned => absurd planned unseen
    have rests := kept.replayable entry.1 (recorded_record led)
    simp only [List.mem_cons,List.not_mem_nil,or_false] at rests
    rcases rests with rests | rests | rests | rests
    · rw [rests]
      exact fun planned => absurd planned unseen
    · rw [rests]
      exact fun planned => absurd planned unseen
    · rw [rests]
      trivial
    · rw [rests]
      trivial
  · have marked := (kept.draining drained member).2
    cases unknown.symm.trans marked
  · refine absurd ?_ cold
    simp [instantiate,own,remember]

theorem Kept.resolved (kept : Kept oid state) {command : Oid → State → State} (finds : fresh ≠ oid ∧
      (oid ∈ state.mount.cache.incore ∨ ∀ entry ∈ recorded state.mount oid,
        Identifies number state.world state.mount.cache oid entry.2.1.dir entry.2.2))
    (keeps : ∀ mount, Kept oid {state with mount := mount} → Kept oid (command oid {state with mount := mount})) :
    Kept oid (onResolved oid state number fresh command) := by
  unfold onResolved recoveryResolveOid
  by_cases present : oid ∈ state.mount.cache.incore
  · rw [if_pos present]
    exact keeps state.mount kept
  rw [if_neg present]
  cases led : recorded state.mount oid with
  | none => exact kept
  | some entry =>
    have own := (iget_own_iff number state.world present finds.1 entry.2.1.dir entry.2.2).mpr
      (finds.2.resolve_left present entry led)
    have after := kept.replayed present led own
    have same : (instantiate number state.mount fresh oid entry.1 entry.2.1 entry.2.2).2 = oid := own
    dsimp only
    rw [same]
    exact keeps _ after

theorem Kept.step (kept : Kept oid state) (command : Command) (distinct : Distinct state command)
    (consistent : Consistent state command) (finds : Finds number oid state command)
    (taken : step number oid state command = some next) : Kept oid next := by
  cases command with
  | plan fresh destTier seq force =>
    simp only [Acknowledgements.step] at taken
    split at taken
    · cases taken
      exact kept
    · cases taken
      exact kept.resolved finds fun mount after => after.plan distinct
  | cutoverBegin fresh seq =>
    simp only [Acknowledgements.step] at taken
    split at taken
    · cases taken
      exact kept
    · cases taken
      exact kept.resolved finds fun mount after => after.begin
  | cutoverFinish expected fault => exact kept.finish taken
  | complete fresh seq failure =>
    cases taken
    exact kept.resolved finds fun mount after => after.complete consistent
  | rollback fresh seq failure =>
    cases taken
    exact kept.resolved finds fun mount after => after.rollback consistent
  | others mount =>
    simp only [Acknowledgements.step,Option.ite_none_right_eq_some,Option.some.injEq] at taken
    obtain ⟨⟨same,records,memory⟩,rfl⟩ := taken
    refine ⟨kept.cutPlanned,kept.completedCut,kept.rolledBackUncut,?_,?_,?_,?_⟩
    · rw [State.world,same]
      exact kept.phase
    · rw [State.world,same]
      exact kept.draining
    · intro absent
      rw [State.world,same]
      exact kept.cold fun present => absent (memory.mpr present)
    · rw [Replayable,records]
      exact kept.replayable

end Steps

/-- Acknowledged completions are of plans that were cut over, acknowledged
rollbacks of plans that never are. -/
theorem acknowledgements_truthful (number : Oid → Nat) (mount : Mount) (oid : Oid) (commands : List Command) (final : State)
    (memory : oid ∉ mount.cache.incore → mount.world.inodes oid = none) (replayable : Replayable mount oid)
    (distinct : Guarded (step number oid) Distinct (start mount oid) commands)
    (consistent : Guarded (step number oid) Consistent (start mount oid) commands)
    (finds : Guarded (step number oid) (Finds number oid) (start mount oid) commands)
    (reached : run (step number oid) (start mount oid) commands = some final) :
    (∀ seq ∈ final.completed, seq ∈ final.cut) ∧ ∀ seq ∈ final.rolledBack, seq ∉ final.cut := by
  have kept : Kept oid final :=
    invariant (step number oid)
      (fun state command => (Distinct state command ∧ Consistent state command) ∧ Finds number oid state command) (Kept oid)
      (fun state command next kept met taken => kept.step command met.1.1 met.1.2 met.2 taken) _ _ _
      (kept_start mount oid memory replayable) ((distinct.and consistent).and finds) reached
  exact ⟨kept.completedCut,fun seq member => (kept.rolledBackUncut seq member).2⟩

instance (number : Oid → Nat) (oid : Oid) (state : State) (command : Command) : Decidable (Finds number oid state command) :=
  match command with
  | .plan fresh _ _ _ | .cutoverBegin fresh _ | .complete fresh _ _ | .rollback fresh _ _ =>
    inferInstanceAs (Decidable (fresh ≠ oid ∧ (oid ∈ state.mount.cache.incore ∨ ∀ entry ∈ recorded state.mount oid,
      Identifies number state.world state.mount.cache oid entry.2.1.dir entry.2.2)))
  | .cutoverFinish _ _ | .others _ => isTrue trivial

/-- The file carries the identity; at first the object is known by the recovery index only. -/
def copiedMount (incore : List Oid) : Mount where
  world := {copied with
    files := fun _ => ⟨true,[],⟨0,0,[]⟩,some 0,false,0⟩
    inodes := fun oid => if oid ∈ incore then copied.inodes oid else none}
  cache := ⟨incore,incore⟩
  gens := fun _ => 0
  log := []
  index := fun _ => none
  records := fun oid => if oid = 0 then some {Placement.ReplayRecord.fresh with chosen := some ⟨0,["f"]⟩} else none

def settledTwice : List Command :=
  [.plan 9 1 1 false,.cutoverBegin 9 1,.cutoverFinish (some 0) .none,.complete 9 1 (some .eio),.complete 9 1 none,
    .complete 9 1 none,.plan 9 0 2 false,.rollback 9 2 none,.rollback 9 2 none]

theorem settled_twice_truthful : Guarded (step id 0) Distinct (start (copiedMount []) 0) settledTwice ∧
    Guarded (step id 0) Consistent (start (copiedMount []) 0) settledTwice ∧
    ∃ final, run (step id 0) (start (copiedMount []) 0) settledTwice = some final ∧ final.completed = [1,1] ∧ final.rolledBack = [2,2] ∧
      (∀ seq ∈ final.completed, seq ∈ final.cut) ∧ ∀ seq ∈ final.rolledBack, seq ∉ final.cut := by
  have distinct : Guarded (step id 0) Distinct (start (copiedMount []) 0) settledTwice := by decide +kernel
  have consistent : Guarded (step id 0) Consistent (start (copiedMount []) 0) settledTwice := by decide +kernel
  have finds : Guarded (step id 0) (Finds id 0) (start (copiedMount []) 0) settledTwice := by decide +kernel
  have shape : ∃ final, run (step id 0) (start (copiedMount []) 0) settledTwice = some final ∧ final.completed = [1,1] ∧
      final.rolledBack = [2,2] := reaches (by decide +kernel)
  obtain ⟨final,reached,completed,rolledBack⟩ := shape
  have replayable : Replayable (copiedMount []) 0 := by
    rintro record ⟨⟩
    decide
  exact ⟨distinct,consistent,final,reached,completed,rolledBack,
    acknowledgements_truthful id (copiedMount []) 0 settledTwice final (fun _ => rfl) replayable distinct consistent finds reached⟩

/-- Rolled back and then completed, and the other way round: both second answers are 0. -/
theorem settled_both_ways :
    Guarded (step id 0) Distinct (start (copiedMount [0]) 0) [.plan 9 1 1 false,.rollback 9 1 none,.complete 9 1 none] ∧
    Guarded (step id 0) Distinct (start (copiedMount [0]) 0)
      [.plan 9 1 1 false,.cutoverBegin 9 1,.cutoverFinish (some 0) .none,.complete 9 1 none,.rollback 9 1 none] ∧
    (∃ final, run (step id 0) (start (copiedMount [0]) 0) [.plan 9 1 1 false,.rollback 9 1 none,.complete 9 1 none] = some final ∧
      1 ∈ final.completed ∧ 1 ∉ final.cut) ∧
    ∃ final, run (step id 0) (start (copiedMount [0]) 0)
      [.plan 9 1 1 false,.cutoverBegin 9 1,.cutoverFinish (some 0) .none,.complete 9 1 none,.rollback 9 1 none] = some final ∧
      1 ∈ final.rolledBack ∧ 1 ∈ final.cut := by
  exact ⟨by decide +kernel,by decide +kernel,reaches (by decide +kernel),reaches (by decide +kernel)⟩

end Smoothfs.Acknowledgements
