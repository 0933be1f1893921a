import Smoothfs.Library.Run
import Smoothfs.Library.Srcu
import Smoothfs.Types

/-! The cutover barrier of one regular file: any number of `smoothfs_write_iter`
calls against one mover that inspects, copies, verifies, inspects again and
cuts over. Every atomic step of both sides is a label of its own, and a run is
a list of labels. -/
namespace Smoothfs.WriteBarrier

open Run

inductive Backing
  | source | destination
  deriving DecidableEq, Repr

/-- In `writing` and `left` the flag is `ret > 0`: some byte reached the lower or the stage file. -/
inductive WriterPc
  | entering
  | locked
  | parked
  | checked
  | writing (lower : Backing) (dirty : Bool)
  | left (dirty : Bool)
  | returned
  deriving DecidableEq, Repr

inductive MoverPc
  | idle
  | inspected (seq : Nat)
  | planned (seq : Nat)
  | copying (seq : Nat)
  | copied (seq : Nat)
  | verified (seq : Nat)
  | stable (seq : Nat)
  | inProgress (seq : Nat)
  | draining (seq : Nat)
  | drained (seq : Nat)
  | rechecked (seq : Nat)
  | switched
  | refused
  deriving DecidableEq, Repr

structure State where
  movementState : MovementState
  writeSeq : Nat
  lowerPath : Backing
  source : Bytes
  destination : Bytes
  staged : List StagedRange
  writers : List WriterPc
  grace : List Nat
  mover : MoverPc
  deriving DecidableEq, Repr

inductive WriterStep
  | lock
  | check
  | wake
  | interrupt
  | lowerFile (opened : Bool)
  | writeLower (pos : Nat) (data : Bytes)
  | stage (pos : Nat) (data : Bytes)
  | stageUnpersisted (pos : Nat) (data : Bytes)
  | unlock
  | noteDataChange
  deriving DecidableEq, Repr

inductive MoverStep
  | inspect
  | plan
  | openDestination
  | copyChunk (length : Nat)
  | copyDone
  | verify
  | inspectAgain
  | setInProgress
  | drainStart
  | drainDone
  | drainTimeout
  | recheck
  | fail
  | swap
  deriving DecidableEq, Repr

inductive Label
  | arrive
  | writer (task : Nat) (action : WriterStep)
  | stagingDrain (count : Nat)
  | mover (action : MoverStep)
  deriving DecidableEq, Repr

def State.content (state : State) : Backing → Bytes
  | .source => state.source
  | .destination => state.destination

def State.setContent (state : State) (lower : Backing) (bytes : Bytes) : State :=
  match lower with
  | .source => {state with source := bytes}
  | .destination => {state with destination := bytes}

def WriterPc.reading : WriterPc → Bool
  | .locked | .checked | .writing _ _ => true
  | _ => false

def WriterPc.admitted : WriterPc → Prop
  | .checked | .writing _ _ => True
  | _ => False

def WriterPc.uncounted : WriterPc → Prop
  | .writing _ true | .left true => True
  | _ => False

def State.addRange (state : State) (pos : Nat) (data : Bytes) : State :=
  {state with staged := state.staged ++ [⟨pos,data⟩]}

def State.count (state : State) : State :=
  {state with writeSeq := state.writeSeq + 1}

def State.move (state : State) (task : Nat) (pc : WriterPc) : State :=
  {state with writers := state.writers.set task pc}

def State.leave (state : State) (task : Nat) (pc : WriterPc) : State :=
  {state.move task pc with grace := Srcu.unlocked state.grace task}

/-- A direct or full write waits until older staged ranges are drained; a failed stage write in
cache mode counts itself before it returns. -/
def writerStep (state : State) (task : Nat) (pc : WriterPc) (action : WriterStep) : Option State :=
  match pc, action with
  | .entering, .lock => some (state.move task .locked)
  | .locked, .check =>
    if state.movementState = .cutoverInProgress then some (state.leave task .parked)
    else some (state.move task .checked)
  | .parked, .wake => if state.movementState = .cutoverInProgress then none else some (state.move task .entering)
  | .parked, .interrupt => some (state.move task .returned)
  | .checked, .lowerFile true => some (state.move task (.writing state.lowerPath false))
  | .checked, .lowerFile false => some (state.leave task (.left false))
  | .writing lower _, .writeLower pos data =>
    if state.staged = [] then
      some ((state.setContent lower (pwrite (state.content lower) pos data)).move task (.writing lower true))
    else none
  | .writing lower _, .stage pos data =>
    some ((state.addRange pos data).move task (.writing lower true))
  | .writing _ false, .stageUnpersisted pos data =>
    some ((state.addRange pos data).count.leave task (.left false))
  | .writing _ dirty, .unlock => some (state.leave task (.left dirty))
  | .left true, .noteDataChange => some (state.count.move task .returned)
  | .left false, .noteDataChange => some (state.move task .returned)
  | _, _ => none

/-- Up to `inspectAgain` it is the worker; from `setInProgress` on it is
`smoothfs_movement_cutover`. -/
def moverStep (state : State) (action : MoverStep) : Option State :=
  match state.mover, action with
  | .idle, .inspect =>
    if state.movementState = .placed ∧ state.staged = [] then some {state with mover := .inspected state.writeSeq}
    else some {state with mover := .refused}
  | .inspected seq, .plan => some {state with movementState := .planAccepted, mover := .planned seq}
  | .planned seq, .openDestination => some {state with destination := [], mover := .copying seq}
  | .copying seq, .copyChunk length =>
    some {state with destination := state.destination ++ (state.source.drop state.destination.length).take length,
                     mover := .copying seq}
  | .copying seq, .copyDone =>
    if state.destination.length = state.source.length then some {state with mover := .copied seq}
    else some {state with mover := .refused}
  | .copied seq, .verify =>
    if state.source = state.destination then some {state with mover := .verified seq}
    else some {state with mover := .refused}
  | .verified seq, .inspectAgain =>
    if state.writeSeq = seq ∧ state.staged = [] then some {state with mover := .stable seq}
    else some {state with mover := .refused}
  | .stable seq, .setInProgress =>
    if state.movementState.preCutover then
      some {state with movementState := .cutoverInProgress, mover := .inProgress seq}
    else some {state with mover := .refused}
  | .inProgress seq, .drainStart =>
    some {state with grace := Srcu.inside WriterPc.reading state.writers, mover := .draining seq}
  | .draining seq, .drainDone => if state.grace = [] then some {state with mover := .drained seq} else none
  | .draining _, .drainTimeout => some {state with movementState := .copyVerified, mover := .refused}
  | .drained seq, .recheck =>
    if state.movementState = .cutoverInProgress ∧ state.writeSeq = seq then some {state with mover := .rechecked seq}
    else some {state with movementState := .failed, mover := .refused}
  | .rechecked _, .fail => some {state with movementState := .failed, mover := .refused}
  | .rechecked _, .swap =>
    if state.destination.length < state.source.length then some {state with movementState := .failed, mover := .refused}
    else some {state with lowerPath := .destination, movementState := .switched, mover := .switched}
  | _, _ => none

def stagingDrain (state : State) (count : Nat) : State :=
  let drained := state.setContent state.lowerPath
    (drainRanges (state.content state.lowerPath) (state.staged.take count))
  if state.staged.length ≤ count then {drained with staged := []} else drained

def step (state : State) : Label → Option State
  | .arrive => some {state with writers := state.writers ++ [.entering]}
  | .writer task action => state.writers[task]?.bind (fun pc => writerStep state task pc action)
  | .stagingDrain count => some (stagingDrain state count)
  | .mover action => moverStep state action

structure Quiet (state : State) : Prop where
  placed : state.movementState = .placed
  onSource : state.lowerPath = .source
  noWriters : state.writers = []
  noGrace : state.grace = []
  idle : state.mover = .idle

/-- The destination equals the source at the moment the run's next label swaps them. -/
def SwapKeepsWrites (start : State) (labels : List Label) : Prop :=
  ∀ before after, run step start labels = some before → step before (.mover .swap) = some after →
    after.mover = .switched → after.destination = after.source

/-- Since the INSPECT that returned `seq`, some byte was written: it is counted,
or its writer has still to count it. -/
def Changed (seq : Nat) (state : State) : Prop :=
  seq < state.writeSeq ∨ ∃ pc ∈ state.writers, pc.uncounted

def OnSource (state : State) : Prop :=
  state.lowerPath = .source ∧ ∀ lower dirty, WriterPc.writing lower dirty ∈ state.writers → lower = .source

structure Tracked (seq : Nat) (state : State) : Prop where
  onSource : OnSource state
  monotone : seq ≤ state.writeSeq
  stagedChanged : state.staged ≠ [] → Changed seq state

def Agrees (seq : Nat) (state : State) : Prop :=
  state.source = state.destination ∨ Changed seq state

def Barred (state : State) : Prop :=
  state.movementState = .cutoverInProgress

def Drained (state : State) : Prop :=
  Barred state ∧ ∀ pc ∈ state.writers, ¬ pc.admitted

def Invariant (state : State) : Prop :=
  match state.mover with
  | .idle => OnSource state
  | .inspected seq | .planned seq | .copying seq | .copied seq => Tracked seq state
  | .verified seq | .stable seq => Tracked seq state ∧ Agrees seq state
  | .inProgress seq => Tracked seq state ∧ Agrees seq state ∧ Barred state
  | .draining seq =>
    Tracked seq state ∧ Agrees seq state ∧ Barred state ∧ Srcu.Fenced WriterPc.admitted state.writers state.grace
  | .drained seq => Tracked seq state ∧ Agrees seq state ∧ Drained state
  | .rechecked _ => OnSource state ∧ Drained state ∧ state.staged = [] ∧ state.source = state.destination
  | .switched | .refused => True

def SameData (state next : State) : Prop :=
  next.source = state.source ∧ next.destination = state.destination ∧ next.staged = state.staged

structure Recorded (state next : State) : Prop where
  mover : next.mover = state.mover
  movementState : next.movementState = state.movementState
  onSource : OnSource state → OnSource next
  counted : state.writeSeq ≤ next.writeSeq
  kept : ∀ seq, seq ≤ state.writeSeq → Changed seq state → Changed seq next
  data : SameData state next ∨ (∀ seq, seq ≤ state.writeSeq → Changed seq next) ∨ state.staged ≠ []
  fenced : Barred state → Srcu.Fenced WriterPc.admitted state.writers state.grace →
    Srcu.Fenced WriterPc.admitted next.writers next.grace
  drained : Drained state → Drained next
  still : Drained state → state.staged = [] → SameData state next

variable {next : State} {seq : Nat}

theorem Recorded.tracked {state : State} (recorded : Recorded state next) (tracked : Tracked seq state) : Tracked seq next := by
  refine ⟨recorded.onSource tracked.onSource,Nat.le_trans tracked.monotone recorded.counted,fun pending => ?_⟩
  rcases recorded.data with same | changed | before
  · rw [same.2.2] at pending
    exact recorded.kept seq tracked.monotone (tracked.stagedChanged pending)
  · exact changed seq tracked.monotone
  · exact recorded.kept seq tracked.monotone (tracked.stagedChanged before)

theorem Recorded.agrees {state : State} (recorded : Recorded state next)
    (tracked : Tracked seq state) (agrees : Agrees seq state) : Agrees seq next := by
  rcases agrees with equal | changed
  · rcases recorded.data with same | changed | before
    · exact .inl (by rw [same.1,same.2.1,equal])
    · exact .inr (changed seq tracked.monotone)
    · exact .inr (recorded.kept seq tracked.monotone (tracked.stagedChanged before))
  · exact .inr (recorded.kept seq tracked.monotone changed)

theorem Recorded.barred {state : State} (recorded : Recorded state next) (barred : Barred state) : Barred next := by
  rw [Barred,recorded.movementState]
  exact barred

theorem Recorded.invariant {state : State} (recorded : Recorded state next) (holds : Invariant state) : Invariant next := by
  unfold Invariant at holds ⊢
  rw [recorded.mover]
  cases position : state.mover <;> simp only [position] at holds ⊢
  case idle => exact recorded.onSource holds
  case inspected | planned | copying | copied => exact recorded.tracked holds
  case verified | stable => exact ⟨recorded.tracked holds.1,recorded.agrees holds.1 holds.2⟩
  case inProgress =>
    obtain ⟨tracked,agrees,barred⟩ := holds
    exact ⟨recorded.tracked tracked,recorded.agrees tracked agrees,recorded.barred barred⟩
  case draining =>
    obtain ⟨tracked,agrees,barred,fenced⟩ := holds
    exact ⟨recorded.tracked tracked,recorded.agrees tracked agrees,recorded.barred barred,
      recorded.fenced barred fenced⟩
  case drained =>
    obtain ⟨tracked,agrees,drained⟩ := holds
    exact ⟨recorded.tracked tracked,recorded.agrees tracked agrees,recorded.drained drained⟩
  case rechecked =>
    obtain ⟨onSource,drained,empty,equal⟩ := holds
    obtain ⟨source,destination,staged⟩ := recorded.still drained empty
    exact ⟨recorded.onSource onSource,recorded.drained drained,by rw [staged,empty],by rw [source,destination,equal]⟩

structure Moved (state next : State) (task : Nat) (before after : WriterPc) : Prop where
  mover : next.mover = state.mover
  movementState : next.movementState = state.movementState
  lowerPath : next.lowerPath = state.lowerPath
  writers : next.writers = state.writers.set task after
  grace : next.grace = state.grace ∨ next.grace = Srcu.unlocked state.grace task ∧ ¬ after.admitted
  counted : state.writeSeq ≤ next.writeSeq
  uncounted : before.uncounted → after.uncounted ∨ state.writeSeq < next.writeSeq
  chosen : ∀ lower dirty, after = .writing lower dirty → lower = state.lowerPath ∨ ∃ earlier, before = .writing lower earlier
  data : SameData state next ∨ before.admitted ∧ (after.uncounted ∨ state.writeSeq < next.writeSeq)
  admitted : after.admitted → before.admitted ∨ ¬ Barred state

variable {before after : WriterPc}

theorem Moved.changed {state : State} {task : Nat}
    (moved : Moved state next task before after) (found : state.writers[task]? = some before) (seq : Nat)
    (bound : seq ≤ state.writeSeq) (recorded : after.uncounted ∨ state.writeSeq < next.writeSeq) : Changed seq next := by
  rcases recorded with pending | counted
  · refine .inr ⟨after,?_,pending⟩
    obtain ⟨inside,_⟩ := List.getElem?_eq_some_iff.mp found
    rw [moved.writers]
    exact List.mem_set inside after
  · exact .inl (by omega)

theorem Moved.kept {state : State} {task : Nat}
    (moved : Moved state next task before after) (found : state.writers[task]? = some before) (seq : Nat)
    (bound : seq ≤ state.writeSeq) (changed : Changed seq state) : Changed seq next := by
  rcases changed with counted | ⟨pc,member,pending⟩
  · exact .inl (Nat.lt_of_lt_of_le counted moved.counted)
  obtain ⟨other,inside,entry⟩ := List.mem_iff_getElem.mp member
  have located : state.writers[other]? = some pc := List.getElem?_eq_some_iff.mpr ⟨inside,entry⟩
  by_cases same : task = other
  · subst other
    cases found.symm.trans located
    exact moved.changed found seq bound (moved.uncounted pending)
  · refine .inr ⟨pc,List.mem_of_getElem? (i := other) ?_,pending⟩
    rw [moved.writers,List.getElem?_set_ne same,located]

theorem Moved.onSource {state : State} {task : Nat}
    (moved : Moved state next task before after) (found : state.writers[task]? = some before)
    (onSource : OnSource state) : OnSource next := by
  refine ⟨by rw [moved.lowerPath,onSource.1],fun lower dirty member => ?_⟩
  rw [moved.writers] at member
  rcases List.mem_or_eq_of_mem_set member with earlier | equal
  · exact onSource.2 lower dirty earlier
  · rcases moved.chosen lower dirty equal.symm with current | ⟨first,started⟩
    · rw [current,onSource.1]
    · exact onSource.2 lower first (started ▸ List.mem_of_getElem? found)

theorem Moved.recorded {state : State} {task : Nat}
    (moved : Moved state next task before after) (found : state.writers[task]? = some before) : Recorded state next where
  mover := moved.mover
  movementState := moved.movementState
  onSource := moved.onSource found
  counted := moved.counted
  kept := moved.kept found
  data := by
    rcases moved.data with same | ⟨_,recorded⟩
    · exact .inl same
    · exact .inr (.inl fun seq bound => moved.changed found seq bound recorded)
  fenced := by
    intro barred fenced
    have stays : after.admitted → before.admitted := fun admitted =>
      (moved.admitted admitted).resolve_right (fun unbarred => unbarred barred)
    rw [moved.writers]
    rcases moved.grace with same | ⟨left,young⟩
    · rw [same]
      exact fenced.set task before after found stays
    · rw [left]
      exact fenced.leave task after young
  drained := by
    intro drained
    have stopped : ¬ before.admitted := drained.2 before (List.mem_of_getElem? found)
    refine ⟨by rw [Barred,moved.movementState]; exact drained.1,fun pc member admitted => ?_⟩
    rw [moved.writers] at member
    rcases List.mem_or_eq_of_mem_set member with earlier | equal
    · exact drained.2 pc earlier admitted
    · rcases moved.admitted (equal ▸ admitted) with inside | unbarred
      · exact stopped inside
      · exact unbarred drained.1
  still := by
    intro drained _
    rcases moved.data with same | ⟨inside,_⟩
    · exact same
    · exact absurd inside (drained.2 before (List.mem_of_getElem? found))

variable (state : State) (task : Nat)

theorem moved_move (before after : WriterPc) (uncounted : before.uncounted → after.uncounted)
    (chosen : ∀ lower dirty, after = .writing lower dirty → lower = state.lowerPath ∨ ∃ earlier, before = .writing lower earlier)
    (admitted : after.admitted → before.admitted ∨ ¬ Barred state) : Moved state (state.move task after) task before after where
  mover := rfl
  movementState := rfl
  lowerPath := rfl
  writers := rfl
  grace := .inl rfl
  counted := Nat.le_refl _
  uncounted := fun pending => .inl (uncounted pending)
  chosen := chosen
  data := .inl ⟨rfl,rfl,rfl⟩
  admitted := admitted

theorem moved_leave {before after : WriterPc} (uncounted : before.uncounted → after.uncounted) (outside : ¬ after.admitted) :
    Moved state (state.leave task after) task before after where
  mover := rfl
  movementState := rfl
  lowerPath := rfl
  writers := rfl
  grace := .inr ⟨rfl,outside⟩
  counted := Nat.le_refl _
  uncounted := fun pending => .inl (uncounted pending)
  chosen := fun _ _ equal => absurd (equal ▸ trivial) outside
  data := .inl ⟨rfl,rfl,rfl⟩
  admitted := fun admitted => absurd admitted outside

variable (lower : Backing) (dirty : Bool)

theorem moved_write {bytes : Bytes} : Moved state ((state.setContent lower bytes).move task (.writing lower true)) task
      (.writing lower dirty) (.writing lower true) := by
  cases lower <;>
    exact ⟨rfl,rfl,rfl,rfl,.inl rfl,Nat.le_refl _,fun _ => .inl trivial,
      fun lower _ equal => .inr ⟨dirty,by cases equal; rfl⟩,.inr ⟨trivial,.inl trivial⟩,fun _ => .inl trivial⟩

variable (pos : Nat) (data : Bytes)

theorem moved_stage : Moved state ((state.addRange pos data).move task (.writing lower true)) task
      (.writing lower dirty) (.writing lower true) :=
  ⟨rfl,rfl,rfl,rfl,.inl rfl,Nat.le_refl _,fun _ => .inl trivial,
    fun lower _ equal => .inr ⟨dirty,by cases equal; rfl⟩,.inr ⟨trivial,.inl trivial⟩,fun _ => .inl trivial⟩

theorem moved_unpersisted : Moved state ((state.addRange pos data).count.leave task (.left false)) task
      (.writing lower false) (.left false) :=
  ⟨rfl,rfl,rfl,rfl,.inr ⟨rfl,id⟩,Nat.le_succ _,fun pending => pending.elim,
    fun _ _ equal => (nomatch equal),.inr ⟨trivial,.inr (Nat.lt_succ_self _)⟩,fun admitted => admitted.elim⟩

theorem moved_count : Moved state (state.count.move task .returned) task (.left true) .returned :=
  ⟨rfl,rfl,rfl,rfl,.inl rfl,Nat.le_succ _,fun _ => .inr (Nat.lt_succ_self _),
    fun _ _ equal => (nomatch equal),.inl ⟨rfl,rfl,rfl⟩,fun admitted => admitted.elim⟩

theorem writerStep_moved {next : State} {task : Nat} {pc : WriterPc} {action : WriterStep}
    (taken : writerStep state task pc action = some next) : ∃ after, Moved state next task pc after := by
  unfold writerStep at taken
  split at taken
  case h_1 | h_4 | h_12 =>
    cases taken
    exact ⟨_,moved_move state task _ _ id (by simp) (fun admitted => admitted.elim)⟩
  case h_2 =>
    split at taken
    · cases taken
      exact ⟨_,moved_leave state task id id⟩
    · next unbarred =>
      cases taken
      exact ⟨_,moved_move state task _ _ id (by simp) (fun _ => .inr unbarred)⟩
  case h_3 =>
    split at taken
    · cases taken
    · cases taken
      exact ⟨_,moved_move state task _ _ id (by simp) (fun admitted => admitted.elim)⟩
  case h_5 =>
    cases taken
    exact ⟨_,moved_move state task _ _ id (fun lower dirty equal => .inl (by cases equal; rfl)) (fun _ => .inl trivial)⟩
  case h_6 =>
    cases taken
    exact ⟨_,moved_leave state task id id⟩
  case h_7 lower dirty pos data =>
    split at taken
    · cases taken
      exact ⟨_,moved_write state task lower dirty⟩
    · cases taken
  case h_8 lower dirty pos data =>
    cases taken
    exact ⟨_,moved_stage state task lower dirty pos data⟩
  case h_9 lower pos data =>
    cases taken
    exact ⟨_,moved_unpersisted state task lower pos data⟩
  case h_10 lower dirty =>
    cases taken
    exact ⟨_,moved_leave state task (by cases dirty <;> exact id) (by cases dirty <;> exact id)⟩
  case h_11 =>
    cases taken
    exact ⟨_,moved_count state task⟩
  case h_13 => cases taken

theorem arrive_recorded : Recorded state {state with writers := state.writers ++ [.entering]} where
  mover := rfl
  movementState := rfl
  onSource := fun onSource => ⟨onSource.1,fun lower dirty member => onSource.2 lower dirty (by simpa using member)⟩
  counted := Nat.le_refl _
  kept := fun seq _ changed => changed.imp id (fun ⟨pc,member,pending⟩ => ⟨pc,List.mem_append_left _ member,pending⟩)
  data := .inl ⟨rfl,rfl,rfl⟩
  fenced := fun _ fenced => fenced.arrive .entering id
  drained := by
    rintro ⟨barred,stopped⟩
    refine ⟨barred,fun pc member => ?_⟩
    rcases List.mem_append.mp member with earlier | fresh
    · exact stopped pc earlier
    · rw [List.mem_singleton.mp fresh]
      exact id
  still := fun _ _ => ⟨rfl,rfl,rfl⟩

variable (count : Nat)

theorem stagingDrain_empty (empty : state.staged = []) : stagingDrain state count = state := by
  obtain ⟨movementState,writeSeq,lowerPath,source,destination,staged,writers,grace,mover⟩ := state
  cases empty
  cases lowerPath <;> simp [stagingDrain,drainRanges,State.setContent,State.content]

theorem stagingDrain_frame :
    (stagingDrain state count).mover = state.mover ∧ (stagingDrain state count).movementState = state.movementState ∧
      (stagingDrain state count).lowerPath = state.lowerPath ∧ (stagingDrain state count).writers = state.writers ∧
      (stagingDrain state count).grace = state.grace ∧ (stagingDrain state count).writeSeq = state.writeSeq := by
  unfold stagingDrain State.setContent
  cases state.lowerPath <;> dsimp only <;> split <;> simp

theorem stagingDrain_recorded : Recorded state (stagingDrain state count) := by
  obtain ⟨mover,movementState,lowerPath,writers,grace,writeSeq⟩ := stagingDrain_frame state count
  refine ⟨mover,movementState,?_,Nat.le_of_eq writeSeq.symm,?_,?_,?_,?_,?_⟩
  · rintro ⟨current,chosen⟩
    exact ⟨by rw [lowerPath,current],by rw [writers]; exact chosen⟩
  · intro seq _ changed
    rw [Changed,writers,writeSeq]
    exact changed
  · by_cases empty : state.staged = []
    · rw [stagingDrain_empty state count empty]
      exact .inl ⟨rfl,rfl,rfl⟩
    · exact .inr (.inr empty)
  · intro _ fenced
    rw [writers,grace]
    exact fenced
  · rintro ⟨barred,stopped⟩
    exact ⟨by rw [Barred,movementState]; exact barred,by rw [writers]; exact stopped⟩
  · intro _ empty
    rw [stagingDrain_empty state count empty]
    exact ⟨rfl,rfl,rfl⟩

/-- The recheck of `write_seq` is not taken while a call that wrote has left its SRCU section and
not yet counted itself. -/
def NoUncountedWriter (state : State) (label : Label) : Prop :=
  label = .mover .recheck → ∀ pc ∈ state.writers, pc ≠ .left true

instance (state : State) (label : Label) : Decidable (NoUncountedWriter state label) :=
  inferInstanceAs (Decidable (label = .mover .recheck → ∀ pc ∈ state.writers, pc ≠ .left true))

theorem changed_drained {seq : Nat} {state : State} (drained : Drained state)
    (counted : ∀ pc ∈ state.writers, pc ≠ .left true) (same : state.writeSeq = seq) : ¬ Changed seq state := by
  rintro (later | ⟨pc,member,pending⟩)
  · omega
  -- behind a finished grace period only a writer that left can be uncounted
  cases pc with
  | writing lower dirty => exact drained.2 _ member trivial
  | left dirty =>
    cases dirty with
    | true => exact counted _ member rfl
    | false => exact pending
  | entering | locked | parked | checked | returned => exact pending

theorem tracked_same {state : State} (tracked : Tracked seq state)
    (lowerPath : next.lowerPath = state.lowerPath) (writers : next.writers = state.writers)
    (writeSeq : next.writeSeq = state.writeSeq) (staged : next.staged = state.staged) : Tracked seq next := by
  obtain ⟨⟨current,chosen⟩,monotone,pending⟩ := tracked
  refine ⟨⟨by rw [lowerPath,current],by rw [writers]; exact chosen⟩,by rw [writeSeq]; exact monotone,?_⟩
  rw [staged,Changed,writers,writeSeq]
  exact pending

theorem moverStep_invariant {next : State} {action : MoverStep} (holds : Invariant state)
    (guarded : NoUncountedWriter state (.mover action)) (taken : moverStep state action = some next) : Invariant next := by
  unfold moverStep at taken
  split at taken
  case h_1 position =>
    rw [Invariant,position] at holds
    split at taken
    · next clean =>
      cases taken
      exact ⟨holds,Nat.le_refl _,fun pending => absurd clean.2 pending⟩
    · cases taken
      trivial
  case h_2 position | h_3 position | h_4 position =>
    rw [Invariant,position] at holds
    cases taken
    exact tracked_same holds rfl rfl rfl rfl
  case h_5 position =>
    rw [Invariant,position] at holds
    split at taken
    · cases taken
      exact tracked_same holds rfl rfl rfl rfl
    · cases taken
      trivial
  case h_6 position =>
    rw [Invariant,position] at holds
    split at taken
    · next equal =>
      cases taken
      exact ⟨tracked_same holds rfl rfl rfl rfl,.inl equal⟩
    · cases taken
      trivial
  case h_7 position =>
    rw [Invariant,position] at holds
    split at taken
    · cases taken
      exact ⟨tracked_same holds.1 rfl rfl rfl rfl,holds.2⟩
    · cases taken
      trivial
  case h_8 position =>
    rw [Invariant,position] at holds
    split at taken
    · cases taken
      exact ⟨tracked_same holds.1 rfl rfl rfl rfl,holds.2,rfl⟩
    · cases taken
      trivial
  case h_9 position =>
    rw [Invariant,position] at holds
    obtain ⟨tracked,agrees,barred⟩ := holds
    cases taken
    refine ⟨tracked_same tracked rfl rfl rfl rfl,agrees,barred,?_⟩
    apply Srcu.fenced_inside
    intro pc admitted
    cases pc <;> first | rfl | exact admitted.elim
  case h_10 position =>
    rw [Invariant,position] at holds
    obtain ⟨tracked,agrees,barred,fenced⟩ := holds
    split at taken
    · next finished =>
      cases taken
      rw [finished] at fenced
      exact ⟨tracked_same tracked rfl rfl rfl rfl,agrees,barred,fenced.drained⟩
    · cases taken
  case h_11 | h_13 =>
    cases taken
    trivial
  case h_12 seq position =>
    rw [Invariant,position] at holds
    obtain ⟨tracked,agrees,drained⟩ := holds
    split at taken
    · next same =>
      cases taken
      have unchanged := changed_drained drained (guarded rfl) same.2
      have empty : state.staged = [] := by
        by_contra pending
        exact unchanged (tracked.stagedChanged pending)
      exact ⟨tracked.onSource,drained,empty,agrees.resolve_right unchanged⟩
    · cases taken
      trivial
  case h_14 =>
    split at taken
    · cases taken
      trivial
    · cases taken
      trivial
  case h_15 => cases taken

theorem step_invariant (label : Label) (next : State) (holds : Invariant state)
    (guarded : NoUncountedWriter state label) (taken : step state label = some next) : Invariant next := by
  cases label with
  | arrive =>
    cases taken
    exact (arrive_recorded state).invariant holds
  | writer task action =>
    obtain ⟨pc,found,moved⟩ := Option.bind_eq_some_iff.mp taken
    obtain ⟨after,moved⟩ := writerStep_moved state moved
    exact (moved.recorded found).invariant holds
  | stagingDrain count =>
    cases taken
    exact (stagingDrain_recorded state count).invariant holds
  | mover action => exact moverStep_invariant state holds guarded taken

theorem quiet_invariant (quiet : Quiet state) : Invariant state := by
  rw [Invariant,quiet.idle]
  exact ⟨quiet.onSource,by simp [quiet.noWriters]⟩

theorem swap_equal {before after : State} (holds : Invariant before)
    (taken : step before (.mover .swap) = some after) (switched : after.mover = .switched) :
    after.destination = after.source := by
  change moverStep before .swap = some after at taken
  unfold moverStep at taken
  split at taken <;> first | contradiction | skip
  next position _ =>
  rw [Invariant,position] at holds
  obtain ⟨_,_,_,equal⟩ := holds
  split at taken
  · cases taken
    cases switched
  · cases taken
    exact equal.symm

/-- A swap publishes exactly the source's content. -/
theorem swap_keeps_writes (start : State) (labels : List Label) (quiet : Quiet start)
    (guarded : Guarded step NoUncountedWriter start labels) : SwapKeepsWrites start labels := by
  intro before after reached taken switched
  have holds := invariant step NoUncountedWriter Invariant step_invariant start before labels
    (quiet_invariant start quiet) guarded reached
  exact swap_equal holds taken switched

def untouched : State where
  movementState := .placed
  writeSeq := 0
  lowerPath := .source
  source := [0]
  destination := []
  staged := []
  writers := []
  grace := []
  mover := .idle

theorem untouched_quiet : Quiet untouched :=
  ⟨rfl,rfl,rfl,rfl,rfl⟩

def writeAndLeave (task : Nat) : List Label :=
  [.arrive,.writer task .lock,.writer task .check,.writer task (.lowerFile true),
    .writer task (.writeLower 0 [1]),.writer task .unlock]

def moveUntilVerified : List Label :=
  [.mover .inspect,.mover .plan,.mover .openDestination,.mover (.copyChunk 1),.mover .copyDone,.mover .verify]

def cutoverUntilRecheck : List Label :=
  [.mover .inspectAgain,.mover .setInProgress,.mover .drainStart,.mover .drainDone,.mover .recheck]

def countedMove : List Label :=
  writeAndLeave 0 ++ [.writer 0 .noteDataChange] ++ moveUntilVerified ++ cutoverUntilRecheck

theorem swap_keeps_counted_write :
    Guarded step NoUncountedWriter untouched countedMove ∧ SwapKeepsWrites untouched countedMove ∧
      ((run step untouched countedMove).bind (step · (.mover .swap))).map (·.mover) = some .switched := by
  have guarded : Guarded step NoUncountedWriter untouched countedMove := by decide
  exact ⟨guarded,swap_keeps_writes untouched countedMove untouched_quiet guarded,by decide⟩

/-- The call has left the SRCU section without counting itself when the cutover rechecks
`write_seq`. -/
def uncountedMove : List Label :=
  moveUntilVerified ++ writeAndLeave 0 ++ cutoverUntilRecheck

theorem swap_loses_uncounted_write : Quiet untouched ∧ ¬ SwapKeepsWrites untouched uncountedMove := by
  refine ⟨untouched_quiet,fun kept => ?_⟩
  have equal := kept _ _ rfl rfl rfl
  exact absurd equal (by decide)

end Smoothfs.WriteBarrier
