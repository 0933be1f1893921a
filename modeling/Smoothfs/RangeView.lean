import Smoothfs.RangeStaging

/-! What a file under range staging looks like to `read_iter`, and what each call
does to that view. -/
namespace Smoothfs.RangeStaging

open Content Extents

variable {α : Type} [Zero α]

def merged (state : State α) (index : Nat) : α :=
  overlay state.ranges (state.stage.getD []) state.lower index

def view (state : State α) : List α :=
  if state.rangeStaged then tabulate state.size (merged state) else state.lower

structure Based (state : State α) : Prop where
  some : 0 < state.pool.ntiers
  tier : state.tier = state.pool.ntiers - 1
  active : state.drainMask.testBit state.tier = true
  source : state.rangeStaged = true → state.sourceTier = state.tier

/-- The ranges are in order, there are none unless the inode is staged, and the
stage file holds all of them. -/
structure Shape (state : State α) : Prop where
  separated : Separated state.ranges
  unstaged : state.rangeStaged = false → state.ranges = []
  staged : state.rangeStaged = true → state.stagePath = true ∧ bound state.ranges ≤ (state.stage.getD []).length
  cache : state.pool.cacheMode = true → Based state

def Sized (state : State α) : Prop :=
  state.rangeStaged = true → state.size = max state.lower.length (bound state.ranges)

section Drain

variable (stage lower : List α)

theorem write_chunk (pos count budget index : Nat) :
    fetch (write lower pos ((window stage pos count).take budget)) index = fetch lower index ∨
      pos ≤ index ∧ index < pos + count ∧
        fetch (write lower pos ((window stage pos count).take budget)) index = fetch stage index := by
  rw [fetch_write]
  split
  · next inside =>
    right
    obtain ⟨behind,before⟩ := inside
    simp only [List.length_take,length_window] at before
    refine ⟨behind,by omega,?_⟩
    rw [fetch_take,if_pos (by omega),fetch_window,if_pos (by omega)]
    congr 1
    omega
  · exact .inl rfl

theorem length_write_chunk (pos count budget : Nat) :
    lower.length ≤ (write lower pos ((window stage pos count).take budget)).length ∧
      (write lower pos ((window stage pos count).take budget)).length ≤ max lower.length (pos + count) := by
  rw [length_write]
  simp only [List.length_take,length_window]
  split <;> omega

theorem drainRange_copied (stop fuel pos budget : Nat) :
    lower.length ≤ (drainRange stage stop fuel pos (budget,lower)).2.length ∧
      (drainRange stage stop fuel pos (budget,lower)).2.length ≤ max lower.length stop ∧
      ∀ index, fetch (drainRange stage stop fuel pos (budget,lower)).2 index = fetch lower index ∨
        pos ≤ index ∧ index < stop ∧ fetch (drainRange stage stop fuel pos (budget,lower)).2 index = fetch stage index := by
  induction fuel generalizing pos budget lower with
  | zero => exact ⟨Nat.le_refl _,Nat.le_max_left _ _,fun index => .inl rfl⟩
  | succ fuel ih =>
    unfold drainRange
    split
    · dsimp only
      generalize chunk : min rangeReadChunk (stop - pos) = count
      have grown := length_write_chunk stage lower pos count budget
      have copied := write_chunk stage lower pos count budget
      obtain ⟨lengths,limit,bytes⟩ := ih (write lower pos ((window stage pos count).take budget))
        (pos + (window stage pos count).length) (budget - (window stage pos count).length)
      refine ⟨by omega,by omega,fun index => ?_⟩
      rcases bytes index with same | ⟨behind,before,staged⟩
      · rw [same]
        rcases copied index with same | ⟨behind,before,staged⟩
        · exact .inl same
        · exact .inr ⟨behind,by omega,staged⟩
      · exact .inr ⟨by omega,before,staged⟩
    · exact ⟨Nat.le_refl _,Nat.le_max_left _ _,fun index => .inl rfl⟩

theorem drainRange_settled (stop fuel pos budget : Nat) (held : stop ≤ stage.length)
    (enough : stop - pos ≤ fuel) (room : stop - pos ≤ budget) :
    (drainRange stage stop fuel pos (budget,lower)).1 = budget - (stop - pos) ∧
      (pos < stop → stop ≤ (drainRange stage stop fuel pos (budget,lower)).2.length) ∧
      ∀ index, pos ≤ index → index < stop → fetch (drainRange stage stop fuel pos (budget,lower)).2 index = fetch stage index := by
  induction fuel generalizing pos budget lower with
  | zero =>
    refine ⟨?_,by omega,fun index behind before => by omega⟩
    change budget = _
    omega
  | succ fuel ih =>
    unfold drainRange
    split
    · have positive : 0 < rangeReadChunk := by decide
      dsimp only
      generalize size : min rangeReadChunk (stop - pos) = count
      have chunk : (window stage pos count).length = count := by
        rw [length_window]
        omega
      have length := length_write lower pos (window stage pos count)
      rw [if_neg (List.length_pos_iff.mp (by omega))] at length
      rw [chunk,List.take_of_length_le (by omega)]
      generalize written : write lower pos (window stage pos count) = filled at length ⊢
      have grown := drainRange_copied stage filled stop fuel (pos + count) (budget - count)
      obtain ⟨left,reached,later⟩ := ih filled (pos + count) (budget - count) (by omega) (by omega)
      refine ⟨by omega,fun _ => ?_,fun index behind before => ?_⟩
      · by_cases more : pos + count < stop
        · exact reached more
        · omega
      · by_cases more : pos + count ≤ index
        · exact later index more before
        · -- a byte of this chunk: the later chunks lie behind it
          rcases grown.2.2 index with same | ⟨beyond,_,_⟩
          · rw [same,← written,fetch_write,if_pos ⟨behind,by omega⟩,fetch_window,if_pos (by omega)]
            congr 1
            omega
          · omega
    · refine ⟨?_,by omega,fun index behind before => by omega⟩
      omega

theorem drainRanges_cons (range : Extent) (rest : List Extent) (budget : Nat) (lower : List α) :
    drainRanges stage (range::rest) budget lower =
      drainRanges stage rest (drainRange stage range.stop (range.stop - range.start) range.start (budget,lower)).1
        (drainRange stage range.stop (range.stop - range.start) range.start (budget,lower)).2 := rfl

variable (ranges : List Extent)

theorem drainRanges_copied (separated : Separated ranges) (budget : Nat) (lower : List α) :
    Copied ranges stage lower (drainRanges stage ranges budget lower).2 := by
  induction ranges generalizing budget lower with
  | nil => exact ⟨Nat.le_refl _,Nat.le_max_left _ _,fun index => .inl rfl⟩
  | cons range rest ih =>
    have first := drainRange_copied stage lower range.stop (range.stop - range.start) range.start budget
    have later := fun budget lower => ih ((separated_cons _ _).mp separated).2.2 budget lower
    have last := bound_cons range rest separated
    rw [drainRanges_cons]
    generalize drainRange stage range.stop (range.stop - range.start) range.start (budget,lower) = reached at first ⊢
    have done := later reached.1 reached.2
    constructor
    · exact Nat.le_trans first.1 done.grown
    · have limit := done.limit
      omega
    · intro index
      rw [covers_cons]
      rcases done.bytes index with same | ⟨covered,staged⟩
      · rw [same]
        rcases first.2.2 index with same | ⟨behind,before,staged⟩
        · exact .inl same
        · exact .inr ⟨by rw [(holds_iff range index).mpr ⟨behind,before⟩,Bool.true_or],staged⟩
      · exact .inr ⟨by rw [covered,Bool.or_true],staged⟩

theorem drainRanges_settled (separated : Separated ranges) (held : bound ranges ≤ stage.length)
    (budget : Nat) (room : total ranges ≤ budget) (lower : List α) :
    Settled ranges stage lower (drainRanges stage ranges budget lower).2 := by
  induction ranges generalizing budget lower with
  | nil => exact ⟨by simp [drainRanges,bound],fun index => rfl⟩
  | cons range rest ih =>
    obtain ⟨proper,gap,later⟩ := (separated_cons _ _).mp separated
    have last := bound_cons range rest separated
    rw [total_cons] at room
    have copied := drainRange_copied stage lower range.stop (range.stop - range.start) range.start budget
    obtain ⟨left,reached,bytes⟩ := drainRange_settled stage lower range.stop (range.stop - range.start) range.start budget
      (by omega) (Nat.le_refl _) (by omega)
    rw [drainRanges_cons]
    generalize drainRange stage range.stop (range.stop - range.start) range.start (budget,lower) = first at *
    have done := ih later (by omega) first.1 (by omega) first.2
    constructor
    · rw [done.size]
      omega
    · intro index
      rw [done.bytes index,overlay,overlay,covers_cons]
      by_cases covered : covers rest index = true
      · rw [covered,Bool.or_true,if_pos rfl,if_pos rfl]
      rw [Bool.not_eq_true] at covered
      rw [covered,Bool.or_false,if_neg Bool.false_ne_true]
      split
      · next own =>
        obtain ⟨behind,before⟩ := (holds_iff range index).mp own
        exact bytes index behind before
      next apart =>
      rcases copied.2.2 index with same | ⟨behind,before,_⟩
      · exact same
      · exact absurd ((holds_iff range index).mpr ⟨behind,before⟩) apart

theorem readable_held {length : Nat} (separated : Separated ranges) (held : bound ranges ≤ length) :
    readable length ranges = total ranges := by
  induction ranges with
  | nil => rfl
  | cons range rest ih =>
    rw [bound_cons range rest separated] at held
    rw [readable,if_pos (by omega),total_cons,ih ((separated_cons _ _).mp separated).2.2 (by omega)]

inductive Drained (state : State α) (answer : DrainAnswer) : State α × Option Errno → Prop
  | idle (nothing : state.rangeStaged = false ∨ drainTierActive state state.sourceTier = false) : Drained state answer (state,none)
  | failed (lower : List α) (errno : Errno) (staged : state.rangeStaged = true) (stopped : answer.stop ≠ none)
      (copied : Copied state.ranges (state.stage.getD []) state.lower lower) :
      Drained state answer ({state with lower := lower},some errno)
  | finished (lower : List α) (staged : state.rangeStaged = true) (fine : answer.stop = none)
      (settled : Settled state.ranges (state.stage.getD []) state.lower lower) :
      Drained state answer (cleared {state with lower := lower} answer,answer.unlink)

theorem drainOneRange_drained (state : State α) (shape : Shape state) (answer : DrainAnswer) :
    Drained state answer (drainOneRange state answer) := by
  unfold drainOneRange
  split
  · next nothing =>
    apply Drained.idle
    simpa using nothing
  next busy =>
  have staged : state.rangeStaged = true := by
    by_contra absent
    exact busy (.inl absent)
  obtain ⟨path,held⟩ := shape.staged staged
  have whole := readable_held state.ranges shape.separated held
  rw [if_neg (by simpa using path)]
  dsimp only
  rw [whole]
  split
  · next budget errno stopped =>
    refine .failed _ errno staged ?_ (drainRanges_copied _ _ shape.separated _ _)
    intro absent
    simp [absent] at stopped
  · next fine =>
    refine .finished _ staged (by simpa using fine) (drainRanges_settled _ _ shape.separated held _ (Nat.le_refl _) _)

variable {state : State α} {answer : DrainAnswer} {result : State α × Option Errno}

theorem Shape.drained (shape : Shape state) (drained : Drained state answer result) : Shape result.1 := by
  cases drained with
  | idle _ => exact shape
  | failed lower errno staged stopped copied =>
    exact {shape with cache := fun cache => {shape.cache cache with}}
  | finished lower staged fine settled =>
    exact ⟨separated_nil,fun _ => rfl,by simp [cleared],fun cache => ⟨(shape.cache cache).some,(shape.cache cache).tier,
      (shape.cache cache).active,by simp [cleared]⟩⟩

theorem Sized.drained (sized : Sized state) (drained : Drained state answer result) : Sized result.1 := by
  cases drained with
  | idle _ => exact sized
  | failed lower errno staged stopped copied =>
    intro _
    have size := sized staged
    have grown := copied.grown
    have limit := copied.limit
    change state.size = max lower.length (bound state.ranges)
    omega
  | finished lower staged fine settled => simp [Sized,cleared]

theorem Drained.fine (drained : Drained state answer result)
    (unstopped : answer.stop = none) (unlinked : answer.unlink = none) : result.2 = none := by
  cases drained with
  | idle _ => rfl
  | failed _ _ _ stopped _ => exact absurd unstopped stopped
  | finished _ _ _ _ => exact unlinked

theorem Drained.view (sized : Sized state) (drained : Drained state answer result) : view result.1 = view state := by
  cases drained with
  | idle _ => rfl
  | failed lower errno staged stopped copied =>
    unfold RangeStaging.view
    rw [if_pos staged,if_pos staged]
    congr 1
    funext index
    exact copied.overlay index
  | finished lower staged fine settled =>
    unfold RangeStaging.view
    rw [if_pos staged]
    change lower = tabulate state.size (merged state)
    apply ext_fetch
    · rw [length_tabulate,settled.size,sized staged]
    intro index inside
    rw [length_tabulate] at inside
    rw [fetch_tabulate,if_pos inside]
    exact settled.bytes index

end Drain

section Read

theorem overlayLocked_spec {stage : List α} (pos : Nat) {ranges : List Extent} (separated : Separated ranges)
    (held : bound ranges ≤ stage.length) (buf : List α) :
    (overlayLocked stage pos ranges buf).length = buf.length ∧
      ∀ index, index < buf.length → fetch (overlayLocked stage pos ranges buf) index =
        if covers ranges (pos + index) then fetch stage (pos + index) else fetch buf index := by
  induction ranges generalizing buf with
  | nil => exact ⟨rfl,fun index inside => rfl⟩
  | cons range rest ih =>
    obtain ⟨proper,gap,later⟩ := (separated_cons _ _).mp separated
    rw [bound_cons range rest separated] at held
    unfold overlayLocked
    split
    · next past =>
      refine ⟨rfl,fun index inside => ?_⟩
      rw [covers_past rest separated past (by omega),if_neg Bool.false_ne_true]
    split
    · obtain ⟨length,bytes⟩ := ih later (by omega) buf
      refine ⟨length,fun index inside => ?_⟩
      have apart : range.holds (pos + index) = false := by
        rw [← Bool.not_eq_true,holds_iff]
        omega
      rw [bytes index inside,covers_cons,apart,Bool.false_or]
    · dsimp only
      generalize from_ : max range.start pos = start
      generalize upto : min range.stop (pos + buf.length) = stop
      have chunk : (window stage start (stop - start)).length = stop - start := by
        rw [length_window]
        omega
      have kept : (write buf (start - pos) (window stage start (stop - start))).length = buf.length := by
        rw [length_write]
        split <;> omega
      obtain ⟨length,bytes⟩ := ih later (by omega) (write buf (start - pos) (window stage start (stop - start)))
      refine ⟨by rw [length,kept],fun index inside => ?_⟩
      rw [bytes index (by omega),covers_cons]
      by_cases covered : covers rest (pos + index) = true
      · rw [covered,Bool.or_true,if_pos rfl,if_pos rfl]
      rw [Bool.not_eq_true] at covered
      rw [covered,Bool.or_false,if_neg Bool.false_ne_true,fetch_write]
      by_cases own : range.holds (pos + index) = true
      · obtain ⟨behind,before⟩ := (holds_iff range (pos + index)).mp own
        rw [if_pos own,if_pos (by omega),fetch_window,if_pos (by omega)]
        congr 1
        omega
      · have apart := mt (holds_iff range (pos + index)).mpr own
        rw [if_neg own,if_neg (by omega)]

variable (state : State α)

theorem mergedChunk_spec (separated : Separated state.ranges)
    (held : bound state.ranges ≤ (state.stage.getD []).length) (pos avail : Nat) :
    (mergedChunk state pos avail).length = avail ∧
      ∀ index, index < avail → fetch (mergedChunk state pos avail) index = merged state (pos + index) := by
  obtain ⟨length,bytes⟩ := overlayLocked_spec pos separated held
    (resize (window state.lower pos avail) avail)
  rw [length_resize] at length bytes
  refine ⟨length,fun index inside => ?_⟩
  rw [mergedChunk,bytes index inside,fetch_resize,if_pos inside,fetch_window,if_pos inside]
  rfl

theorem rangeStageReadIter_window (separated : Separated state.ranges)
    (held : bound state.ranges ≤ (state.stage.getD []).length) (staged : state.rangeStaged = true) (fuel pos count : Nat)
    (enough : count ≤ fuel) : rangeStageReadIter state fuel pos count = window (view state) pos count := by
  have whole : view state = tabulate state.size (merged state) := if_pos staged
  induction fuel generalizing pos count with
  | zero =>
    obtain rfl := Nat.le_zero.mp enough
    simp [rangeStageReadIter,window]
  | succ fuel ih =>
    unfold rangeStageReadIter
    split
    · have positive : 0 < rangeReadChunk := by decide
      dsimp only
      generalize chunk : min (min count rangeReadChunk) (state.size - pos) = avail
      obtain ⟨length,bytes⟩ := mergedChunk_spec state separated held pos avail
      rw [ih (pos + avail) (count - avail) (by omega),window_split (view state) pos avail count (by omega)]
      congr 1
      apply ext_fetch
      · rw [length_window,whole,length_tabulate]
        omega
      · intro index inside
        rw [length_window,whole,length_tabulate] at inside
        rw [bytes index (by omega),fetch_window,if_pos (by omega),whole,fetch_tabulate,if_pos (by omega)]
    · symm
      rw [window,List.take_eq_nil_iff,List.drop_eq_nil_iff,whole,length_tabulate]
      omega

theorem readIter_window (shape : Shape state) (pos count : Nat) (keep : Bool)
    (uncached : state.rangeStaged = true ∨ ¬ (state.pool.cacheMode = true ∧ state.tier = state.pool.ntiers - 1)) :
    readIter state pos count keep = (state,window (view state) pos count) := by
  unfold readIter
  split
  · next staged => rw [rangeStageReadIter_window state shape.separated (shape.staged staged).2 staged count pos count (Nat.le_refl _)]
  · next unstaged =>
    rw [if_neg (uncached.resolve_left unstaged),view,if_neg unstaged]

end Read

variable {call : WriteCall α}

section Write

inductive Quiet (state : State α) : State α → Prop
  | refl : Quiet state state
  | opened {after : State α} (quiet : Quiet state after) : Quiet state (opened after)
  | drained {after : State α} (answer : DrainAnswer) (quiet : Quiet state after) : Quiet state (drainOneRange after answer).1

variable {state after : State α} {p : State α → Prop}

theorem Quiet.keeps (quiet : Quiet state after) (opens : ∀ state, p state → p (RangeStaging.opened state))
    (drains : ∀ state answer, p state → p (drainOneRange state answer).1) (initial : p state) : p after := by
  induction quiet with
  | refl => exact initial
  | opened _ ih => exact opens _ ih
  | drained answer _ ih => exact drains _ answer ih

omit [Zero α] in
theorem Shape.opened (shape : Shape state) : Shape (opened state) where
  separated := shape.separated
  unstaged := shape.unstaged
  staged := fun staged => ⟨rfl,(shape.staged staged).2⟩
  cache := fun cache => {shape.cache cache with}

theorem Shape.quiet (shape : Shape state) (quiet : Quiet state after) : Shape after :=
  quiet.keeps (fun _ => Shape.opened) (fun state answer shape => shape.drained (drainOneRange_drained state shape answer)) shape

def Current (state : State α) : Prop :=
  state.size = max state.lower.length (bound state.ranges)

instance (state : State α) : Decidable (Current state) :=
  inferInstanceAs (Decidable (_ = _))

theorem Current.drained {answer : DrainAnswer} {result : State α × Option Errno} (current : Current state)
    (drained : Drained state answer result) : Current result.1 := by
  unfold Current at current ⊢
  cases drained with
  | idle _ => exact current
  | failed lower errno staged stopped copied =>
    have grown := copied.grown
    have limit := copied.limit
    change state.size = max lower.length (bound state.ranges)
    omega
  | finished lower staged fine settled =>
    change state.size = max lower.length 0
    rw [settled.size]
    omega

theorem Quiet.kept (quiet : Quiet state after) (shape : Shape state) (opens : ∀ state, p state → p (RangeStaging.opened state))
    (drains : ∀ state answer result, p state → Drained state answer result → p result.1) (initial : p state) : p after := by
  refine (quiet.keeps (p := fun state => Shape state ∧ p state) ?_ ?_ ⟨shape,initial⟩).2
  · intro state both
    exact ⟨both.1.opened,opens state both.2⟩
  · intro state answer both
    have drained := drainOneRange_drained state both.1 answer
    exact ⟨both.1.drained drained,drains state answer _ both.2 drained⟩

theorem Current.quiet (current : Current state) (shape : Shape state) (quiet : Quiet state after) : Current after :=
  quiet.kept shape (fun _ => id) (fun _ _ _ current => current.drained) current

theorem Sized.quiet (sized : Sized state) (shape : Shape state) (quiet : Quiet state after) : Sized after :=
  quiet.kept shape (fun _ => id) (fun _ _ _ sized => sized.drained) sized

theorem view_quiet (sized : Sized state) (shape : Shape state) (quiet : Quiet state after) : view after = view state := by
  refine (quiet.kept (p := fun after => Sized after ∧ view after = view state) shape (fun _ => id) ?_ ⟨sized,rfl⟩).2
  intro later answer result both drained
  exact ⟨both.1.drained drained,(drained.view both.1).trans both.2⟩

def SyncFails (call : WriteCall α) (answer : WriteAnswer) : Prop :=
  call.sync = true ∧ ¬ (answer.syncDrain.stop = none ∧ answer.syncDrain.unlink = none ∧ answer.fsync = none)

instance (call : WriteCall α) (answer : WriteAnswer) : Decidable (SyncFails call answer) :=
  inferInstanceAs (Decidable (_ ∧ _))

/-- The sidecar of a staged write cannot be written, or has too many ranges for a record. -/
def PersistFails (state : State α) (call : WriteCall α) (answer : WriteAnswer) : Prop :=
  answer.persist ≠ none ∨ ∃ data ∈ accepted call.data (stagePos state call) answer.stage |>.toOption,
    recMaxRanges < (rangeStageRecord state.ranges (stagePos state call) (stagePos state call + data.length)).length

instance (state : State α) (call : WriteCall α) (answer : WriteAnswer) : Decidable (PersistFails state call answer) :=
  inferInstanceAs (Decidable (_ ∨ _))

variable {data : List α}

omit [Zero α] in
theorem accepted_ok {taken : List α} {pos : Nat} {answer : Except Errno Nat} (ok : accepted data pos answer = .ok taken) :
    taken = data.take taken.length ∧ pos + taken.length ≤ maxBytes := by
  unfold accepted at ok
  split at ok
  · cases ok
  split at ok
  · cases ok
  cases ok
  refine ⟨?_,by omega⟩
  rw [List.length_take,List.take_eq_take_min]

def RecordedAs (state : State α) (answer : WriteAnswer) (sidecar : Option Bytes) : Prop :=
  sidecar = some (Sidecar.encode ⟨state.sourceTier,answer.now,state.ranges⟩) ∧ state.ranges.length ≤ recMaxRanges

inductive Written (state : State α) (call : WriteCall α) (answer : WriteAnswer) : State α × Except Errno Nat → Prop
  | refused {after : State α} (errno : Errno) (quiet : Quiet state after) : Written state call answer (after,.error errno)
  | nothing {after : State α} (quiet : Quiet state after) : Written state call answer (after,.ok 0)
  | staged {after : State α} {result : Except Errno Nat} (data : List α) (sidecar : Option Bytes)
      (stages : shouldRangeStageWrite state call = true) (nonempty : data ≠ []) (first : data = call.data.take data.length)
      (fits : stagePos state call + data.length ≤ maxBytes)
      (quiet : Quiet (noteDataChange (withSidecar (stagedAt (opened state) (stagePos state call) data) sidecar)) after)
      (reply : result = .ok data.length ∨ state.pool.cacheMode = true ∧ (SyncFails call answer ∨ PersistFails state call answer))
      (record : PersistFails state call answer ∨ RecordedAs (stagedAt (opened state) (stagePos state call) data) answer sidecar) :
      Written state call answer (after,result)
  | through {begun after : State α} {result : Except Errno Nat} (data : List α) (before : Quiet state begun)
      (fell : shouldRangeStageWrite state call = true → state.pool.cacheMode = true)
      (unstaged : begun.rangeStaged = false) (nonempty : data ≠ []) (first : data = call.data.take data.length) (pos : Nat)
      (place : pos = if call.lowerAppend then begun.lower.length
        else if shouldRangeStageWrite state call then stagePos state call else call.pos)
      (quiet : Quiet (refreshSize (noteDataChange {begun with lower := write begun.lower pos data})) after)
      (reply : result = .ok data.length ∨ state.pool.cacheMode = true ∧ SyncFails call answer) :
      Written state call answer (after,result)

theorem afterWrite_spec (state : State α) (shape : Shape (refreshSize (noteDataChange state))) (call : WriteCall α) (answer : WriteAnswer)
    (count : Nat) :
    Quiet (refreshSize (noteDataChange state)) (afterWrite state call answer count).1 ∧
      ((afterWrite state call answer count).2 = .ok count ∨
        (refreshSize (noteDataChange state)).pool.cacheMode = true ∧ SyncFails call answer) := by
  unfold afterWrite
  dsimp only
  split
  · next synced =>
    have drained := drainOneRange_drained _ shape answer.syncDrain
    have quiet : Quiet (refreshSize (noteDataChange state)) _ := Quiet.refl.drained answer.syncDrain
    generalize result : drainOneRange (refreshSize (noteDataChange state)) answer.syncDrain = outcome at drained quiet
    obtain ⟨after,errno⟩ := outcome
    cases errno with
    | some errno =>
      refine ⟨quiet,.inr ⟨synced.1,synced.2,?_⟩⟩
      rintro ⟨unstopped,unlinked,_⟩
      cases drained.fine unstopped unlinked
    | none =>
      dsimp only
      split
      · next failed =>
        refine ⟨quiet,.inr ⟨synced.1,synced.2,?_⟩⟩
        rintro ⟨_,_,fine⟩
        rw [failed] at fine
        cases fine
      · exact ⟨quiet,.inl rfl⟩
  · exact ⟨.refl,.inl rfl⟩

omit [Zero α] in
theorem Shape.active (shape : Shape state) (cache : state.pool.cacheMode = true) (staged : state.rangeStaged = true) :
    drainTierActive state state.sourceTier = true := by
  have based := shape.cache cache
  have some := based.some
  have tier := based.tier
  rw [based.source staged]
  simp only [drainTierActive,StagingDrain.drainTierActive,decide_eq_true_eq]
  exact ⟨by omega,.inr based.active⟩

theorem drained_unstaged {state after : State α} (shape : Shape state) (cache : state.pool.cacheMode = true) {answer : DrainAnswer}
    (drained : drainOneRange state answer = (after,none)) : after.rangeStaged = false := by
  have outcome := drainOneRange_drained state shape answer
  rw [drained] at outcome
  generalize result : (after,(none : Option Errno)) = pair at outcome
  cases outcome with
  | idle nothing =>
    cases result
    rcases nothing with unstaged | inactive
    · exact unstaged
    · by_contra staged
      rw [shape.active cache (by simpa using staged)] at inactive
      cases inactive
  | failed _ _ _ _ _ => cases result
  | finished _ _ _ _ =>
    obtain ⟨rfl,_⟩ := Prod.mk.inj result
    rfl

theorem drained_pool (state : State α) (answer : DrainAnswer) : (drainOneRange state answer).1.pool = state.pool := by
  unfold drainOneRange
  split
  · rfl
  split
  · rfl
  · dsimp only
    split <;> rfl

theorem Quiet.pool (quiet : Quiet state after) : after.pool = state.pool :=
  quiet.keeps (p := fun after => after.pool = state.pool) (fun _ => id)
    (fun after answer same => (drained_pool after answer).trans same) rfl

omit [Zero α] in
theorem Shape.lowered (shape : Shape state) (unstaged : state.rangeStaged = false) (lower : List α) :
    Shape (refreshSize (noteDataChange {state with lower := lower})) := by
  rw [refreshSize,if_neg (by simp [noteDataChange,unstaged])]
  exact {shape with cache := fun cache => {shape.cache cache with}}

theorem written_through {state begun : State α} (answer : WriteAnswer) (shape : Shape state)
    (before : Quiet state begun) (fell : shouldRangeStageWrite state call = true → state.pool.cacheMode = true)
    (unstaged : begun.rangeStaged = false) {pos : Nat}
    (place : (if call.lowerAppend then begun.lower.length else pos) =
      if call.lowerAppend then begun.lower.length
      else if shouldRangeStageWrite state call then stagePos state call else call.pos) :
    Written state call answer
      (match lowerWrite begun pos call answer.lower with
      | (written,.error errno) => (written,.error errno)
      | (written,.ok 0) => (written,.ok 0)
      | (written,.ok (count+1)) => afterWrite written call answer (count + 1)) := by
  unfold lowerWrite
  dsimp only
  cases taken : accepted call.data (if call.lowerAppend then begun.lower.length else pos) answer.lower with
  | error errno => exact .refused errno before
  | ok data =>
    obtain ⟨first,_⟩ := accepted_ok taken
    cases data with
    | nil => exact .nothing before
    | cons byte rest =>
      have shaped := (shape.quiet before).lowered unstaged
        (write begun.lower (if call.lowerAppend then begun.lower.length else pos) (byte::rest))
      obtain ⟨quiet,reply⟩ := afterWrite_spec _ shaped call answer (rest.length + 1)
      refine .through (byte::rest) before fell unstaged (List.cons_ne_nil _ _) first _ place quiet ?_
      rcases reply with ok | ⟨cache,fails⟩
      · exact .inl ok
      refine .inr ⟨?_,fails⟩
      rw [refreshSize,if_neg (by simp [noteDataChange,unstaged])] at cache
      rw [← before.pool]
      exact cache

omit [Zero α] in
theorem rangeStageRecord_add (ranges : List Extent) (pos : Nat) (nonempty : data ≠ []) :
    rangeStageRecord ranges pos (pos + data.length) = add pos (pos + data.length) ranges := by
  have := List.length_pos_iff.mpr nonempty
  exact if_neg (by omega)

theorem covers_stagedAt {state : State α} (shape : Shape state) (pos : Nat) (nonempty : data ≠ []) (index : Nat) :
    covers (stagedAt state pos data).ranges index = (covers state.ranges index || (Extent.mk pos (pos + data.length)).holds index) := by
  have length := List.length_pos_iff.mpr nonempty
  change covers (rangeStageRecord state.ranges pos (pos + data.length)) index = _
  rw [rangeStageRecord_add _ _ nonempty,covers_add _ shape.separated.proper _ _ _ (by omega)]

theorem bound_stagedAt {state : State α} (shape : Shape state) (pos : Nat) (nonempty : data ≠ []) :
    bound (stagedAt state pos data).ranges = max (bound state.ranges) (pos + data.length) := by
  have length := List.length_pos_iff.mpr nonempty
  change bound (rangeStageRecord state.ranges pos (pos + data.length)) = _
  rw [rangeStageRecord_add _ _ nonempty,bound_add _ shape.separated _ _ (by omega)]

theorem Shape.stagedAt (shape : Shape state) (path : state.stagePath = true) (pos : Nat) (data : List α)
    (nonempty : data ≠ []) : Shape (stagedAt state pos data) := by
  have positive := List.length_pos_iff.mpr nonempty
  have held : bound state.ranges ≤ (state.stage.getD []).length := by
    cases staged : state.rangeStaged with
    | true => exact (shape.staged staged).2
    | false => simp [shape.unstaged staged,bound]
  have record := rangeStageRecord_add state.ranges pos nonempty
  constructor
  · change Separated (rangeStageRecord _ _ _)
    rw [record]
    exact separated_add _ shape.separated _ _ (by omega)
  · intro absent
    cases absent
  · intro _
    refine ⟨path,?_⟩
    change bound (rangeStageRecord _ _ _) ≤ (write _ _ _).length
    rw [record,bound_add _ shape.separated _ _ (by omega),length_write,if_neg nonempty]
    omega
  · intro cache
    exact {shape.cache cache with source := fun _ => rfl}

omit [Zero α] in
theorem Shape.persisted (shape : Shape state) (sidecar : Option Bytes) : Shape (withSidecar state sidecar) :=
  {shape with cache := fun cache => {shape.cache cache with}}

omit [Zero α] in
theorem Shape.noted (shape : Shape state) : Shape (noteDataChange state) :=
  {shape with cache := fun cache => {shape.cache cache with}}

omit [Zero α] in
theorem persist_spec (state : State α) (answer : WriteAnswer) :
    ∃ sidecar errno, persist state answer = (withSidecar state sidecar,errno) ∧
      (errno = none ∧ RecordedAs state answer sidecar ∨ answer.persist ≠ none ∨ recMaxRanges < state.ranges.length) := by
  unfold persist
  split
  · next many => exact ⟨state.sidecar,some .e2big,rfl,.inr (.inr many)⟩
  · next few =>
    split
    · next errno failed => exact ⟨state.sidecar,some errno,rfl,.inr (.inl (by simp [failed]))⟩
    · exact ⟨_,none,rfl,.inl ⟨rfl,rfl,Nat.le_of_not_lt few⟩⟩

inductive StageWritten (state : State α) (call : WriteCall α) (answer : WriteAnswer) : State α × Except Errno Nat × Nat → Prop
  | refused {after : State α} (errno : Errno) (open_ : after = state ∨ after = opened state) :
      StageWritten state call answer (after,.error errno,0)
  | nothing : StageWritten state call answer (opened state,.ok 0,0)
  | taken (data : List α) (sidecar : Option Bytes) (nonempty : data ≠ []) (first : data = call.data.take data.length)
      (fits : stagePos state call + data.length ≤ maxBytes)
      (record : PersistFails state call answer ∨ RecordedAs (stagedAt (opened state) (stagePos state call) data) answer sidecar) :
      StageWritten state call answer
        (withSidecar (stagedAt (opened state) (stagePos state call) data) sidecar,.ok data.length,data.length)
  | unpersisted (data : List α) (sidecar : Option Bytes) (errno : Errno) (nonempty : data ≠ [])
      (first : data = call.data.take data.length)
      (fits : stagePos state call + data.length ≤ maxBytes) (cache : state.pool.cacheMode = true)
      (fails : PersistFails state call answer) :
      StageWritten state call answer
        (noteDataChange (withSidecar (stagedAt (opened state) (stagePos state call) data) sidecar),.error errno,data.length)

theorem rangeStageWrite_written (state : State α) (call : WriteCall α) (answer : WriteAnswer) :
    StageWritten state call answer (rangeStageWrite state call answer) := by
  unfold rangeStageWrite
  dsimp only
  split
  · next errno _ => exact .refused errno (.inl rfl)
  split
  · next errno _ => exact .refused errno (.inr rfl)
  · exact .nothing
  next byte rest taken =>
  obtain ⟨first,fits⟩ := accepted_ok taken
  have nonempty : byte::rest ≠ [] := List.cons_ne_nil _ _
  obtain ⟨sidecar,errno,persisted,written⟩ := persist_spec (RangeStaging.stagedAt (opened state) (stagePos state call) (byte::rest)) answer
  have fails := written.imp_right fun failed : _ ∨ _ =>
    show PersistFails state call answer from failed.imp id fun many => ⟨byte::rest,by rw [taken]; rfl,many⟩
  rw [persisted]
  cases errno with
  | none => exact .taken (byte::rest) sidecar nonempty first fits (fails.symm.imp id And.right)
  | some errno =>
    have unwritten := fails.resolve_left (by simp)
    change StageWritten state call answer (if state.pool.cacheMode = true then _ else _)
    by_cases cache : state.pool.cacheMode = true
    · rw [if_pos cache]
      exact .unpersisted (byte::rest) sidecar errno nonempty first fits cache unwritten
    · rw [if_neg cache]
      exact .taken (byte::rest) sidecar nonempty first fits (.inl unwritten)

theorem writeIter_written {state : State α} (shape : Shape state) (call : WriteCall α) (answer : WriteAnswer) :
    Written state call answer (writeIter state call answer) := by
  unfold writeIter
  split
  · exact .refused .ebusy .refl
  by_cases stages : shouldRangeStageWrite state call = true
  · rw [if_pos stages]
    unfold stageOrFallBack
    have written := rangeStageWrite_written state call answer
    generalize rangeStageWrite state call answer = outcome at written ⊢
    cases written with
    | @refused after errno open_ =>
      have quiet : Quiet state after := by
        rcases open_ with rfl | rfl
        · exact Quiet.refl
        · exact Quiet.refl.opened
      dsimp only
      by_cases full : state.pool.cacheMode = true ∧ outOfSpace (.error errno) = true ∧ 0 = 0
      · rw [if_pos full]
        have later := quiet.drained answer.drain
        cases drained : drainOneRange after answer.drain with
        | mk begun errno =>
          rw [drained] at later
          cases errno with
          | some errno => exact .refused errno later
          | none =>
            have unstaged := drained_unstaged (shape.quiet quiet) (by rw [quiet.pool]; exact full.1) drained
            exact written_through answer shape later (fun _ => full.1) unstaged (by simp [stages])
      · rw [if_neg full]
        exact .refused errno quiet
    | nothing =>
      dsimp only
      rw [if_neg (by simp [outOfSpace])]
      exact .nothing Quiet.refl.opened
    | taken data sidecar nonempty first fits record =>
      dsimp only
      rw [if_neg (by simp [outOfSpace])]
      have shaped := ((shape.opened.stagedAt rfl (stagePos state call) data nonempty).persisted sidecar).noted
      obtain ⟨quiet,reply⟩ := afterWrite_spec (withSidecar (RangeStaging.stagedAt (opened state) (stagePos state call) data) sidecar)
        shaped call answer data.length
      cases data with
      | nil => exact absurd rfl nonempty
      | cons byte rest =>
        refine .staged (byte::rest) sidecar stages nonempty first fits quiet ?_ record
        rcases reply with ok | ⟨cache,fails⟩
        · exact .inl ok
        · exact .inr ⟨cache,.inl fails⟩
    | unpersisted data sidecar errno nonempty first fits cache fails =>
      cases data with
      | nil => exact absurd rfl nonempty
      | cons byte rest =>
        dsimp only
        rw [if_neg (by simp)]
        exact .staged (byte::rest) sidecar stages nonempty first fits .refl (.inr ⟨cache,.inr fails⟩) (.inl fails)
  · rw [if_neg stages]
    unfold writeThrough
    by_cases staged : state.rangeStaged = true
    · rw [if_pos staged]
      have later : Quiet state _ := Quiet.refl.drained answer.drain
      cases drained : drainOneRange state answer.drain with
      | mk begun errno =>
        rw [drained] at later
        cases errno with
        | some errno => exact .refused errno later
        | none =>
          dsimp only
          by_cases still : begun.rangeStaged = true
          · rw [if_pos still]
            exact .refused .ebusy later
          · rw [if_neg still]
            exact written_through answer shape later (absurd · stages) (by simpa using still) (by simp [stages])
    · rw [if_neg staged]
      dsimp only
      rw [if_neg staged]
      exact written_through answer shape .refl (absurd · stages) (by simpa using staged) (by simp [stages])

theorem Current.stagedAt (current : Current state) (shape : Shape state) (pos : Nat) (data : List α)
    (nonempty : data ≠ []) : Current (stagedAt state pos data) := by
  have positive := List.length_pos_iff.mpr nonempty
  change max state.size (pos + data.length) = max state.lower.length (bound (rangeStageRecord state.ranges pos (pos + data.length)))
  rw [rangeStageRecord_add _ _ nonempty,bound_add _ shape.separated _ _ (by omega),current]
  omega

omit [Zero α] in
theorem Current.sized (current : Current state) : Sized state :=
  fun _ => current

omit [Zero α] in
theorem current_iff {state : State α} (shape : Shape state) :
    Current state ↔ Sized state ∧ (state.rangeStaged = false → state.size = state.lower.length) := by
  unfold Current Sized
  cases staged : state.rangeStaged with
  | true => simp
  | false => simp [shape.unstaged staged,bound]

theorem length_view {state : State α} (shape : Shape state) (current : Current state) : (view state).length = state.size := by
  unfold view
  split
  · exact length_tabulate _ _
  · next unstaged => exact (((current_iff shape).mp current).2 (by simpa using unstaged)).symm

theorem fetch_view (state : State α) (shape : Shape state) (current : Current state) (index : Nat) :
    fetch (view state) index = merged state index := by
  unfold view merged overlay
  cases staged : state.rangeStaged with
  | false =>
    rw [shape.unstaged staged]
    rfl
  | true =>
    rw [if_pos rfl,fetch_tabulate]
    split
    · rfl
    unfold Current at current
    have uncovered := mt (covers_lt_bound state.ranges shape.separated index) (by omega)
    rw [if_neg uncovered,fetch_ge _ _ (by omega)]

omit [Zero α] in
theorem Current.lowered (shape : Shape state) (unstaged : state.rangeStaged = false) (lower : List α) :
    Current (refreshSize (noteDataChange {state with lower := lower})) := by
  refine (current_iff (shape.lowered unstaged lower)).mpr ?_
  rw [refreshSize,if_neg (by simp [noteDataChange,unstaged])]
  exact ⟨fun staged => absurd staged (by simp [noteDataChange,unstaged]),fun _ => rfl⟩

theorem Written.current {answer : WriteAnswer} {result : State α × Except Errno Nat}
    (written : Written state call answer result) (shape : Shape state)
    (current : shouldRangeStageWrite state call = true → Current state) : Quiet state result.1 ∨ Current result.1 := by
  cases written with
  | refused errno quiet => exact .inl quiet
  | nothing quiet => exact .inl quiet
  | staged data sidecar stages nonempty first fits quiet reply =>
    have opens : Current (opened state) := current stages
    have staged : Current (noteDataChange (withSidecar (RangeStaging.stagedAt (opened state) (stagePos state call) data) sidecar)) :=
      opens.stagedAt shape.opened _ data nonempty
    exact .inr (staged.quiet ((shape.opened.stagedAt rfl _ data nonempty).persisted sidecar).noted quiet)
  | through data before fell unstaged nonempty first pos place quiet reply =>
    have kept := shape.quiet before
    exact .inr ((Current.lowered kept unstaged _).quiet (kept.lowered unstaged _) quiet)

theorem view_stagedAt {state : State α} (shape : Shape state) (current : Current state) {pos : Nat}
    (nonempty : data ≠ []) : view (stagedAt state pos data) = write (view state) pos data := by
  have whole : view (stagedAt state pos data) = tabulate (max state.size (pos + data.length)) (merged (stagedAt state pos data)) :=
    if_pos rfl
  have bytes := overlay_write shape.separated.proper (state.stage.getD []) state.lower pos nonempty
  apply ext_fetch
  · rw [whole,length_tabulate,length_write,if_neg nonempty,length_view shape current]
  intro index inside
  rw [length_write,if_neg nonempty,length_view shape current] at inside
  rw [whole,fetch_tabulate,if_pos inside,fetch_write,fetch_view state shape current]
  change overlay (rangeStageRecord _ _ _) (write _ _ _) _ _ = _
  rw [rangeStageRecord_add _ _ nonempty]
  exact bytes index

end Write

structure Sound (state : State α) (content : List α) : Prop where
  shape : Shape state
  sized : Sized state
  same : view state = content

variable {state : State α} {content : List α}

theorem Sound.quiet {after : State α} (sound : Sound state content) (quiet : Quiet state after) : Sound after content :=
  ⟨sound.shape.quiet quiet,sound.sized.quiet sound.shape quiet,(view_quiet sound.sized sound.shape quiet).trans sound.same⟩

theorem Sound.lowered (sound : Sound state content) (unstaged : state.rangeStaged = false)
    (lower : List α) : Sound (refreshSize (noteDataChange {state with lower := lower})) lower := by
  refine ⟨sound.shape.lowered unstaged lower,?_,?_⟩
  · intro staged
    rw [refreshSize] at staged
    exact absurd staged (by simp [noteDataChange,unstaged])
  · rw [refreshSize,if_neg (by simp [noteDataChange,unstaged])]
    exact if_neg (by simp [noteDataChange,unstaged])

theorem Sound.lower (sound : Sound state content) (unstaged : state.rangeStaged = false) : state.lower = content := by
  rw [← sound.same,view,if_neg (by simp [unstaged])]

def Aligned (state : State α) (call : WriteCall α) : Prop :=
  if shouldRangeStageWrite state call then state.pool.cacheMode = true → call.lowerAppend = true → call.append = true
  else call.lowerAppend = call.append

instance (state : State α) (call : WriteCall α) : Decidable (Aligned state call) :=
  inferInstanceAs (Decidable (if shouldRangeStageWrite state call then
    state.pool.cacheMode = true → call.lowerAppend = true → call.append = true else call.lowerAppend = call.append))

/-- A write stages only when `i_size` is right, a lower file that is written appends just when the
call does, and no error comes after the bytes were taken. -/
theorem Sound.written {answer : WriteAnswer}
    {result : State α × Except Errno Nat} (sound : Sound state content) (written : Written state call answer result)
    (current : shouldRangeStageWrite state call = true → Current state) (aligned : Aligned state call)
    (acked : state.pool.cacheMode = true → ¬ SyncFails call answer ∧ ¬ PersistFails state call answer) :
    Sound result.1 ((Call.write call answer).change (.ofWrite result.2) content) := by
  cases written with
  | refused errno quiet => exact sound.quiet quiet
  | nothing quiet =>
    change Sound _ (write content _ (call.data.take 0))
    exact sound.quiet quiet
  | staged data sidecar stages nonempty first fits quiet reply =>
    have ok := reply.resolve_right (fun failed => failed.2.elim (acked failed.1).1 (acked failed.1).2)
    have right := current stages
    have place : stagePos state call = if call.append then content.length else call.pos := by
      rw [stagePos,← length_view sound.shape right,sound.same]
    subst ok
    change Sound _ (write content _ (call.data.take data.length))
    rw [← first,← place]
    refine Sound.quiet ⟨((sound.shape.opened.stagedAt rfl _ data nonempty).persisted sidecar).noted,?_,?_⟩ quiet
    · have opens : Current (opened state) := right
      exact (opens.stagedAt sound.shape.opened _ data nonempty).sized
    · exact (view_stagedAt sound.shape.opened right nonempty).trans (by rw [← sound.same]; rfl)
  | @through begun after result data before fell unstaged nonempty first pos place quiet reply =>
    have ok := reply.resolve_right (fun failed => (acked failed.1).1 failed.2)
    have lower := (sound.quiet before).lower unstaged
    have spot : pos = if call.append then content.length else call.pos := by
      rw [place,lower]
      unfold Aligned at aligned
      by_cases stages : shouldRangeStageWrite state call = true
      · rw [if_pos stages] at aligned ⊢
        have right := current stages
        rw [stagePos,← length_view sound.shape right,sound.same]
        cases flag : call.lowerAppend with
        | true => simp [aligned (fell stages) flag]
        | false => simp
      · rw [if_neg stages] at aligned ⊢
        rw [aligned]
    subst ok
    change Sound _ (write content _ (call.data.take data.length))
    rw [← first,← spot,← lower]
    exact ((sound.quiet before).lowered unstaged _).quiet quiet

end Smoothfs.RangeStaging
