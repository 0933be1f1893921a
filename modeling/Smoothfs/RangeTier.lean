import Smoothfs.RangeCalls

/-! A file of a mount with tiers under range staging: what truncation leaves, what
the calls that know nothing of the ranges see and change, and the size that
staging goes by. -/
namespace Smoothfs.RangeStaging

open Content Extents

variable {α : Type} [Zero α]

def next (state : State α) (call : Call α) : Option (State α) :=
  some (step state call).1

structure Unstaged (state : State α) : Prop where
  unstaged : state.rangeStaged = false
  ranges : state.ranges = []
  size : state.size = state.lower.length
  unpinned : state.stagingPinned = false
  cache : state.pool.cacheMode = true → Based state

omit [Zero α] in
theorem Unstaged.shape {state : State α} (start : Unstaged state) : Shape state where
  separated := by
    rw [start.ranges]
    exact separated_nil
  unstaged := fun _ => start.ranges
  staged := by simp [start.unstaged]
  cache := start.cache

theorem slowFile_unstaged (cacheMode nearFull : Bool) (lower : List Nat) : Unstaged (slowFile cacheMode nearFull lower) where
  unstaged := rfl
  ranges := rfl
  size := rfl
  unpinned := rfl
  cache := by
    intro cache
    change cacheMode = true at cache
    subst cache
    have active : Nat.testBit 3 1 = true := by decide
    exact ⟨Nat.zero_lt_two,rfl,active,nofun⟩

theorem Shape.runs {start final : State α} (shape : Shape start) (calls : List (Call α)) (reached : Run.run next start calls = some final) :
    Shape final ∧ final.pool.cacheMode = start.pool.cacheMode := by
  refine Run.invariant next (fun _ _ => True) (fun state => Shape state ∧ state.pool.cacheMode = start.pool.cacheMode) ?_ start final
    calls ⟨shape,rfl⟩ ?_ reached
  · rintro state call after ⟨shape,mode⟩ _ taken
    cases taken
    exact ⟨shape.step call,(step_cacheMode shape call).trans mode⟩
  · exact Run.guarded_of_labels next _ start (fun _ _ _ => trivial)

section Truncation

/-- The calls that bring no old byte and move none: everything but the calls on
the lower file. -/
def Newer (old : α → Prop) : Call α → Prop
  | .write call _ => ∀ byte ∈ call.data, ¬ old byte
  | .spliceWrite _ _ _ _ | .fallocate _ _ _ _ | .remap _ _ _ | .clone _ _ _ => False
  | _ => True

def Clear (old : α → Prop) (size : Nat) (state : State α) : Prop :=
  ∀ index, size ≤ index → ¬ old (fetch state.lower index) ∧ ¬ old (merged state index)

variable {old : α → Prop} {size : Nat}

variable {state : State α} {result : State α × Option Errno}

theorem Clear.drained {answer : DrainAnswer} (clear : Clear old size state)
    (drained : Drained state answer result) : Clear old size result.1 := by
  intro index beyond
  obtain ⟨bare,laid⟩ := clear index beyond
  cases drained with
  | idle _ => exact ⟨bare,laid⟩
  | failed lower errno staged stopped copied =>
    have covered : merged {state with lower := lower} index = merged state index := copied.overlay index
    refine ⟨?_,by rwa [covered]⟩
    change ¬ old (fetch lower index)
    rcases copied.bytes index with same | ⟨inside,same⟩
    · rwa [same]
    · rw [same]
      rwa [merged,overlay,if_pos inside] at laid
  | finished lower staged fine settled =>
    have bytes : ¬ old (fetch lower index) := by
      rw [settled.bytes index]
      exact laid
    exact ⟨bytes,bytes⟩

theorem Clear.quiet {after : State α} (clear : Clear old size state) (shape : Shape state) (quiet : Quiet state after) :
    Clear old size after :=
  quiet.kept shape (fun _ => id) (fun _ _ _ clear => clear.drained) clear

theorem clear_unstaged {state : State α} (ranges : state.ranges = []) :
    Clear old size state ↔ ∀ index, size ≤ index → ¬ old (fetch state.lower index) := by
  have same : ∀ index, merged state index = fetch state.lower index := by
    intro index
    rw [merged,ranges]
    rfl
  simp only [Clear,same,and_self]

variable {data : List α} {index : Nat}

theorem not_old_fetch (newer : ∀ byte ∈ data, ¬ old byte) (inside : index < data.length) :
    ¬ old (fetch data index) := by
  rw [fetch_lt _ _ inside]
  exact newer _ (List.getElem_mem inside)

omit [Zero α] in
theorem not_old_taken {taken : List α} (newer : ∀ byte ∈ data, ¬ old byte) (first : taken = data.take taken.length) :
    ∀ byte ∈ taken, ¬ old byte := by
  intro byte member
  rw [first] at member
  exact newer byte (List.mem_of_mem_take member)

theorem Clear.written {call : WriteCall α} {answer : WriteAnswer} {result : State α × Except Errno Nat}
    (clear : Clear old size state) (shape : Shape state) (written : Written state call answer result)
    (newer : ∀ byte ∈ call.data, ¬ old byte) : Clear old size result.1 := by
  cases written with
  | refused errno quiet | nothing quiet => exact clear.quiet shape quiet
  | staged data sidecar stages nonempty first fits quiet reply =>
    refine Clear.quiet ?_ ((shape.opened.stagedAt rfl _ data nonempty).persisted sidecar).noted quiet
    intro index beyond
    obtain ⟨bare,laid⟩ := clear index beyond
    refine ⟨bare,?_⟩
    change ¬ old (overlay (rangeStageRecord state.ranges _ _) (write (state.stage.getD []) _ data) state.lower index)
    rw [rangeStageRecord_add _ _ nonempty,overlay_write shape.separated.proper _ _ _ nonempty]
    split
    · next inside => exact not_old_fetch (not_old_taken newer first) (by omega)
    · exact laid
  | @through begun after result data before fell unstaged nonempty first pos place quiet reply =>
    have kept := shape.quiet before
    have none := kept.unstaged unstaged
    have begins := (clear_unstaged none).mp (clear.quiet shape before)
    refine Clear.quiet ?_ (kept.lowered unstaged _) quiet
    rw [refreshSize,if_neg (by simp [noteDataChange,unstaged])]
    refine (clear_unstaged (by exact none)).mpr fun index beyond => ?_
    change ¬ old (fetch (write begun.lower pos data) index)
    rw [fetch_write]
    split
    · next inside => exact not_old_fetch (not_old_taken newer first) (by omega)
    · exact begins index beyond

theorem not_old_overlay {ranges : List Extent} {stage lower other : List α} (laid : ¬ old (overlay ranges stage lower index))
    (bare : ¬ old (fetch other index)) : ¬ old (overlay ranges stage other index) := by
  unfold overlay at laid ⊢
  split
  · next inside => rwa [if_pos inside] at laid
  · exact bare

theorem Clear.sizeSet {count : Nat} (clear : Clear old size state)
    (shape : Shape state) (filler : ¬ old 0) (set : SizeSet state count result) : Clear old size result.1 := by
  cases set with
  | refused errno quiet => exact clear.quiet shape quiet
  | rehomed tiers empty =>
    intro index beyond
    have none : ¬ old (fetch ([] : List α) index) := filler
    exact ⟨none,not_old_overlay (clear index beyond).2 none⟩
  | @resized begun before drained tiers =>
    have begins := clear.quiet shape before
    intro index beyond
    obtain ⟨bare,laid⟩ := begins index beyond
    have cut : ¬ old (fetch (resize begun.lower count) index) := by
      rw [fetch_resize]
      split
      · exact bare
      · exact filler
    exact ⟨cut,not_old_overlay laid cut⟩

theorem SizeSet.clear (set : SizeSet state size result) (fine : result.2 = none)
    (shape : Shape state) (tiers : state.pool.cacheMode = false) (small : bound state.ranges ≤ size) (filler : ¬ old 0) :
    Clear old size result.1 := by
  have uncovered : ∀ index, size ≤ index → ¬ covers state.ranges index = true := by
    intro index beyond covered
    have := covers_lt_bound state.ranges shape.separated index covered
    omega
  cases set with
  | refused errno quiet => cases fine
  | rehomed _ empty =>
    intro index beyond
    refine ⟨filler,?_⟩
    change ¬ old (overlay state.ranges (state.stage.getD []) [] index)
    rw [overlay,if_neg (uncovered index beyond)]
    exact filler
  | @resized begun before drained same =>
    obtain rfl := same tiers
    intro index beyond
    have cut : ¬ old (fetch (resize begun.lower size) index) := by
      rwa [fetch_resize,if_neg (by omega)]
    refine ⟨cut,?_⟩
    change ¬ old (overlay begun.ranges (begun.stage.getD []) (resize begun.lower size) index)
    rwa [overlay,if_neg (uncovered index beyond)]

theorem Clear.step (clear : Clear old size state) (shape : Shape state) (filler : ¬ old 0) (call : Call α)
    (newer : Newer old call) : Clear old size (step state call).1 := by
  refine step_rule shape (fun _ => clear.quiet shape) ?_ ?_ ?_ ?_
  · intro after touched
    cases touched <;> exact clear
  · rintro write answer result rfl written
    exact clear.written shape written newer
  · rintro count answer result rfl set
    exact clear.sizeSet shape filler set
  · intro change result changes _
    cases call <;> first | exact False.elim newer | cases changes

theorem fetch_view_clear (clear : Clear old size state) (filler : ¬ old 0) (beyond : size ≤ index) :
    ¬ old (fetch (view state) index) := by
  obtain ⟨bare,laid⟩ := clear index beyond
  unfold view
  split
  · rw [fetch_tabulate]
    split
    · exact laid
    · exact filler
  · exact bare

/-- Once nothing is staged past the new size, none of the old bytes is read or drained there again.
-/
theorem truncated_bytes_gone (old : α → Prop) (filler : ¬ old 0) (start : State α) (fresh : Unstaged start)
    (tiers : start.pool.cacheMode = false) (before : List (Call α)) (state : State α) (reached : Run.run next start before = some state)
    (size : Nat) (answer : TruncateAnswer) (fine : (setSize state size answer).2 = none) (small : bound state.ranges ≤ size)
    (later : List (Call α)) (newer : ∀ call ∈ later, Newer old call) (final : State α)
    (ends : Run.run next (setSize state size answer).1 later = some final) :
    (∀ pos count keep index, size ≤ pos + index → ¬ old (fetch (readIter final pos count keep).2 index)) ∧
      ∀ answer index, size ≤ index → ¬ old (fetch (drainOneRange final answer).1.lower index) := by
  obtain ⟨shape,mode⟩ := fresh.shape.runs before reached
  have truncated := setSize_sizeSet shape size answer
  obtain ⟨clear,shape,mode⟩ : Clear old size final ∧ Shape final ∧ final.pool.cacheMode = false := by
    refine Run.invariant next (fun _ call => Newer old call) (fun state => Clear old size state ∧ Shape state ∧
      state.pool.cacheMode = false) ?_ _ final later ?_ ?_ ends
    · rintro state call after ⟨clear,shape,mode⟩ newer taken
      cases taken
      exact ⟨clear.step shape filler call newer,shape.step call,(step_cacheMode shape call).trans mode⟩
    · exact ⟨truncated.clear fine shape (mode.trans tiers) small filler,shape.step (.truncate size answer),
        (step_cacheMode shape (.truncate size answer)).trans (mode.trans tiers)⟩
    · exact Run.guarded_of_labels next _ _ (fun call member _ => newer call member)
  constructor
  · intro pos count keep index beyond
    rw [readIter_window final shape pos count keep (.inr (by simp [mode])),fetch_window]
    split
    · exact fetch_view_clear clear filler beyond
    · exact filler
  · intro answer index beyond
    exact (clear.quiet shape (Quiet.refl.drained answer) index beyond).1

theorem truncated_byte_gone :
    ∃ final, Run.run next (setSize (step (slowFile false false [1,2]) (wholeWrite 0 [9] false)).1 1 ⟨.fine,none,none⟩).1
        [wholeWrite 3 [4] false,.storeDrainMask 3] = some final ∧
      (drainOneRange final .fine).1.lower = [9,0,0,4] ∧ ∀ index, 1 ≤ index → ¬ fetch (drainOneRange final .fine).1.lower index = 9 :=
  ⟨_,rfl,by decide +kernel,(truncated_bytes_gone (· = 9) (by decide) _
    (slowFile_unstaged false false [1,2]) rfl [wholeWrite 0 [9] false] _ rfl 1
    ⟨.fine,none,none⟩ (by decide +kernel) (by decide +kernel) [wholeWrite 3 [4] false,.storeDrainMask 3] (by simp [Newer,wholeWrite]) _
    rfl).2 .fine⟩

theorem truncated_byte_returns :
    ∃ state truncated final : State Nat, Unstaged (slowFile false false [1,2]) ∧
      Run.run next (slowFile false false [1,2]) [wholeWrite 2 [9] false] = some state ∧
      setSize state 2 ⟨.fine,none,none⟩ = (truncated,none) ∧
      Run.run next truncated [.storeDrainMask 3,.drain .fine] = some final ∧
      (readIter truncated 0 3 true).2 = [1,2] ∧ (readIter final 0 3 true).2 = [1,2,9] :=
  ⟨_,_,_,slowFile_unstaged false false [1,2],rfl,rfl,rfl,by decide +kernel⟩

end Truncation

section Paths

theorem Unstaged.sound {state : State α} (start : Unstaged state) : Sound state state.lower where
  shape := start.shape
  sized := fun staged => absurd staged (by simp [start.unstaged])
  same := if_neg (by simp [start.unstaged])

/-- Every observation that does not go past staged ranges is that of an ordinary file to which the
same changes were made. -/
theorem access_paths_agree (start : State α) (fresh : Unstaged start) (tiers : start.pool.cacheMode = false) (calls : List (Call α))
    (final : Tracked α) (guarded : Run.Guarded Tracked.next (fun tracked call => Keeps tracked.state call) ⟨start,start.lower⟩ calls)
    (reached : Run.run Tracked.next ⟨start,start.lower⟩ calls = some final) (call : Call α) (sees : Sees final.state call) :
    final.Faithful call := by
  obtain ⟨sound,mode⟩ : Sound final.state final.content ∧ final.state.pool.cacheMode = false := by
    refine Run.invariant Tracked.next _ (fun tracked => Sound tracked.state tracked.content ∧ tracked.state.pool.cacheMode = false)
      ?_ _ final calls ⟨fresh.sound,tiers⟩ guarded reached
    rintro tracked call after ⟨sound,mode⟩ keeps taken
    cases taken
    exact ⟨sound.step call keeps,(step_cacheMode sound.shape call).trans mode⟩
  refine sound.faithful call sees ?_
  rintro pos count keep rfl
  rw [readIter_window final.state sound.shape pos count keep (.inr (by simp [mode])),sound.same]

def drainedCalls : List (Call Nat) :=
  [wholeWrite 2 [9] false,.read 0 3 true,.storeDrainMask 3,.drain .fine,.spliceWrite 0 [7] false ⟨.fine,none⟩,
    .fallocate (.allocate false) 3 1 ⟨.fine,none⟩]

theorem seek_after_drain :
    ∃ final, Run.run Tracked.next ⟨slowFile false false [1,2],[1,2]⟩ drainedCalls = some final ∧ final.content = [7,2,9,0] ∧
      final.Faithful (.seekEnd .fine) :=
  ⟨_,rfl,by decide +kernel,access_paths_agree (slowFile false false [1,2]) (slowFile_unstaged false false [1,2]) rfl drainedCalls _
    (by decide +kernel) rfl (.seekEnd .fine) (fun _ => rfl)⟩

/-- After a staged append only `read_iter` shows the new byte. -/
theorem staged_append_unseen :
    ∃ state : State Nat, Unstaged (slowFile false false [1,2]) ∧ (slowFile false false [1,2]).pool.writeStaging = true ∧
      step (slowFile false false [1,2]) (wholeWrite 0 [9] true) = (state,.count 1) ∧
      (step state (.read 0 4 true)).2 = .bytes [1,2,9] ∧ (step state (.spliceRead 0 4 .fine)).2 = .bytes [1,2] ∧
      (step state (.seekEnd .fine)).2 = .size 2 ∧ (step state .getattr).2 = .size 2 :=
  ⟨_,slowFile_unstaged false false [1,2],rfl,rfl,by decide +kernel⟩

end Paths

section Size

/-- The lower file may change under staged ranges. -/
def Under (state : State α) : Prop :=
  state.pool.cacheMode = false ∧ state.rangeStaged = true

instance (state : State α) : Decidable (Under state) :=
  inferInstanceAs (Decidable (_ ∧ _))

def FallocMode.within (mode : FallocMode) (offset length size : Nat) : Bool :=
  match mode with
  | .allocate keepSize | .zeroRange keepSize => keepSize ∨ offset + length ≤ size
  | .punchHole => true
  | .collapseRange | .insertRange => false

/-- The first staged write finds the size right, and under staged ranges the end of the file does
not move. -/
def Within (state : State α) : Call α → Prop
  | .write call _ => shouldRangeStageWrite state call = true → state.rangeStaged = false → state.size = state.lower.length
  | .truncate size _ => Under state → bound state.ranges ≤ size
  | .spliceWrite pos data lowerAppend _ =>
    Under state → (if lowerAppend then state.lower.length else pos) + data.length ≤ state.size
  | .clone pos data _ => Under state → pos + data.length ≤ state.size
  | .remap source pos _ => Under state → pos + (source.bytes state.lower).length ≤ state.size
  | .fallocate mode offset length _ => Under state → mode.within offset length state.size = true
  | _ => True

instance (state : State α) : (call : Call α) → Decidable (Within state call)
  | .write call _ =>
    inferInstanceAs (Decidable (shouldRangeStageWrite state call = true → state.rangeStaged = false → state.size = state.lower.length))
  | .truncate size _ => inferInstanceAs (Decidable (Under state → bound state.ranges ≤ size))
  | .spliceWrite pos data lowerAppend _ =>
    inferInstanceAs (Decidable (Under state → (if lowerAppend then state.lower.length else pos) + data.length ≤ state.size))
  | .clone pos data _ => inferInstanceAs (Decidable (Under state → pos + data.length ≤ state.size))
  | .remap source pos _ => inferInstanceAs (Decidable (Under state → pos + (source.bytes state.lower).length ≤ state.size))
  | .fallocate mode offset length _ => inferInstanceAs (Decidable (Under state → mode.within offset length state.size = true))
  | .drain _ | .read _ _ _ | .getattr | .spliceRead _ _ _ | .seekEnd _ | .usage _ | .map _ | .pin _ | .storeDrainMask _
  | .storeMetadataMask _ | .flushOid => isTrue trivial

def Fits (state : State α) (change : List α → List α) : Prop :=
  state.lower.length ≤ (change state.lower).length ∧ (change state.lower).length ≤ max state.lower.length state.size

theorem fits_write {state : State α} {pos : Nat} {data : List α} (within : pos + data.length ≤ state.size) :
    Fits state (Content.write · pos data) := by
  unfold Fits
  rw [length_write]
  split <;> omega

theorem fits_change {state : State α} {mode : FallocMode} {offset length : Nat} (within : mode.within offset length state.size = true) :
    Fits state (mode.change offset length) := by
  have kept (keepSize : Bool) (within : keepSize = true ∨ offset + length ≤ state.size) :
      Fits state (fun lower => if keepSize then lower else resize lower (max lower.length (offset + length))) := by
    unfold Fits
    dsimp only
    split
    · omega
    next grows =>
    have := within.resolve_left grows
    rw [length_resize]
    omega
  cases mode with
  | allocate keepSize => exact kept keepSize (by simpa [FallocMode.within] using within)
  | punchHole => simp [Fits,FallocMode.change,zeroed]
  | zeroRange keepSize =>
    have same := kept keepSize (by simpa [FallocMode.within] using within)
    unfold Fits at same ⊢
    simpa [FallocMode.change,zeroed] using same
  | collapseRange => cases within
  | insertRange => cases within

variable {state : State α}

theorem Sized.written {call : WriteCall α} {answer : WriteAnswer} {result : State α × Except Errno Nat}
    (sized : Sized state) (shape : Shape state) (written : Written state call answer result)
    (fresh : shouldRangeStageWrite state call = true → state.rangeStaged = false → state.size = state.lower.length) : Sized result.1 := by
  have current : shouldRangeStageWrite state call = true → Current state :=
    fun stages => (current_iff shape).mpr ⟨sized,fresh stages⟩
  exact (written.current shape current).elim (sized.quiet shape) Current.sized

variable {result : State α × Option Errno}

theorem Sized.sizeSet {size : Nat} (sized : Sized state) (shape : Shape state)
    (set : SizeSet state size result) (within : Under state → bound state.ranges ≤ size) : Sized result.1 := by
  cases set with
  | refused errno quiet => exact sized.quiet shape quiet
  | rehomed tiers empty =>
    intro staged
    have low := within ⟨tiers,staged⟩
    change 0 = max 0 (bound state.ranges)
    omega
  | @resized begun before drained tiers =>
    intro staged
    cases mode : state.pool.cacheMode with
    | true => exact absurd staged (by simp [noteDataChange,drained mode])
    | false =>
      obtain rfl := tiers mode
      have low := within ⟨mode,staged⟩
      change size = max (resize begun.lower size).length (bound begun.ranges)
      rw [length_resize]
      omega

theorem Sized.changed {change : List α → List α} (sized : Sized state)
    (shape : Shape state) (changed : Changed state change result) (fits : Under state → Fits state change) : Sized result.1 := by
  cases changed with
  | refused errno quiet => exact sized.quiet shape quiet
  | @changed begun before drained tiers =>
    intro staged
    cases mode : state.pool.cacheMode with
    | true => exact absurd staged (by simp [noteDataChange,drained mode])
    | false =>
      obtain rfl := tiers mode
      have right := sized staged
      obtain ⟨uncut,grown⟩ := fits ⟨mode,staged⟩
      change begun.size = max (change begun.lower).length (bound begun.ranges)
      omega

theorem Sized.step (sized : Sized state) (shape : Shape state) (call : Call α) (within : Within state call) :
    Sized (step state call).1 := by
  refine step_rule shape (fun _ => sized.quiet shape) (fun _ => sized.touched) ?_ ?_ ?_
  · rintro write answer result rfl written
    exact sized.written shape written within
  · rintro size answer result rfl set
    exact sized.sizeSet shape set within
  · intro change result changes changed
    refine sized.changed shape changed fun under => ?_
    cases call with
    | spliceWrite pos data lowerAppend answer | clone pos data answer | remap source pos answer =>
      cases changes
      exact fits_write (within under)
    | fallocate mode offset length answer =>
      cases changes
      exact fits_change (within under)
    | _ => cases changes

/-- An append lands at the end of the file and no byte of it is past the end of a merged read. -/
theorem staged_size_right (start : State α) (fresh : Unstaged start) (calls : List (Call α)) (final : State α)
    (guarded : Run.Guarded next Within start calls) (reached : Run.run next start calls = some final)
    (staged : final.rangeStaged = true) :
    final.size = max final.lower.length (bound final.ranges) ∧
      (∀ call, call.append = true → stagePos final call = max final.lower.length (bound final.ranges)) ∧
      ∀ index, index < final.lower.length ∨ covers final.ranges index = true → index < final.size := by
  obtain ⟨sized,shape⟩ : Sized final ∧ Shape final := by
    refine Run.invariant next Within (fun state => Sized state ∧ Shape state) ?_ start final calls ⟨fresh.sound.sized,fresh.shape⟩
      guarded reached
    rintro state call after ⟨sized,shape⟩ within taken
    cases taken
    exact ⟨sized.step shape call within,shape.step call⟩
  have right := sized staged
  refine ⟨right,fun call append => ?_,fun index inside => ?_⟩
  · rw [stagePos,if_pos append,right]
  rcases inside with low | covered
  · omega
  · have := covers_lt_bound final.ranges shape.separated index covered
    omega

theorem spliced_size_right :
    ∃ final, Run.run next (slowFile false false [1,2]) [wholeWrite 4 [9] false,.spliceWrite 1 [7,7] false ⟨.fine,none⟩] = some final ∧
      final.rangeStaged = true ∧ final.size = 5 ∧ final.size = max final.lower.length (bound final.ranges) :=
  ⟨_,rfl,by decide +kernel,by decide +kernel,(staged_size_right _ (slowFile_unstaged false false [1,2])
    [wholeWrite 4 [9] false,.spliceWrite 1 [7,7] false ⟨.fine,none⟩] _ (by decide +kernel) rfl (by decide +kernel)).1⟩

def splicedAppend : List (Call Nat) :=
  [.spliceWrite 2 [3,4] false ⟨.fine,none⟩,wholeWrite 0 [9] true]

/-- `i_size` does not follow a splice, so that the staged append after it lands inside the file. -/
theorem spliced_size_behind :
    ∃ tiered cached : State Nat, Unstaged (slowFile false false [1,2]) ∧ Unstaged (slowFile true false [1,2]) ∧
      Run.run next (slowFile false false [1,2]) splicedAppend = some tiered ∧
      Run.run next (slowFile true false [1,2]) splicedAppend = some cached ∧
      (tiered.rangeStaged = true ∧ tiered.ranges = [⟨2,3⟩] ∧ tiered.lower = [1,2,3,4] ∧ tiered.size = 3) ∧
      (cached.rangeStaged = true ∧ cached.ranges = [⟨2,3⟩] ∧ cached.lower = [1,2,3,4] ∧ cached.size = 3) :=
  ⟨_,_,slowFile_unstaged false false [1,2],slowFile_unstaged true false [1,2],rfl,rfl,by decide +kernel,by decide +kernel⟩

end Size

end Smoothfs.RangeStaging
