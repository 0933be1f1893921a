import Smoothfs.RangeCalls

/-! A file of a cache: the read cache over the base tier, and buffered calls on
the file next to the same calls on an ordinary one. -/
namespace Smoothfs.RangeStaging

open Content Extents

variable {α : Type} [Zero α]

section ReadCache

structure Cached (state : State α) : Prop where
  behind : state.cacheSeq ≤ state.writeSeq
  staged : state.rangeStaged = true → state.cacheSeq < state.writeSeq ∨ state.cacheChunks = []
  valid : state.cacheSeq = state.writeSeq → ∀ index chunk, state.cacheChunks.lookup index = some chunk →
    chunk = window state.lower (index * rangeReadChunk) rangeReadChunk

omit [Zero α] in
variable {state : State α}

theorem Cached.noted (behind : state.cacheSeq ≤ state.writeSeq) : Cached (noteDataChange state) where
  behind := Nat.le_succ_of_le behind
  staged := fun _ => .inl (Nat.lt_succ_of_le behind)
  valid := fun present => absurd present (Nat.ne_of_lt (Nat.lt_succ_of_le behind))

omit [Zero α] in
theorem Cached.relabelled (cached : Cached state) (size : Nat) : Cached {state with size := size} :=
  {cached with}

variable {result : State α × Option Errno}

theorem Cached.drained {answer : DrainAnswer} (cached : Cached state)
    (drained : Drained state answer result) : Cached result.1 := by
  -- the lower file changes under the read cache only while ranges are staged
  have outdated : state.rangeStaged = true → ∀ lower : List α, state.cacheSeq = state.writeSeq →
      ∀ index chunk, state.cacheChunks.lookup index = some chunk →
        chunk = window lower (index * rangeReadChunk) rangeReadChunk := by
    intro staged lower present index chunk found
    rcases cached.staged staged with old | empty
    · omega
    · rw [empty] at found
      cases found
  cases drained with
  | idle _ => exact cached
  | failed lower errno staged stopped copied => exact {cached with valid := outdated staged lower}
  | finished lower staged fine settled =>
    refine ⟨cached.behind,fun absent => ?_,outdated staged lower⟩
    cases absent

theorem Cached.quiet {after : State α} (cached : Cached state) (shape : Shape state) (quiet : Quiet state after) : Cached after :=
  quiet.kept shape (fun _ cached => {cached with}) (fun _ _ _ cached => cached.drained) cached

theorem Cached.written {call : WriteCall α} {answer : WriteAnswer} {result : State α × Except Errno Nat}
    (cached : Cached state) (shape : Shape state) (written : Written state call answer result) : Cached result.1 := by
  cases written with
  | refused errno quiet | nothing quiet => exact cached.quiet shape quiet
  | staged data sidecar stages nonempty first fits quiet reply =>
    exact Cached.quiet (Cached.noted (by exact cached.behind)) ((shape.opened.stagedAt rfl _ data nonempty).persisted sidecar).noted quiet
  | @through begun after result data before fell unstaged nonempty first pos place quiet reply =>
    have kept := shape.quiet before
    have noted : Cached (noteDataChange {begun with lower := write begun.lower pos data}) :=
      Cached.noted (cached.quiet shape before).behind
    refine Cached.quiet ?_ (kept.lowered unstaged _) quiet
    rw [refreshSize,if_neg (by simp [noteDataChange,unstaged])]
    exact noted.relabelled _

theorem Cached.sizeSet {size : Nat} (cached : Cached state) (shape : Shape state)
    (set : SizeSet state size result) : Cached result.1 := by
  cases set with
  | refused errno quiet => exact cached.quiet shape quiet
  | rehomed tiers empty => exact Cached.noted cached.behind
  | resized before cache tiers => exact Cached.noted (cached.quiet shape before).behind

omit [Zero α] in
theorem Cached.revalidate (cached : Cached state) :
    Cached (revalidate state) ∧ (revalidate state).cacheSeq = (revalidate state).writeSeq := by
  unfold RangeStaging.revalidate
  split
  · refine ⟨⟨Nat.le_refl _,fun _ => .inr rfl,fun _ index chunk found => ?_⟩,rfl⟩
    cases found
  · next fresh =>
    simp only [not_or,not_not] at fresh
    exact ⟨cached,fresh.2.1⟩

omit [Zero α] in
theorem Cached.chunk (cached : Cached state) (bare : state.rangeStaged = false)
    (present : state.cacheSeq = state.writeSeq) (keep : Bool) (index : Nat) :
    (cachedChunk state keep index).2 = window state.lower (index * rangeReadChunk) rangeReadChunk ∧
      Cached (cachedChunk state keep index).1 := by
  rcases cachedChunk_cases state keep index with ⟨chunk,found,read⟩ | ⟨chunk,whole,read | ⟨_,read⟩⟩ <;> rw [read]
  · exact ⟨cached.valid present index chunk found,cached⟩
  · exact ⟨whole,cached⟩
  refine ⟨whole,cached.behind,fun staged => ?_,fun _ other held found => ?_⟩
  · change state.rangeStaged = true at staged
    rw [bare] at staged
    cases staged
  · change List.lookup other ((index,chunk)::state.cacheChunks) = some held at found
    rw [List.lookup_cons] at found
    split at found
    · next same =>
      cases found
      rw [beq_iff_eq.mp same]
      exact whole
    · exact cached.valid present other held found

omit [Zero α] in
theorem Cached.readIter (cached : Cached state) (bare : state.rangeStaged = false) (keep : Bool) (fuel pos count : Nat)
    (enough : count ≤ fuel) : (cachedReadIter keep fuel state pos count).2 = window state.lower pos count ∧
      Cached (cachedReadIter keep fuel state pos count).1 := by
  induction fuel generalizing state pos count with
  | zero =>
    obtain rfl := Nat.le_zero.mp enough
    exact ⟨by simp [cachedReadIter,window],cached⟩
  | succ fuel ih =>
    unfold cachedReadIter
    split
    · next none => exact ⟨by simp [none,window],cached⟩
    obtain ⟨valid,present⟩ := cached.revalidate
    obtain ⟨seq,gen,chunks,fresh⟩ := revalidate_recached state
    obtain ⟨_,_,_,next⟩ := cachedChunk_recached (RangeStaging.revalidate state) keep (pos / rangeReadChunk)
    obtain ⟨chunk,kept⟩ := valid.chunk (by rw [fresh]; exact bare) present keep (pos / rangeReadChunk)
    have same : (cachedChunk (RangeStaging.revalidate state) keep (pos / rangeReadChunk)).1.lower = state.lower := by
      rw [next,fresh]
      rfl
    have still : (cachedChunk (RangeStaging.revalidate state) keep (pos / rangeReadChunk)).1.rangeStaged = false := by
      rw [next,fresh]
      exact bare
    have lower : (RangeStaging.revalidate state).lower = state.lower := by
      rw [fresh]
      rfl
    have inside : pos / rangeReadChunk * rangeReadChunk ≤ pos := Nat.div_mul_le_self pos rangeReadChunk
    have close : pos < pos / rangeReadChunk * rangeReadChunk + rangeReadChunk := Nat.lt_div_mul_add (by decide)
    dsimp only
    rw [chunk,lower,window_window,Nat.add_sub_cancel' inside]
    generalize most : min count (rangeReadChunk - (pos - pos / rangeReadChunk * rangeReadChunk)) = size
    split
    · next empty =>
      rw [List.isEmpty_iff,window,List.take_eq_nil_iff,List.drop_eq_nil_iff] at empty
      refine ⟨?_,kept⟩
      symm
      rw [window,List.take_eq_nil_iff,List.drop_eq_nil_iff]
      omega
    · next some =>
      have length := length_window state.lower pos size
      have positive : 0 < (window state.lower pos size).length := by
        rw [List.length_pos_iff]
        simpa using some
      obtain ⟨later,cachedLater⟩ := ih kept still (pos + (window state.lower pos size).length)
        (count - (window state.lower pos size).length) (by omega)
      refine ⟨?_,cachedLater⟩
      change window state.lower pos size ++ (cachedReadIter keep fuel _ _ _).2 = _
      rw [later,same,window_split state.lower pos (window state.lower pos size).length count (by omega),window_held]

end ReadCache

section Buffered

/-- Buffered reads and writes and the size, with drains and the changing room on the fastest tier.
-/
def Call.buffered : Call α → Bool
  | .write call _ => ¬ call.direct
  | .truncate _ _ | .drain _ | .read _ _ _ | .getattr | .usage _ => true
  | _ => false

/-- A write that goes to the base tier is at the right place, and no write fails
after its bytes were taken. -/
def Settles (state : State α) : Call α → Prop
  | .write call answer => Aligned state call ∧ ¬ SyncFails call answer ∧ ¬ PersistFails state call answer
  | _ => True

instance (state : State α) : (call : Call α) → Decidable (Settles state call)
  | .write call answer => inferInstanceAs (Decidable (Aligned state call ∧ ¬ SyncFails call answer ∧ ¬ PersistFails state call answer))
  | .truncate _ _ | .drain _ | .read _ _ _ | .getattr | .spliceRead _ _ _ | .seekEnd _ | .spliceWrite _ _ _ _ | .fallocate _ _ _ _
  | .remap _ _ _ | .clone _ _ _ | .usage _ | .map _ | .pin _ | .storeDrainMask _ | .storeMetadataMask _ | .flushOid => isTrue trivial

structure Fresh (state : State α) : Prop where
  cache : state.pool.cacheMode = true
  some : 0 < state.pool.ntiers
  tier : state.tier = state.pool.ntiers - 1
  mask : state.drainMask = mountDrainMask state.pool
  unstaged : state.rangeStaged = false
  ranges : state.ranges = []
  size : state.size = state.lower.length
  behind : state.cacheSeq ≤ state.writeSeq
  uncached : state.cacheChunks = []

structure Ordinary (tracked : Tracked α) : Prop where
  cache : tracked.state.pool.cacheMode = true
  sound : Sound tracked.state tracked.content
  current : Current tracked.state
  cached : Cached tracked.state

variable {state : State α}

theorem Fresh.ordinary (fresh : Fresh state) : Ordinary ⟨state,state.lower⟩ := by
  have bare : ¬ state.rangeStaged = true := by simp [fresh.unstaged]
  have active : state.drainMask.testBit state.tier = true := by
    rw [fresh.mask,mountDrainMask,if_pos fresh.cache,fresh.tier]
    simpa using fresh.some
  refine ⟨fresh.cache,⟨⟨?_,fun _ => fresh.ranges,fun staged => absurd staged bare,fun _ => ?_⟩,?_,if_neg bare⟩,?_,?_⟩
  · rw [fresh.ranges]
    exact separated_nil
  · exact ⟨fresh.some,fresh.tier,active,fun staged => absurd staged bare⟩
  · exact fun staged => absurd staged bare
  · rw [Current,fresh.ranges]
    simp [bound,fresh.size]
  · refine ⟨fresh.behind,fun staged => absurd staged bare,fun _ index chunk found => ?_⟩
    rw [fresh.uncached] at found
    cases found

theorem Current.sizeSet {size : Nat} {result : State α × Option Errno} (current : Current state) (shape : Shape state)
    (cache : state.pool.cacheMode = true) (set : SizeSet state size result) : Current result.1 := by
  cases set with
  | refused errno quiet => exact current.quiet shape quiet
  | rehomed tiers empty =>
    rw [cache] at tiers
    cases tiers
  | @resized begun before drained tiers =>
    change size = max (resize begun.lower size).length (bound begun.ranges)
    simp [(shape.quiet before).unstaged (drained cache),bound]

theorem Ordinary.step {content : List α} (ordinary : Ordinary ⟨state,content⟩) (call : Call α)
    (buffered : call.buffered = true) (settles : Settles state call) :
    Ordinary ⟨(RangeStaging.step state call).1,call.change (RangeStaging.step state call).2 content⟩ := by
  obtain ⟨cache,sound,current,cached⟩ := ordinary
  have shape := sound.shape
  have mode := (step_cacheMode shape call).trans cache
  have keeps : Keeps state call := by
    cases call with
    | write write answer => exact ⟨fun _ => current,settles.1,fun _ => settles.2⟩
    | truncate size answer =>
      intro tiers
      rw [cache] at tiers
      cases tiers
    | drain _ | read _ _ _ | getattr | usage _ => trivial
    | _ => cases buffered
  refine ⟨mode,sound.step call keeps,?_,?_⟩
  · cases call with
    | write write answer =>
      have written := writeIter_written shape write answer
      exact (written.current shape (fun _ => current)).elim (current.quiet shape) id
    | truncate size answer => exact current.sizeSet shape cache (setSize_sizeSet shape size answer)
    | drain _ | read _ _ _ | getattr | usage _ =>
      exact step_idle shape rfl (fun _ => current.quiet shape) (fun _ => current.touched)
    | _ => cases buffered
  · cases call with
    | write write answer => exact cached.written shape (writeIter_written shape write answer)
    | truncate size answer => exact cached.sizeSet shape (setSize_sizeSet shape size answer)
    | drain answer => exact cached.quiet shape (Quiet.refl.drained answer)
    | read pos count keep =>
      change Cached (readIter state pos count keep).1
      unfold readIter
      split
      · exact cached
      next bare =>
      split
      · exact (cached.readIter (by simpa using bare) keep count pos count (Nat.le_refl _)).2
      · exact cached
    | getattr => exact cached
    | usage nearFull => exact {cached with}
    | _ => cases buffered

variable {tracked : Tracked α}

theorem Ordinary.faithful (ordinary : Ordinary tracked) (call : Call α) (buffered : call.buffered = true) :
    tracked.Faithful call := by
  obtain ⟨cache,sound,current,cached⟩ := ordinary
  refine sound.faithful call ?_ ?_
  · cases call with
    | getattr =>
      have moot : tracked.state.pool.cacheMode = false → tracked.state.rangeStaged = false := by simp [cache]
      change if _ then _ else _
      split
      · exact moot
      · exact current
    | write _ _ | truncate _ _ | drain _ | read _ _ _ | usage _ => trivial
    | _ => cases buffered
  · rintro pos count keep rfl
    cases staged : tracked.state.rangeStaged with
    | true => rw [readIter_window _ sound.shape pos count keep (.inl staged),sound.same]
    | false =>
      unfold readIter
      rw [if_neg (by simp [staged]),← sound.lower staged]
      split
      · exact (cached.readIter staged keep count pos count (Nat.le_refl _)).1
      · rfl

def Reads (state : State α) (content : List α) : Prop :=
  (∀ pos count keep, (readIter state pos count keep).2 = window content pos count) ∧ getattrSize state = content.length

theorem Ordinary.reads (ordinary : Ordinary tracked) : Reads tracked.state tracked.content :=
  ⟨fun pos count keep => ordinary.faithful (.read pos count keep) rfl,ordinary.faithful .getattr rfl⟩

/-- A file of a cache under buffered calls reads as the ordinary file to which the same calls were
made. -/
theorem buffered_file_ordinary (state : State α) (fresh : Fresh state) (calls : List (Call α)) (final : Tracked α)
    (guarded : Run.Guarded Tracked.next (fun tracked call => call.buffered = true ∧ Settles tracked.state call) ⟨state,state.lower⟩ calls)
    (reached : Run.run Tracked.next ⟨state,state.lower⟩ calls = some final) :
    Reads final.state final.content ∧ ∀ answer, Reads (drainOneRange final.state answer).1 final.content := by
  have ordinary : Ordinary final := by
    refine Run.invariant Tracked.next _ Ordinary ?_ _ final calls fresh.ordinary guarded reached
    intro start call next ordinary met taken
    cases taken
    exact ordinary.step call met.1 met.2
  exact ⟨ordinary.reads,fun answer => (ordinary.step (.drain answer) rfl trivial).reads⟩

theorem slowFile_fresh {nearFull : Bool} {lower : List Nat} : Fresh (slowFile true nearFull lower) where
  cache := rfl
  some := Nat.zero_lt_two
  tier := rfl
  mask := rfl
  unstaged := rfl
  ranges := rfl
  size := rfl
  behind := Nat.le_refl 0
  uncached := rfl

def bufferedCalls : List (Call Nat) :=
  [wholeWrite 4 [9,8] false,.read 0 6 true,.drain ⟨some (1,.eio),none,false⟩,wholeWrite 0 [7] true,.usage true,
    .truncate 5 ⟨.fine,none,none⟩,.read 1 9 true,wholeWrite 0 [5] false]

theorem buffered_file_read :
    ∃ final, Run.run Tracked.next ⟨slowFile true false [1,2],[1,2]⟩ bufferedCalls = some final ∧ final.content = [5,2,0,0,9] ∧
      Reads final.state [5,2,0,0,9] :=
  ⟨_,rfl,by decide +kernel,(buffered_file_ordinary (slowFile true false [1,2]) slowFile_fresh bufferedCalls _
    (by decide +kernel) rfl).1⟩

/-- With the fastest tier near full, the lower file goes by its own flags and is overwritten at the
position of the call. -/
theorem appended_bytes_overwrite :
    ∃ (state : State Nat) (call : Call Nat), Fresh state ∧ call.buffered = true ∧ (step state call).2 = .count 1 ∧
      state.lower = [1,2] ∧ call.change (.count 1) state.lower = [1,2,3] ∧
      (readIter (step state call).1 0 3 true).2 = [3,2] ∧ getattrSize (step state call).1 = 2 :=
  ⟨slowFile true true [1,2],wholeWrite 0 [3] true,slowFile_fresh,by decide +kernel⟩

end Buffered

end Smoothfs.RangeStaging
