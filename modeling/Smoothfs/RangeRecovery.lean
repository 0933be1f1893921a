import Smoothfs.RangeCache
import Smoothfs.RangeTier

/-! What is left of staged ranges once the inode is gone: after an eviction, and
after a crash with the sidecar and the stage file still there. -/
namespace Smoothfs.RangeStaging

open Content Extents Namespace

variable {α : Type} [Zero α]

def lookedUp (state : State α) : State α :=
  {state with
    pinState := .none
    mapped := false
    size := state.lower.length
    rangeStaged := false
    ranges := []
    stagePath := false
    sourceTier := maxTiers
    stagingPinned := false
    writeSeq := 0
    cutoverGen := 0
    cacheSeq := 0
    cacheGen := 0
    cacheChunks := []}

/-- `smoothfs_evict_inode` and the next lookup. A cache holds a reference to an inode with staged
ranges. -/
def evict (state : State α) : Option (State α) :=
  if state.stagingPinned then none else some (lookedUp state)

def SameFile (before after : State α) : Prop :=
  (∀ pos count keep, (readIter after pos count keep).2 = (readIter before pos count keep).2) ∧ getattrSize after = getattrSize before

section Eviction

def Pinned (state : State α) : Prop :=
  state.stagingPinned = (state.pool.cacheMode && state.rangeStaged)

variable {state : State α}

theorem Pinned.quiet {after : State α} (pinned : Pinned state) (shape : Shape state) (quiet : Quiet state after) : Pinned after := by
  refine quiet.kept shape (fun _ => id) ?_ pinned
  intro state answer result pinned drained
  cases drained with
  | idle _ => exact pinned
  | failed _ _ _ _ _ => exact pinned
  | finished _ _ _ _ => exact (Bool.and_false _).symm

theorem Pinned.stagedAt (pinned : Pinned state) (pos : Nat) (data : List α) : Pinned (stagedAt state pos data) := by
  change (state.stagingPinned || state.pool.cacheMode) = (state.pool.cacheMode && true)
  rw [pinned]
  cases state.pool.cacheMode <;> simp

theorem Pinned.step (pinned : Pinned state) (shape : Shape state) (call : Call α) : Pinned (step state call).1 := by
  refine step_keeps state shape call pinned (fun shape pinned => pinned.quiet shape) ?_ ?_ ?_ ?_
  · intro after touched
    cases touched <;> exact pinned
  · intro pos data sidecar _
    have opens : Pinned (opened state) := pinned
    exact opens.stagedAt pos data
  · intro begun lower size _ begins
    exact begins
  · intro _
    exact pinned

theorem Pinned.runs {start final : State α} (fresh : Unstaged start) (calls : List (Call α))
    (reached : Run.run next start calls = some final) : Pinned final ∧ Shape final := by
  refine Run.invariant next (fun _ _ => True) (fun state => Pinned state ∧ Shape state) ?_ start final calls ⟨?_,fresh.shape⟩ ?_ reached
  · rintro state call after ⟨pinned,shape⟩ _ taken
    cases taken
    exact ⟨pinned.step shape call,shape.step call⟩
  · rw [Pinned,fresh.unpinned,fresh.unstaged,Bool.and_false]
  · exact Run.guarded_of_labels next _ start (fun _ _ _ => trivial)

/-- Whatever is called and whatever fails, the staged ranges stay apart and inside the stage
file, and a cache holds the inode exactly while there are some. -/
theorem staging_stays_sound {start final : State α} (fresh : Unstaged start) (calls : List (Call α))
    (reached : Run.run next start calls = some final) :
    Separated final.ranges ∧ (final.rangeStaged = false → final.ranges = []) ∧
      (final.rangeStaged = true → bound final.ranges ≤ (final.stage.getD []).length) ∧
      final.stagingPinned = (final.pool.cacheMode && final.rangeStaged) := by
  obtain ⟨pinned,shape⟩ := Pinned.runs fresh calls reached
  exact ⟨shape.separated,shape.unstaged,fun staged => (shape.staged staged).2,pinned⟩

theorem staged_write_holds_inode : ∃ final, Run.run next (slowFile true false [1]) [wholeWrite 4 [9] false] = some final ∧
    final.ranges = [⟨4,5⟩] ∧ final.stagingPinned = (final.pool.cacheMode && final.rangeStaged) :=
  ⟨_,rfl,by decide +kernel,(staging_stays_sound (slowFile_unstaged true false [1]) [wholeWrite 4 [9] false] rfl).2.2.2⟩

theorem view_eq_lower_iff {state : State α} (staged : state.rangeStaged = true) :
    view state = state.lower ↔ state.size = state.lower.length ∧
      ∀ index, index < state.size → covers state.ranges index = true → fetch (state.stage.getD []) index = fetch state.lower index := by
  have whole : view state = tabulate state.size (merged state) := if_pos staged
  have size : (view state).length = state.size := by rw [whole,length_tabulate]
  have bytes : ∀ index, index < state.size → fetch (view state) index = merged state index := by
    intro index inside
    rw [whole,fetch_tabulate,if_pos inside]
  constructor
  · intro same
    refine ⟨by rw [← size,same],fun index inside covered => ?_⟩
    rw [← same,bytes index inside,merged,overlay,if_pos covered]
  · rintro ⟨length,copied⟩
    apply ext_fetch
    · rw [size,length]
    intro index inside
    rw [← length] at inside
    rw [bytes index inside,merged,overlay]
    split
    · next covered => exact copied index inside covered
    · rfl

/-- Eviction leaves a staged file alone in a cache, and elsewhere just when the
lower file holds all that is staged. -/
theorem evicted_file_same_iff (start : State α) (fresh : Unstaged start) (calls : List (Call α)) (state : State α)
    (reached : Run.run next start calls = some state) (staged : state.rangeStaged = true) :
    (∀ after, evict state = some after → SameFile state after) ↔
      state.pool.cacheMode = true ∨ state.size = state.lower.length ∧
        ∀ index, index < state.size → covers state.ranges index = true →
          fetch (state.stage.getD []) index = fetch state.lower index := by
  obtain ⟨pinned,shape⟩ := Pinned.runs fresh calls reached
  rw [Pinned,staged] at pinned
  cases mode : state.pool.cacheMode with
  | true =>
    rw [mode] at pinned
    simp [evict,pinned]
  | false =>
    rw [mode] at pinned
    have bare : Shape (lookedUp state) :=
      ⟨separated_nil,fun _ => rfl,nofun,fun cache => absurd cache (by simp [lookedUp,mode])⟩
    have evicted : evict state = some (lookedUp state) := if_neg (by simp [pinned])
    have after : ∀ pos count keep, (readIter (lookedUp state) pos count keep).2 = window state.lower pos count := by
      intro pos count keep
      rw [readIter_window _ bare pos count keep (.inr (by simp [lookedUp,mode]))]
      rfl
    have before : ∀ pos count keep, (readIter state pos count keep).2 = window (view state) pos count := by
      intro pos count keep
      rw [readIter_window state shape pos count keep (.inl staged)]
    rw [← view_eq_lower_iff staged]
    simp only [evicted,Option.some.injEq,forall_eq',SameFile,after,before,Bool.false_eq_true,false_or]
    constructor
    · rintro ⟨reads,_⟩
      exact ((windows_eq_iff _ _).mp fun pos count => reads pos count true).symm
    · intro same
      refine ⟨fun pos count _ => by rw [same],?_⟩
      have length := ((view_eq_lower_iff staged).mp same).1
      simp [getattrSize,metadataTierActive,lookedUp,length]

theorem drained_file_evicted :
    ∃ state after, Run.run next (slowFile false false [1,2]) [wholeWrite 2 [9] false,.storeDrainMask 3,.drain ⟨some (1,.eio),none,false⟩] =
        some state ∧ state.rangeStaged = true ∧ evict state = some after ∧ SameFile state after :=
  ⟨_,_,rfl,by decide +kernel,rfl,(evicted_file_same_iff _ (slowFile_unstaged false false [1,2])
    [wholeWrite 2 [9] false,.storeDrainMask 3,.drain ⟨some (1,.eio),none,false⟩] _ rfl (by decide +kernel)).mpr
    (.inr (by decide +kernel)) _ rfl⟩

theorem evicted_write_lost :
    ∃ state after, Run.run next (slowFile false false [1,2]) [wholeWrite 0 [9] false] = some state ∧ state.rangeStaged = true ∧
      evict state = some after ∧ (readIter state 0 2 true).2 = [9,2] ∧ (readIter after 0 2 true).2 = [1,2] :=
  ⟨_,_,rfl,by decide +kernel,rfl,by decide +kernel⟩

end Eviction

section Replay

/-- `smoothfs_range_replay_one` over a new inode. What is not accepted is skipped. The size stays
that of the lower file. -/
def replayOne (state : State α) : State α :=
  match state.sidecar.map (Sidecar.decode state.pool.ntiers) with
  | some (.ok record) =>
    if state.stage.isSome then
      {state with
        ranges := record.ranges
        rangeStaged := true
        stagePath := true
        sourceTier := record.sourceTier
        stagingPinned := state.pool.cacheMode}
    else state
  | _ => state

def mounted (state : State α) : State α :=
  {lookedUp state with drainMask := mountDrainMask state.pool, metadataMask := 2 ^ state.pool.ntiers - 1}

/-- The replay finds the file by the OID it is stamped with. Another file is skipped, and given a new
OID under which nothing is staged. -/
def remount (state : State α) : State α :=
  if state.stamped then replayOne (mounted state) else {mounted state with stage := none, sidecar := none}

def Recorded (state : State α) : Prop :=
  state.rangeStaged = true → state.stage.isSome = true ∧ state.sourceTier < state.pool.ntiers ∧
    ∃ now, state.sidecar = some (Sidecar.encode ⟨state.sourceTier,now,state.ranges⟩) ∧ now < 256 ^ 8 ∧
      state.ranges.length ≤ recMaxRanges ∧ bound state.ranges ≤ maxBytes

def Persists (state : State α) : Call α → Prop
  | .write call answer => ¬ PersistFails state call answer ∧ answer.now < 256 ^ 8
  | _ => True

instance (state : State α) : (call : Call α) → Decidable (Persists state call)
  | .write call answer => inferInstanceAs (Decidable (¬ PersistFails state call answer ∧ answer.now < 256 ^ 8))
  | .truncate _ _ | .drain _ | .read _ _ _ | .getattr | .spliceRead _ _ _ | .seekEnd _ | .spliceWrite _ _ _ _ | .fallocate _ _ _ _
  | .remap _ _ _ | .clone _ _ _ | .usage _ | .map _ | .pin _ | .storeDrainMask _ | .storeMetadataMask _ | .flushOid => isTrue trivial

variable {state : State α}

theorem Recorded.quiet {after : State α} (recorded : Recorded state) (shape : Shape state) (quiet : Quiet state after) :
    Recorded after := by
  refine quiet.kept shape ?_ ?_ recorded
  · intro state recorded staged
    exact ⟨rfl,(recorded staged).2⟩
  · intro state answer result recorded drained
    cases drained with
    | idle _ => exact recorded
    | failed _ _ _ _ _ => exact recorded
    | finished _ _ _ _ => exact nofun

theorem Recorded.written {call : WriteCall α} {answer : WriteAnswer} {result : State α × Except Errno Nat}
    (recorded : Recorded state) (shape : Shape state) (written : Written state call answer result)
    (persisted : ¬ PersistFails state call answer) (clock : answer.now < 256 ^ 8) : Recorded result.1 := by
  have begun : ∀ {after : State α}, Quiet state after → Recorded after := recorded.quiet shape
  cases written with
  | refused errno quiet => exact begun quiet
  | nothing quiet => exact begun quiet
  | staged data sidecar stages nonempty first fits quiet reply record =>
    refine Recorded.quiet ?_ ((shape.opened.stagedAt rfl _ data nonempty).persisted sidecar).noted quiet
    intro _
    have tier : state.tier < state.pool.ntiers := by
      simp only [shouldRangeStageWrite,decide_eq_true_eq] at stages
      exact stages.2.2.2.2.1
    have low : bound state.ranges ≤ maxBytes := by
      cases staged : state.rangeStaged with
      | true =>
        obtain ⟨_,_,_,_,_,_,low⟩ := recorded staged
        exact low
      | false => simp [shape.unstaged staged,bound]
    obtain ⟨record,few⟩ := record.resolve_left persisted
    refine ⟨rfl,tier,answer.now,record,clock,few,?_⟩
    change bound (RangeStaging.stagedAt (opened state) (stagePos state call) data).ranges ≤ maxBytes
    rw [bound_stagedAt shape.opened _ nonempty]
    exact max_le low fits
  | through data before fell unstaged nonempty first pos place quiet reply =>
    have kept := shape.quiet before
    refine Recorded.quiet ?_ (kept.lowered unstaged _) quiet
    rw [refreshSize]
    intro staged
    exact absurd staged (by simp [noteDataChange,unstaged])

theorem Recorded.step (recorded : Recorded state) (shape : Shape state) (call : Call α) (persists : Persists state call) :
    Recorded (step state call).1 := by
  refine step_rule shape (fun _ => recorded.quiet shape) ?_ ?_ ?_ ?_
  · intro after touched
    cases touched <;> exact recorded
  · rintro write answer result rfl written
    exact recorded.written shape written persists.1 persists.2
  · intro size answer result _ set
    cases set with
    | refused errno quiet => exact recorded.quiet shape quiet
    | rehomed tiers empty => exact recorded
    | resized before cache tiers =>
      have begins := recorded.quiet shape before
      exact begins
  · intro change result _ changed
    cases changed with
    | refused errno quiet => exact recorded.quiet shape quiet
    | changed before cache tiers =>
      have begins := recorded.quiet shape before
      exact begins

omit [Zero α] in
theorem decode_recorded {state : State α} (shape : Shape state) (few : state.pool.ntiers ≤ maxTiers) {now : Nat}
    (tier : state.sourceTier < state.pool.ntiers) (clock : now < 256 ^ 8) (short : state.ranges.length ≤ recMaxRanges)
    (low : bound state.ranges ≤ maxBytes) :
    Sidecar.decode state.pool.ntiers (Sidecar.encode ⟨state.sourceTier,now,state.ranges⟩) =
      .ok ⟨state.sourceTier,now,state.ranges⟩ := by
  refine Sidecar.decode_encode _ _ ⟨tier,?_,clock,short,fun range member => ?_⟩
  · have : maxTiers = 8 := rfl
    change state.sourceTier < 256
    omega
  · have proper := shape.separated.proper range member
    have inside : covers state.ranges (range.stop - 1) = true := (covers_iff _ _).mpr ⟨range,member,by omega,by omega⟩
    have := covers_lt_bound state.ranges shape.separated _ inside
    exact ⟨proper,by omega⟩

end Replay

end Smoothfs.RangeStaging
