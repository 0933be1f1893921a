import Smoothfs.RangeView
import Smoothfs.Library.Run

/-! Every call on a file under range staging next to the same call on an ordinary
file: which of them keep the two alike, and when they do. -/
namespace Smoothfs.RangeStaging

open Content Extents

variable {α : Type} [Zero α]

section Changes

variable {state : State α}

theorem beginDataChange_cases (shape : Shape state) (answer : DrainAnswer) :
    (∃ begun errno, beginDataChange state answer = (begun,some errno) ∧ Quiet state begun) ∨
      ∃ begun, beginDataChange state answer = (begun,none) ∧ Quiet state begun ∧
        (state.pool.cacheMode = true → begun.rangeStaged = false) ∧ (state.pool.cacheMode = false → begun = state) := by
  unfold beginDataChange
  split
  · next busy =>
    have quiet : Quiet state (drainOneRange state answer).1 := Quiet.refl.drained answer
    cases drained : drainOneRange state answer with
    | mk begun errno =>
      rw [drained] at quiet
      cases errno with
      | some errno => exact .inl ⟨begun,errno,rfl,quiet⟩
      | none =>
        refine .inr ⟨begun,rfl,quiet,fun cache => drained_unstaged shape cache drained,fun tiers => ?_⟩
        rw [busy.1] at tiers
        cases tiers
  · next idle =>
    refine .inr ⟨state,rfl,.refl,fun cache => ?_,fun _ => rfl⟩
    by_contra staged
    exact idle ⟨cache,by simpa using staged⟩

inductive Changed (state : State α) (change : List α → List α) : State α × Option Errno → Prop
  | refused {after : State α} (errno : Errno) (quiet : Quiet state after) : Changed state change (after,some errno)
  | changed {begun : State α} (before : Quiet state begun) (cache : state.pool.cacheMode = true → begun.rangeStaged = false)
      (tiers : state.pool.cacheMode = false → begun = state) :
      Changed state change (noteDataChange {begun with lower := change begun.lower},none)

theorem changeLower_changed (shape : Shape state) {change : List α → List α} (answer : ChangeAnswer) :
    Changed state change (changeLower state change answer) := by
  unfold changeLower
  obtain ⟨begun,errno,result,quiet⟩ | ⟨begun,result,quiet,cache,tiers⟩ := beginDataChange_cases shape answer.drain
  · rw [result]
    exact .refused errno quiet
  rw [result]
  dsimp only
  split
  · next errno _ => exact .refused errno quiet
  · exact .changed quiet cache tiers

inductive SizeSet (state : State α) (size : Nat) : State α × Option Errno → Prop
  | refused {after : State α} (errno : Errno) (quiet : Quiet state after) : SizeSet state size (after,some errno)
  | rehomed (tiers : state.pool.cacheMode = false) (empty : size = 0) :
      SizeSet state size (noteDataChange
        {state with lower := [], tier := state.pool.fastestTier, size := 0, cutoverGen := state.cutoverGen + 1},none)
  | resized {begun : State α} (before : Quiet state begun) (cache : state.pool.cacheMode = true → begun.rangeStaged = false)
      (tiers : state.pool.cacheMode = false → begun = state) :
      SizeSet state size (noteDataChange {begun with lower := resize begun.lower size, size := size},none)

theorem setSize_sizeSet (shape : Shape state) (size : Nat) (answer : TruncateAnswer) :
    SizeSet state size (setSize state size answer) := by
  unfold setSize
  obtain ⟨begun,errno,result,quiet⟩ | ⟨begun,result,quiet,cache,tiers⟩ := beginDataChange_cases shape answer.drain
  · rw [result]
    exact .refused errno quiet
  rw [result]
  dsimp only
  split
  · next stages =>
    simp only [shouldStageTruncate,decide_eq_true_eq] at stages
    obtain ⟨uncached,_,empty,_⟩ := stages
    have mode : state.pool.cacheMode = false := by
      rw [← quiet.pool]
      simpa using uncached
    obtain rfl : begun = state := tiers mode
    split
    · next errno _ => exact .refused errno quiet
    · exact .rehomed mode empty
  · split
    · next errno _ => exact .refused errno quiet
    · exact .resized quiet cache tiers

end Changes

section Steps

inductive Touched (state : State α) : State α → Prop
  | recached (seq gen : Nat) (chunks : List (Nat × List α)) : Touched state (recached state seq gen chunks)
  | usage (nearFull : Bool) : Touched state {state with pool := {state.pool with fastNearFull := nearFull}}
  | map (mapped : Bool) : Touched state {state with mapped := mapped}
  | pin (pinState : PinState) : Touched state {state with pinState := pinState}
  | drainMask (mask : Nat) : Touched state {state with drainMask := StagingDrain.storedMask state.pool mask}
  | stamped : Touched state {state with stamped := true}
  | metadataMask (mask : Nat) : Touched state {state with metadataMask := storedMetadataMask state.pool mask}

omit [Zero α] in
theorem revalidate_recached (state : State α) : ∃ seq gen chunks, revalidate state = recached state seq gen chunks := by
  unfold revalidate
  split
  · exact ⟨_,_,_,rfl⟩
  · exact ⟨state.cacheSeq,state.cacheGen,state.cacheChunks,rfl⟩

omit [Zero α] in
theorem cachedChunk_cases (state : State α) (keep : Bool) (index : Nat) :
    (∃ chunk, state.cacheChunks.lookup index = some chunk ∧ cachedChunk state keep index = (state,chunk)) ∨
      ∃ chunk, chunk = window state.lower (index * rangeReadChunk) rangeReadChunk ∧
        (cachedChunk state keep index = (state,chunk) ∨ keep = true ∧
          cachedChunk state keep index = (recached state state.cacheSeq state.cacheGen ((index,chunk)::state.cacheChunks),chunk)) := by
  cases found : state.cacheChunks.lookup index with
  | some chunk => exact .inl ⟨chunk,rfl,by simp only [cachedChunk,found]⟩
  | none =>
    -- The chunk stays a variable: its length is not to be computed with.
    have split_ (chunk : List α) (kept : State α) (other : Prop) [Decidable other] :
        (if other ∨ ¬ keep = true then (state,chunk) else (kept,chunk)) = (state,chunk) ∨
          keep = true ∧ (if other ∨ ¬ keep = true then (state,chunk) else (kept,chunk)) = (kept,chunk) := by
      by_cases holds : other ∨ ¬ keep = true
      · exact .inl (if_pos holds)
      · exact .inr ⟨not_not.mp fun drop => holds (.inr drop),if_neg holds⟩
    refine .inr ⟨_,rfl,?_⟩
    simp only [cachedChunk,found,← or_assoc]
    exact split_ _ _ _

omit [Zero α] in
theorem cachedChunk_recached (state : State α) (keep : Bool) (index : Nat) :
    ∃ seq gen chunks, (cachedChunk state keep index).1 = recached state seq gen chunks := by
  have same : state = recached state state.cacheSeq state.cacheGen state.cacheChunks := rfl
  rcases cachedChunk_cases state keep index with ⟨chunk,_,read⟩ | ⟨chunk,_,read | ⟨_,read⟩⟩ <;> rw [read]
  · exact ⟨_,_,_,same⟩
  · exact ⟨_,_,_,same⟩
  · exact ⟨_,_,_,rfl⟩

omit [Zero α] in
theorem cachedReadIter_recached (keep : Bool) (fuel : Nat) (state : State α) (pos count : Nat) :
    ∃ seq gen chunks, (cachedReadIter keep fuel state pos count).1 = recached state seq gen chunks := by
  induction fuel generalizing state pos count with
  | zero => exact ⟨state.cacheSeq,state.cacheGen,state.cacheChunks,rfl⟩
  | succ fuel ih =>
    unfold cachedReadIter
    split
    · exact ⟨state.cacheSeq,state.cacheGen,state.cacheChunks,rfl⟩
    obtain ⟨seq,gen,chunks,fresh⟩ := revalidate_recached state
    obtain ⟨seq,gen,chunks,next⟩ := cachedChunk_recached (revalidate state) keep (pos / rangeReadChunk)
    dsimp only
    split
    · rw [next,fresh]
      exact ⟨_,_,_,rfl⟩
    · obtain ⟨seq,gen,chunks,later⟩ := ih _ _ _
      rw [later,next,fresh]
      exact ⟨_,_,_,rfl⟩

def Call.changes : Call α → Option (List α → List α)
  | .spliceWrite pos data lowerAppend _ => some fun lower => Content.write lower (if lowerAppend then lower.length else pos) data
  | .fallocate mode offset length _ => some (mode.change offset length)
  | .remap source pos _ => some (fun lower => Content.write lower pos (source.bytes lower))
  | .clone pos data _ => some (Content.write · pos data)
  | _ => none

variable {p : State α → Prop}

theorem step_rule {state : State α} (shape : Shape state) {call : Call α} (quiet : ∀ after, Quiet state after → p after)
    (touched : ∀ after, Touched state after → p after)
    (written : ∀ write answer result, call = .write write answer → Written state write answer result → p result.1)
    (sized : ∀ size answer result, call = .truncate size answer → SizeSet state size result → p result.1)
    (changed : ∀ change result, call.changes = some change → Changed state change result → p result.1) :
    p (step state call).1 := by
  have drained : ∀ answer, p (drainForLower state answer).1 := by
    intro answer
    unfold drainForLower
    split
    · exact quiet _ (Quiet.refl.drained answer)
    · exact quiet _ .refl
  cases call with
  | write write answer => exact written _ _ _ rfl (writeIter_written shape write answer)
  | truncate size answer => exact sized _ _ _ rfl (setSize_sizeSet shape size answer)
  | drain answer => exact quiet _ (Quiet.refl.drained answer)
  | read pos count keep =>
    change p (readIter state pos count keep).1
    unfold readIter
    split
    · exact quiet _ .refl
    split
    · obtain ⟨seq,gen,chunks,same⟩ := cachedReadIter_recached keep count state pos count
      rw [same]
      exact touched _ (.recached seq gen chunks)
    · exact quiet _ .refl
  | getattr => exact quiet _ .refl
  | spliceRead pos count answer => exact drained answer
  | seekEnd answer => exact drained answer
  | spliceWrite pos data lowerAppend answer => exact changed _ _ rfl (changeLower_changed shape answer)
  | fallocate mode offset length answer => exact changed _ _ rfl (changeLower_changed shape answer)
  | remap source pos answer =>
    change p (remapFileRange state source pos answer).1
    unfold remapFileRange
    split
    · exact quiet _ .refl
    · exact changed _ _ rfl (changeLower_changed shape answer)
  | clone pos data answer => exact changed _ _ rfl (changeLower_changed shape answer)
  | usage nearFull => exact touched _ (.usage nearFull)
  | map mapped => exact touched _ (.map mapped)
  | pin pinState => exact touched _ (.pin pinState)
  | storeDrainMask mask => exact touched _ (.drainMask mask)
  | storeMetadataMask mask => exact touched _ (.metadataMask mask)
  | flushOid => exact touched _ .stamped

theorem step_keeps (state : State α) (shape : Shape state) (call : Call α) (initial : p state)
    (quiet : ∀ {state after : State α}, Shape state → p state → Quiet state after → p after)
    (touched : ∀ after, Touched state after → p after)
    (stages : ∀ pos data sidecar, data ≠ [] → p (noteDataChange (withSidecar (stagedAt (opened state) pos data) sidecar)))
    (lowers : ∀ begun lower size, Shape begun → p begun → p (noteDataChange {begun with lower := lower, size := size}))
    (rehomes : state.pool.cacheMode = false → p (noteDataChange
      {state with lower := [], tier := state.pool.fastestTier, size := 0, cutoverGen := state.cutoverGen + 1})) :
    p (step state call).1 := by
  refine step_rule shape (fun _ => quiet shape initial) touched ?_ ?_ ?_
  · intro write answer result _ written
    cases written with
    | refused errno quietly | nothing quietly => exact quiet shape initial quietly
    | staged data sidecar _ nonempty first fits quietly reply record =>
      exact quiet ((shape.opened.stagedAt rfl _ data nonempty).persisted sidecar).noted (stages _ data sidecar nonempty) quietly
    | @through begun after result data before fell unstaged nonempty first pos place quietly reply =>
      have kept := shape.quiet before
      refine quiet (kept.lowered unstaged _) ?_ quietly
      rw [refreshSize,if_neg (by simp [noteDataChange,unstaged])]
      exact lowers begun (Content.write begun.lower pos data) (Content.write begun.lower pos data).length kept
        (quiet shape initial before)
  · intro size answer result _ set
    cases set with
    | refused errno quietly => exact quiet shape initial quietly
    | rehomed tiers empty => exact rehomes tiers
    | @resized begun before cache tiers =>
      exact lowers begun (resize begun.lower size) size (shape.quiet before) (quiet shape initial before)
  · intro change result _ changed
    cases changed with
    | refused errno quietly => exact quiet shape initial quietly
    | @changed begun before cache tiers =>
      exact lowers begun (change begun.lower) begun.size (shape.quiet before) (quiet shape initial before)

def Call.idle : Call α → Bool
  | .write _ _ | .truncate _ _ | .spliceWrite _ _ _ _ | .fallocate _ _ _ _ | .remap _ _ _ | .clone _ _ _ => false
  | _ => true

variable (call : Call α)

theorem Call.changes_idle (idle : call.idle = true) : call.changes = none := by
  cases call <;> simp_all [Call.idle,Call.changes]

theorem step_idle {state : State α} (shape : Shape state) {call : Call α} (idle : call.idle = true)
    (quiet : ∀ after, Quiet state after → p after) (touched : ∀ after, Touched state after → p after) : p (step state call).1 := by
  refine step_rule shape quiet touched ?_ ?_ ?_
  · rintro write answer _ rfl _
    cases idle
  · rintro size answer _ rfl _
    cases idle
  · intro change _ some _
    rw [Call.changes_idle call idle] at some
    cases some

omit [Zero α] in
variable {state after : State α}

theorem Shape.touched (shape : Shape state) (touched : Touched state after) : Shape after := by
  cases touched with
  | drainMask mask =>
    refine {shape with cache := fun cache => {shape.cache cache with active := ?_}}
    change state.pool.cacheMode = true at cache
    change (StagingDrain.storedMask state.pool mask).testBit state.tier = true
    rw [(shape.cache cache).tier]
    simp [StagingDrain.storedMask,cache]
  | _ => exact {shape with cache := fun cache => {shape.cache cache with}}

theorem Shape.step (shape : Shape state) (call : Call α) : Shape (step state call).1 := by
  refine step_keeps state shape call shape (fun shape _ => shape.quiet) (fun _ => shape.touched) ?_ ?_ ?_
  · intro pos data sidecar nonempty
    exact ((shape.opened.stagedAt rfl pos data nonempty).persisted sidecar).noted
  · intro begun lower size begins _
    exact {begins with cache := fun cache => {begins.cache cache with}}
  · intro tiers
    refine {shape with cache := fun cache => ?_}
    change state.pool.cacheMode = true at cache
    rw [tiers] at cache
    cases cache

theorem step_pool (state : State α) (shape : Shape state) (call : Call α) :
    ∃ nearFull, (step state call).1.pool = {state.pool with fastNearFull := nearFull} := by
  refine step_keeps (p := fun after => ∃ nearFull, after.pool = {state.pool with fastNearFull := nearFull})
    state shape call ⟨_,rfl⟩ ?_ ?_ ?_ ?_ ?_
  · rintro before after _ ⟨nearFull,same⟩ quiet
    exact ⟨nearFull,quiet.pool.trans same⟩
  · intro after touched
    cases touched <;> exact ⟨_,rfl⟩
  · exact fun _ _ _ _ => ⟨_,rfl⟩
  · exact fun _ _ _ _ same => same
  · exact fun _ => ⟨_,rfl⟩

theorem step_cacheMode {state : State α} (shape : Shape state) (call : Call α) :
    (step state call).1.pool.cacheMode = state.pool.cacheMode := by
  obtain ⟨nearFull,same⟩ := step_pool state shape call
  rw [same]

omit [Zero α] in
theorem Current.touched (current : Current state) (touched : Touched state after) : Current after := by
  cases touched <;> exact current

omit [Zero α] in
theorem Sized.touched (sized : Sized state) (touched : Touched state after) : Sized after := by
  cases touched <;> exact sized

theorem view_touched {state after : State α} (touched : Touched state after) : view after = view state := by
  cases touched <;> rfl

theorem Sound.touched {state after : State α} {content : List α} (sound : Sound state content) (touched : Touched state after) :
    Sound after content :=
  ⟨sound.shape.touched touched,sound.sized.touched touched,(view_touched touched).trans sound.same⟩

omit [Zero α] in
theorem begun_bare {begun : State α} (cache : state.pool.cacheMode = true → begun.rangeStaged = false)
    (tiers : state.pool.cacheMode = false → begun = state) (unstaged : state.pool.cacheMode = false → state.rangeStaged = false) :
    begun.rangeStaged = false := by
  cases mode : state.pool.cacheMode with
  | true => exact cache mode
  | false =>
    rw [tiers mode]
    exact unstaged mode

variable {content : List α}

theorem Sound.replaced (sound : Sound state content) (bare : state.rangeStaged = false)
    (lower : List α) (size : Nat) : Sound (noteDataChange {state with lower := lower, size := size}) lower := by
  have kept := sound.shape
  refine ⟨{kept with cache := fun cache => {kept.cache cache with}},?_,if_neg (by simp [noteDataChange,bare])⟩
  intro staged
  exact absurd staged (by simp [noteDataChange,bare])

variable {result : State α × Option Errno}

theorem Sound.changed {change : List α → List α} (sound : Sound state content) (changed : Changed state change result)
    (unstaged : state.pool.cacheMode = false → state.rangeStaged = false) :
    Sound result.1 (if result.2 = none then change content else content) := by
  cases changed with
  | refused errno quiet => exact sound.quiet quiet
  | @changed begun before cache tiers =>
    have begins := sound.quiet before
    have bare := begun_bare cache tiers unstaged
    rw [← begins.lower bare]
    exact begins.replaced bare _ begun.size

theorem Sound.sizeSet {size : Nat} (sound : Sound state content) (set : SizeSet state size result)
    (unstaged : state.pool.cacheMode = false → state.rangeStaged = false) :
    Sound result.1 (if result.2 = none then resize content size else content) := by
  cases set with
  | refused errno quiet => exact sound.quiet quiet
  | rehomed tiers empty =>
    have bare := unstaged tiers
    have shape := sound.shape
    subst empty
    refine ⟨{shape with cache := fun cache => ?_},?_,?_⟩
    · change state.pool.cacheMode = true at cache
      rw [tiers] at cache
      cases cache
    · intro staged
      exact absurd staged (by simp [noteDataChange,bare])
    · rw [view,if_neg (by simp [noteDataChange,bare])]
      simp [noteDataChange,resize]
  | @resized begun before cache tiers =>
    have begins := sound.quiet before
    have bare := begun_bare cache tiers unstaged
    rw [← begins.lower bare]
    exact begins.replaced bare _ size

/-- A staged write finds the right size, a write agrees with the lower file about appending, and in
a cache meets no late error; another change passes under no staged ranges, which only a cache drains
first, and a splice to a lower file that does not append. -/
def Keeps (state : State α) : Call α → Prop
  | .write call answer =>
    (shouldRangeStageWrite state call = true → Current state) ∧ Aligned state call ∧
      (state.pool.cacheMode = true → ¬ SyncFails call answer ∧ ¬ PersistFails state call answer)
  | .spliceWrite _ _ lowerAppend _ => lowerAppend = false ∧ (state.pool.cacheMode = false → state.rangeStaged = false)
  | .truncate _ _ | .fallocate _ _ _ _ | .remap _ _ _ | .clone _ _ _ => state.pool.cacheMode = false → state.rangeStaged = false
  | _ => True

instance (state : State α) : (call : Call α) → Decidable (Keeps state call)
  | .write call answer => inferInstanceAs (Decidable ((shouldRangeStageWrite state call = true → Current state) ∧ Aligned state call ∧
      (state.pool.cacheMode = true → ¬ SyncFails call answer ∧ ¬ PersistFails state call answer)))
  | .spliceWrite _ _ lowerAppend _ =>
    inferInstanceAs (Decidable (lowerAppend = false ∧ (state.pool.cacheMode = false → state.rangeStaged = false)))
  | .truncate _ _ | .fallocate _ _ _ _ | .remap _ _ _ | .clone _ _ _ =>
    inferInstanceAs (Decidable (state.pool.cacheMode = false → state.rangeStaged = false))
  | .drain _ | .read _ _ _ | .getattr | .spliceRead _ _ _ | .seekEnd _ | .usage _ | .map _ | .pin _ | .storeDrainMask _
  | .storeMetadataMask _ | .flushOid => isTrue trivial

theorem change_of (errno : Option Errno) (reply : Reply α) (content : List α) :
    call.change (.of errno reply) content = if errno = none then call.change reply content else content := by
  cases errno with
  | none => rfl
  | some errno => cases call <;> rfl

theorem Sound.step (sound : Sound state content) (call : Call α) (keeps : Keeps state call) :
    Sound (step state call).1 (call.change (step state call).2 content) := by
  have still : call.idle = true → Sound (RangeStaging.step state call).1 content := fun idle =>
    step_idle sound.shape idle (fun _ => sound.quiet) (fun _ => sound.touched)
  cases call with
  | write write answer => exact sound.written (writeIter_written sound.shape write answer) keeps.1 keeps.2.1 keeps.2.2
  | truncate size answer =>
    change Sound _ (Call.change _ (.of _ _) content)
    rw [change_of]
    exact sound.sizeSet (setSize_sizeSet sound.shape size answer) keeps
  | spliceWrite pos data lowerAppend answer =>
    obtain ⟨rfl,bare⟩ := keeps
    change Sound _ (Call.change _ (.of _ _) content)
    rw [change_of]
    exact sound.changed (changeLower_changed sound.shape answer) bare
  | fallocate mode offset length answer | clone pos data answer =>
    change Sound _ (Call.change _ (.of _ _) content)
    rw [change_of]
    exact sound.changed (changeLower_changed sound.shape answer) keeps
  | remap source pos answer =>
    change Sound (remapFileRange state source pos answer).1 (Call.change _ (remapFileRange state source pos answer).2 content)
    unfold remapFileRange
    split
    · exact sound
    · dsimp only
      rw [change_of]
      exact sound.changed (changeLower_changed sound.shape answer) keeps
  | _ => exact still rfl

/-- The observations that go past staged ranges: those of the lower file outside
a cache, and a `getattr` that trusts `i_size`. -/
def Sees (state : State α) : Call α → Prop
  | .spliceRead _ _ _ | .seekEnd _ => state.pool.cacheMode = false → state.rangeStaged = false
  | .getattr =>
    if metadataTierActive state state.tier then state.pool.cacheMode = false → state.rangeStaged = false else Current state
  | _ => True

theorem Sound.drainForLower (sound : Sound state content) (answer : DrainAnswer)
    (unstaged : state.pool.cacheMode = false → state.rangeStaged = false) (fine : (drainForLower state answer).2 = none) :
    (drainForLower state answer).1.lower = content := by
  unfold RangeStaging.drainForLower at fine ⊢
  split
  · next cache =>
    rw [if_pos cache] at fine
    have bare := drained_unstaged sound.shape cache (Prod.ext rfl fine)
    exact (sound.quiet (Quiet.refl.drained answer)).lower bare
  · next tiers => exact sound.lower (unstaged (by simpa using tiers))

theorem Sound.getattr (sound : Sound state content) (sees : Sees state .getattr) : getattrSize state = content.length := by
  unfold getattrSize
  by_cases active : metadataTierActive state state.tier = true
  · have sees : state.pool.cacheMode = false → state.rangeStaged = false := by simpa [Sees,active] using sees
    rw [if_neg (not_not.mpr active)]
    split
    · next cached =>
      have current : Current state := sound.sized cached.2
      rw [← length_view sound.shape current,sound.same]
    next other =>
    have bare : state.rangeStaged = false := by
      cases mode : state.pool.cacheMode with
      | true => simpa [mode] using other
      | false => exact sees mode
    rw [sound.lower bare]
  · have current : Current state := by simpa [Sees,active] using sees
    rw [if_pos active,← length_view sound.shape current,sound.same]

theorem Sound.faithful (sound : Sound state content) (call : Call α) (sees : Sees state call)
    (reads : ∀ pos count keep, call = .read pos count keep → (readIter state pos count keep).2 = window content pos count) :
    call.Faithful (RangeStaging.step state call).2 content := by
  cases call with
  | read pos count keep => exact reads pos count keep rfl
  | getattr => exact sound.getattr sees
  | spliceRead pos count answer =>
    change Call.Faithful _ (.of (RangeStaging.drainForLower state answer).2 _) content
    cases fine : (RangeStaging.drainForLower state answer).2 with
    | some errno => trivial
    | none =>
      change window (RangeStaging.drainForLower state answer).1.lower pos count = window content pos count
      rw [sound.drainForLower answer sees fine]
  | seekEnd answer =>
    change Call.Faithful _ (.of (RangeStaging.drainForLower state answer).2 _) content
    cases fine : (RangeStaging.drainForLower state answer).2 with
    | some errno => trivial
    | none =>
      change (RangeStaging.drainForLower state answer).1.lower.length = content.length
      rw [sound.drainForLower answer sees fine]
  | _ => trivial

end Steps

def slowFile (cacheMode nearFull : Bool) (lower : List Nat) : State Nat where
  pool :=
    {ntiers := 2, fastestTier := 0, cacheMode := cacheMode, quiesced := false, writeStaging := true, fastNearFull := nearFull}
  drainMask := if cacheMode then 3 else 1
  metadataMask := 3
  tier := 1
  pinState := .none
  mapped := false
  lower := lower
  size := lower.length
  rangeStaged := false
  ranges := []
  stagePath := false
  stage := none
  sourceTier := Namespace.maxTiers
  stagingPinned := false
  sidecar := none
  stamped := true
  writeSeq := 0
  cutoverGen := 0
  cacheSeq := 0
  cacheGen := 0
  cacheChunks := []

def wholeWrite (pos : Nat) (data : List Nat) (append : Bool) : Call Nat :=
  .write ⟨pos,data,append,false,false,false⟩ ⟨none,.ok data.length,none,0,.fine,.ok data.length,.fine,none⟩

end Smoothfs.RangeStaging
