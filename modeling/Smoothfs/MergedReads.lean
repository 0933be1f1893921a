import Smoothfs.ReadRace
import Smoothfs.RangeTier

/-! What the reads and the calls of a race rely on, step by step, and what a merged
read returns. -/
namespace Smoothfs.ReadRace

open RangeStaging Content Extents Run

section Invariant

variable {α : Type} [Zero α]

def Good (file : State α) (index : Nat) (byte : α) : Prop :=
  (covers file.ranges index = true ∨ index < file.lower.length) ∧ merged file index = byte

/-- What a call relies on in the file: no range is staged while it brings `i_size`
after the lower file. -/
structure Calm (file : State α) (writer : Writer α) : Prop where
  sampled : ∀ size, writer.phase = .sampled size → file.rangeStaged = false ∧ size = file.lower.length
  direct : writer.staged = false → writer.phase = .performed ∨ writer.phase = .noted → file.rangeStaged = false

structure WriterSound (file : State α) (writer : Writer α) : Prop where
  begun : writer.phase = .begun → ∀ index, writer.mine index = none
  owned : ∀ index byte, writer.mine index = some byte → Good file index byte
  sized : writer.staged = true ∨ writer.phase = .stored → ∀ index byte, writer.mine index = some byte → index < file.size
  calm : Calm file writer

def Fits (file : State α) (reader : Reader α) : Prop :=
  match reader.branch with
  | .sizing => True
  | .merging size none => ∀ index byte, reader.due index = some byte → index < size
  | .merging size (some buf) => ∀ index byte, reader.due index = some byte → index < size ∧
      (reader.pos ≤ index → index < reader.pos + buf.length →
        covers file.ranges index = true ∨ fetch buf (index - reader.pos) = byte)
  | _ => ∀ index byte, reader.due index = some byte → covers file.ranges index = false

variable {file : State α} {reader : Reader α}

theorem Fits.caching (fits : Fits file reader) (caching : reader.branch.caching = true) :
    ∀ index byte, reader.due index = some byte → covers file.ranges index = false := by
  obtain ⟨start,count,branch,out,ended,due⟩ := reader
  cases branch with
  | cached => exact fits
  | _ => cases caching

structure ReaderSound (file : State α) (known : Nat → Option α) (reader : Reader α) : Prop where
  due : ∀ index byte, reader.due index = some byte →
    known index = some byte ∧ reader.start ≤ index ∧ index < reader.start + reader.count
  fits : reader.ended = false → Fits file reader

def Reader.Told (reader : Reader α) : Prop :=
  ∀ index byte, reader.due index = some byte →
    (index < reader.pos → reader.out[index - reader.start]? = some byte) ∧ (reader.ended = true → index < reader.pos)

structure Sound (race : Race α) : Prop where
  shape : Shape race.file
  known : ∀ index byte, race.known index = some byte → Good race.file index byte ∧ index < race.file.size
  writers : ∀ writer ∈ race.writers, WriterSound race.file writer
  readers : ∀ reader ∈ race.readers, ReaderSound race.file race.known reader
  told : ∀ reader ∈ race.readers, reader.branch.caching = false → reader.Told

omit [Zero α] in
theorem Reader.Told.paid (told : reader.Told) : reader.Paid :=
  fun ended index byte due => (told index byte due).1 ((told index byte due).2 ended)

variable {index : Nat}

theorem Good.unstaged {byte : α} (good : Good file index byte)
    (uncovered : covers file.ranges index = false) : index < file.lower.length ∧ fetch file.lower index = byte := by
  obtain ⟨present,same⟩ := good
  rw [uncovered] at present
  refine ⟨present.resolve_left Bool.false_ne_true,?_⟩
  rwa [merged,overlay,uncovered,if_neg Bool.false_ne_true] at same

omit [Zero α] in
theorem uncovered (shape : Shape file) (unstaged : file.rangeStaged = false) (index : Nat) : covers file.ranges index = false := by
  rw [shape.unstaged unstaged,covers_nil]

variable {hit : Nat → Bool}

theorem forget_eq_some {β : Type} {bytes : Nat → Option β} {byte : β} :
    forget hit bytes index = some byte ↔ hit index = false ∧ bytes index = some byte := by
  unfold forget
  cases hit index <;> simp

structure Carries (file after : State α) (hit : Nat → Bool) : Prop where
  shape : Shape after
  mode : after.pool.cacheMode = file.pool.cacheMode
  good : ∀ index byte, hit index = false → Good file index byte → Good after index byte
  size : ∀ index byte, hit index = false → Good file index byte → index < file.size → index < after.size
  fresh : ∀ index, hit index = false → covers after.ranges index = true → covers file.ranges index = true

def Kept (race : Race α) (after : State α) : Prop :=
  (∃ reader ∈ race.readers, reader.buffered = true) →
    ∀ index, covers race.file.ranges index = true → covers after.ranges index = true

variable {after : State α}

theorem Fits.carried (fits : Fits file reader) (going : reader.ended = false) (carries : Carries file after hit)
    (kept : reader.buffered = true → ∀ index, covers file.ranges index = true → covers after.ranges index = true) :
    Fits after {reader with due := forget hit reader.due} := by
  obtain ⟨start,count,branch,out,ended,due⟩ := reader
  cases going
  cases branch with
  | sizing => trivial
  | merging size buf =>
    cases buf with
    | none => exact fun index byte owed => fits index byte (forget_eq_some.mp owed).2
    | some buf =>
      intro index byte owed
      obtain ⟨inside,right⟩ := fits index byte (forget_eq_some.mp owed).2
      exact ⟨inside,fun behind before => (right behind before).imp_left (kept rfl index)⟩
  | _ =>
    intro index byte owed
    obtain ⟨missed,owed⟩ := forget_eq_some.mp owed
    rw [← Bool.not_eq_true]
    intro covered
    have uncovered := fits index byte owed
    rw [carries.fresh index missed covered] at uncovered
    cases uncovered

omit [Zero α] in
theorem Reader.Told.forget (told : reader.Told) (hit : Nat → Bool) : Reader.Told {reader with due := forget hit reader.due} :=
  fun index byte owed => told index byte (forget_eq_some.mp owed).2

variable {race : Race α}

theorem Sound.moved (sound : Sound race)
    (carries : Carries race.file after hit) (kept : Kept race after) (calm : ∀ writer ∈ race.writers, Calm after writer) :
    Sound (race.moved after hit) where
  shape := carries.shape
  known := by
    intro index byte known
    obtain ⟨missed,known⟩ := forget_eq_some.mp known
    obtain ⟨good,inside⟩ := sound.known index byte known
    exact ⟨carries.good index byte missed good,carries.size index byte missed good inside⟩
  writers := by
    intro writer member
    obtain ⟨before,there,rfl⟩ := List.mem_map.mp member
    have held := sound.writers before there
    refine ⟨fun begun index => ?_,?_,?_,?_⟩
    · simp [forget,held.begun begun index]
    · intro index byte mine
      obtain ⟨missed,mine⟩ := forget_eq_some.mp mine
      exact carries.good index byte missed (held.owned index byte mine)
    · intro ready index byte mine
      obtain ⟨missed,mine⟩ := forget_eq_some.mp mine
      exact carries.size index byte missed (held.owned index byte mine) (held.sized ready index byte mine)
    · exact ⟨(calm before there).sampled,(calm before there).direct⟩
  readers := by
    intro reader member
    obtain ⟨before,there,rfl⟩ := List.mem_map.mp member
    have held := sound.readers before there
    refine ⟨?_,fun going => (held.fits going).carried going carries (fun buffered => kept ⟨before,there,buffered⟩)⟩
    intro index byte owed
    obtain ⟨missed,owed⟩ := forget_eq_some.mp owed
    obtain ⟨known,within⟩ := held.due index byte owed
    exact ⟨forget_eq_some.mpr ⟨missed,known⟩,within⟩
  told := by
    intro reader member uncached
    obtain ⟨before,there,rfl⟩ := List.mem_map.mp member
    exact (sound.told before there uncached).forget hit

theorem Sound.setWriter (sound : Sound race) (id : Nat) (writer : Writer α)
    (held : WriterSound race.file writer) : Sound {race with writers := race.writers.set id writer} where
  shape := sound.shape
  known := sound.known
  writers := by
    intro other member
    obtain member | rfl := List.mem_or_eq_of_mem_set member
    · exact sound.writers other member
    · exact held
  readers := sound.readers
  told := sound.told

theorem Sound.setReader (sound : Sound race) (id : Nat) (reader : Reader α)
    (held : ReaderSound race.file race.known reader) (told : reader.branch.caching = false → reader.Told) :
    Sound {race with readers := race.readers.set id reader} where
  shape := sound.shape
  known := sound.known
  writers := sound.writers
  readers := by
    intro other member
    obtain member | rfl := List.mem_or_eq_of_mem_set member
    · exact sound.readers other member
    · exact held
  told := by
    intro other member
    obtain member | rfl := List.mem_or_eq_of_mem_set member
    · exact sound.told other member
    · exact told

theorem Sound.changed {change : Change α} (sound : Sound race) (id : Nat)
    (carries : Carries race.file change.file change.hit) (kept : Kept race change.file)
    (calm : ∀ writer ∈ race.writers, Calm change.file writer) (held : WriterSound change.file change.writer) :
    Sound (race.changed id change) :=
  (sound.moved carries kept calm).setWriter id change.writer held

end Invariant

section Carried

variable {α : Type} [Zero α] {file after : State α}

theorem Carries.same (shape : Shape after) (mode : after.pool.cacheMode = file.pool.cacheMode) (ranges : after.ranges = file.ranges)
    (stage : after.stage.getD [] = file.stage.getD []) (lower : after.lower = file.lower) (size : after.size = file.size) :
    Carries file after untouched where
  shape := shape
  mode := mode
  good := by
    intro index byte _ good
    unfold Good merged at good ⊢
    rwa [ranges,stage,lower]
  size := fun index byte _ _ inside => size ▸ inside
  fresh := fun index _ covered => ranges ▸ covered

variable (shape : Shape file)
include shape

theorem carries_noted : Carries file (noteDataChange file) untouched :=
  .same shape.noted rfl rfl rfl rfl rfl

theorem carries_opened (opens : after = file ∨ after = opened file) : Carries file after untouched := by
  obtain rfl | rfl := opens
  · exact .same shape rfl rfl rfl rfl rfl
  · exact .same shape.opened rfl rfl rfl rfl rfl

variable {data : List α}

theorem covers_staged (pos : Nat) (nonempty : data ≠ []) (index : Nat) :
    covers (stagedAt (opened file) pos data).ranges index = (covers file.ranges index || hits (placed pos data) index) := by
  rw [covers_stagedAt shape.opened pos nonempty]
  congr 1
  rw [Bool.eq_iff_iff,holds_iff,hits_placed]

theorem merged_stagedAt (pos : Nat) (nonempty : data ≠ []) (index : Nat) :
    merged (stagedAt (opened file) pos data) index =
      if pos ≤ index ∧ index < pos + data.length then fetch data (index - pos) else merged file index := by
  change overlay (rangeStageRecord file.ranges pos (pos + data.length)) (write (file.stage.getD []) pos data) file.lower index = _
  rw [rangeStageRecord_add _ _ nonempty,overlay_write shape.separated.proper _ _ _ nonempty]
  rfl

theorem carries_staged (pos : Nat) (nonempty : data ≠ []) :
    Carries file (stagedAt (opened file) pos data) (hits (placed pos data)) where
  shape := shape.opened.stagedAt rfl pos data nonempty
  mode := rfl
  good := by
    intro index byte missed good
    refine ⟨?_,?_⟩
    · rw [covers_staged shape pos nonempty,missed,Bool.or_false]
      exact good.1
    · rw [merged_stagedAt shape pos nonempty,if_neg (missed_placed missed)]
      exact good.2
  size := fun index byte _ _ inside => Nat.lt_of_lt_of_le inside (Nat.le_max_left _ _)
  fresh := by
    intro index missed covered
    rwa [covers_staged shape pos nonempty,missed,Bool.or_false] at covered

theorem good_staged {pos : Nat} (nonempty : data ≠ []) {index : Nat} {byte : α}
    (placed : placed pos data index = some byte) :
    Good (stagedAt (opened file) pos data) index byte ∧ index < (stagedAt (opened file) pos data).size := by
  obtain ⟨behind,before,same⟩ := placed_fetch placed
  refine ⟨⟨.inl ?_,?_⟩,Nat.lt_of_lt_of_le before (Nat.le_max_right _ _)⟩
  · rw [covers_staged shape pos nonempty,(hits_placed pos data index).mpr ⟨behind,before⟩,Bool.or_true]
  · rw [merged_stagedAt shape pos nonempty,if_pos ⟨behind,before⟩,same]

theorem carries_lower (lower : List α) (size : Nat) (hit : Nat → Bool)
    (kept : ∀ index, hit index = false → index < file.lower.length → index < lower.length ∧ fetch lower index = fetch file.lower index)
    (sized : ∀ index byte, hit index = false → Good file index byte → index < file.size → index < size) :
    Carries file {file with lower := lower, size := size} hit where
  shape := ⟨shape.separated,shape.unstaged,shape.staged,fun cache => {shape.cache cache with}⟩
  mode := rfl
  good := by
    intro index byte missed good
    by_cases covered : covers file.ranges index = true
    · refine ⟨.inl covered,?_⟩
      have same := good.2
      rw [merged,overlay,if_pos covered] at same
      change overlay file.ranges _ lower index = byte
      rw [overlay,if_pos covered,same]
    · rw [Bool.not_eq_true] at covered
      obtain ⟨inside,same⟩ := good.unstaged covered
      obtain ⟨there,equal⟩ := kept index missed inside
      refine ⟨.inr there,?_⟩
      change overlay file.ranges _ lower index = byte
      rw [overlay,covered,if_neg Bool.false_ne_true,equal,same]
  size := sized
  fresh := fun index _ covered => covered

theorem carries_write (pos : Nat) (data : List α) :
    Carries file {file with lower := write file.lower pos data} (hits (placed pos data)) := by
  apply carries_lower shape (write file.lower pos data) file.size
  · intro index missed inside
    rw [fetch_write,if_neg (missed_placed missed),length_write]
    exact ⟨by split <;> omega,rfl⟩
  · exact fun index byte _ _ inside => inside

theorem carries_resize (size : Nat) :
    Carries file {file with lower := resize file.lower size, size := size} (fun index => size ≤ index) := by
  apply carries_lower shape
  · intro index missed inside
    have before : index < size := by simpa using missed
    rw [length_resize,fetch_resize,if_pos before]
    exact ⟨before,rfl⟩
  · intro index byte missed _ _
    simpa using missed

theorem carries_size (unstaged : file.rangeStaged = false) : Carries file {file with size := file.lower.length} untouched := by
  apply carries_lower shape file.lower
  · exact fun index _ inside => ⟨inside,rfl⟩
  · exact fun index byte _ good _ => (good.unstaged (uncovered shape unstaged index)).1

theorem carries_drained (answer : DrainAnswer) : Carries file (drainOneRange file answer).1 untouched := by
  have drained := drainOneRange_drained file shape answer
  have kept := shape.drained drained
  generalize drainOneRange file answer = result at drained kept
  cases drained with
  | idle nothing => exact .same shape rfl rfl rfl rfl rfl
  | failed lower errno staged stopped copied =>
    refine ⟨kept,rfl,?_,fun _ _ _ _ inside => inside,fun _ _ covered => covered⟩
    intro index byte _ good
    exact ⟨good.1.imp_right (fun inside => Nat.lt_of_lt_of_le inside copied.grown),(copied.overlay index).trans good.2⟩
  | finished lower staged fine settled =>
    refine ⟨kept,rfl,?_,fun _ _ _ _ inside => inside,fun _ _ covered => by cases covered⟩
    intro index byte _ good
    refine ⟨.inr ?_,(settled.bytes index).trans good.2⟩
    change index < lower.length
    rw [settled.size]
    obtain covered | inside := good.1
    · exact Nat.lt_of_lt_of_le (covers_lt_bound _ shape.separated _ covered) (Nat.le_max_right _ _)
    · exact Nat.lt_of_lt_of_le inside (Nat.le_max_left _ _)

omit shape

end Carried

variable {id : Nat}

section Writing

variable {α : Type} [Zero α] {race next : Race α}

omit [Zero α] in
theorem moved_untouched (file : State α) : race.moved file untouched = {race with file := file} := by
  have same : ∀ {β : Type} (bytes : Nat → Option β), forget untouched bytes = bytes := fun bytes => rfl
  simp [Race.moved,Race.touch,same]

variable {after : State α}

theorem Sound.moved_file (sound : Sound race) (carries : Carries race.file after untouched)
    (kept : Kept race after) (calm : ∀ writer ∈ race.writers, Calm after writer) : Sound {race with file := after} := by
  rw [← moved_untouched]
  exact sound.moved carries kept calm

variable {writer : Writer α} {file : State α}

omit [Zero α] in
theorem Calm.idle (idle : writer.phase = .begun ∨ writer.phase = .finished) : Calm file writer := by
  obtain begun | finished := idle
  · exact ⟨by simp [begun],by simp [begun]⟩
  · exact ⟨by simp [finished],by simp [finished]⟩

omit [Zero α] in
theorem Orderly.stageable (orderly : Orderly race) (found : race.writers[id]? = some writer)
    (begun : writer.phase = .begun) (apart : ∀ other ∈ race.writers, ∀ size, other.phase ≠ .sampled size) (after : State α) :
    ∀ other ∈ race.writers, Calm after other := by
  intro other member
  cases cache : race.file.pool.cacheMode with
  | true => exact .idle (orderly.alone cache found begun other member)
  | false =>
    refine ⟨fun size sampled => absurd sampled (apart other member size),fun direct going => ?_⟩
    rw [orderly.staging cache other member going] at direct
    cases direct

theorem calm_drained (calm : Calm file writer) (answer : DrainAnswer) :
    Calm (drainOneRange file answer).1 writer := by
  have idle : file.rangeStaged = false → (drainOneRange file answer).1 = file := by
    intro unstaged
    simp [drainOneRange,unstaged]
  refine ⟨fun size sampled => ?_,fun direct going => ?_⟩
  · rw [idle (calm.sampled size sampled).1]
    exact calm.sampled size sampled
  · rw [idle (calm.direct direct going)]
    exact calm.direct direct going

omit [Zero α] in
theorem kept_ranges (same : after.ranges = race.file.ranges) : Kept race after :=
  fun _ _ covered => same ▸ covered

theorem WriterSound.bare (bare : ∀ index, writer.mine index = none)
    (calm : Calm file writer) : WriterSound file writer where
  begun := fun _ => bare
  owned := fun index byte mine => by rw [bare index] at mine; cases mine
  sized := fun _ index byte mine => by rw [bare index] at mine; cases mine
  calm := calm

variable (sound : Sound race)
include sound

theorem Sound.stage (orderly : Orderly race) {answer : WriteAnswer}
    (apart : ∀ other ∈ race.writers, ∀ size, other.phase ≠ .sampled size)
    (taken : onWriter race id (stageWrite race.file answer) = some next) : Sound next := by
  obtain ⟨writer,change,found,acted,rfl⟩ := onWriter_change taken
  obtain ⟨begun,staged⟩ := stageWrite_staged acted
  have bare := (sound.writers writer (List.mem_of_getElem? found)).begun begun
  have calm := orderly.stageable found begun apart
  cases staged with
  | spilled after opens pos =>
    refine sound.changed id (carries_opened sound.shape opens) (kept_ranges ?_) (calm _) (.bare bare (.idle (.inl begun)))
    obtain rfl | rfl := opens <;> rfl
  | refused after opens =>
    refine sound.changed id (carries_opened sound.shape opens) (kept_ranges ?_) (calm _) (.bare bare ⟨?_,?_⟩)
    · obtain rfl | rfl := opens <;> rfl
    all_goals simp
  | taken pos data sidecar nonempty =>
    have carries := carries_staged sound.shape pos nonempty
    refine sound.changed id {carries with shape := carries.shape.persisted sidecar} ?_ (calm _) ⟨?_,?_,?_,?_,?_⟩
    · intro _ index covered
      change covers (stagedAt (opened race.file) pos data).ranges index = true
      rw [covers_staged sound.shape pos nonempty,covered,Bool.true_or]
    · simp
    · exact fun index byte mine => (good_staged sound.shape nonempty mine).1
    · exact fun _ index byte mine => (good_staged sound.shape nonempty mine).2
    all_goals simp
  | unpersisted pos data sidecar nonempty =>
    have carries := carries_staged sound.shape pos nonempty
    refine sound.changed id {carries with shape := (carries.shape.persisted sidecar).noted} ?_ (calm _) (.bare bare ⟨?_,?_⟩)
    · intro _ index covered
      change covers (stagedAt (opened race.file) pos data).ranges index = true
      rw [covers_staged sound.shape pos nonempty,covered,Bool.true_or]
    all_goals simp

theorem Sound.through (orderly : Orderly race) (cache : race.file.pool.cacheMode = true)
    {answer : Except Errno Nat} (taken : onWriter race id (writeThrough race.file answer) = some next) : Sound next := by
  obtain ⟨writer,change,found,acted,rfl⟩ := onWriter_change taken
  obtain ⟨begun,unstaged,through⟩ := writeThrough_through acted
  have bare := (sound.writers writer (List.mem_of_getElem? found)).begun begun
  have calm : ∀ after : State α, ∀ other ∈ race.writers, Calm after other :=
    fun after other member => .idle (orderly.alone cache found begun other member)
  cases through with
  | refused =>
    refine sound.changed id (.same sound.shape rfl rfl rfl rfl rfl) (kept_ranges rfl) (calm _) (.bare bare ⟨?_,?_⟩)
    all_goals simp
  | taken pos data nonempty =>
    refine sound.changed id (carries_write sound.shape pos data) (kept_ranges rfl) (calm _) ⟨?_,?_,?_,?_,?_⟩
    · simp
    · intro index byte mine
      obtain ⟨behind,before,same⟩ := placed_fetch mine
      refine ⟨.inr ?_,?_⟩
      · change index < (write race.file.lower pos data).length
        rw [length_write,if_neg nonempty]
        omega
      · change overlay race.file.ranges _ (write race.file.lower pos data) index = byte
        rw [overlay,uncovered sound.shape unstaged,if_neg Bool.false_ne_true,fetch_write,if_pos ⟨behind,before⟩,same]
    · simp
    · simp
    · exact fun _ _ => unstaged

theorem Sound.resize (orderly : Orderly race) (cache : race.file.pool.cacheMode = true)
    (taken : onWriter race id (resizeLower race.file) = some next) : Sound next := by
  obtain ⟨writer,change,found,acted,rfl⟩ := onWriter_change taken
  obtain ⟨begun,unstaged,size,rfl⟩ := resizeLower_change acted
  have bare := (sound.writers writer (List.mem_of_getElem? found)).begun begun
  refine sound.changed id (carries_resize sound.shape size) (kept_ranges rfl)
    (fun other member => .idle (orderly.alone cache found begun other member)) (.bare bare ⟨?_,fun _ _ => unstaged⟩)
  simp

theorem Sound.note (taken : onWriter race id (noteChange race.file) = some next) : Sound next := by
  obtain ⟨writer,change,found,acted,rfl⟩ := onWriter_change taken
  obtain ⟨performed,rfl | rfl⟩ := noteChange_change acted
  all_goals
    have held := sound.writers writer (List.mem_of_getElem? found)
    refine sound.changed id (carries_noted sound.shape) (kept_ranges rfl)
      (fun other member => ⟨(sound.writers other member).calm.sampled,(sound.writers other member).calm.direct⟩) ?_
  · refine ⟨?_,held.owned,?_,?_,?_⟩
    · simp
    · exact fun ready => held.sized (.inl (by simpa using ready))
    · simp
    · exact fun direct _ => held.calm.direct direct (.inl performed)
  · refine .bare (fun _ => rfl) ⟨?_,?_⟩ <;> simp

theorem Sound.sample (taken : onWriter race id (sampleSize race.file) = some next) : Sound next := by
  obtain ⟨writer,change,found,acted,rfl⟩ := onWriter_change taken
  obtain ⟨noted,rfl⟩ := sampleSize_change acted
  have held := sound.writers writer (List.mem_of_getElem? found)
  refine sound.changed id (.same sound.shape rfl rfl rfl rfl rfl) (kept_ranges rfl)
    (fun other member => (sound.writers other member).calm) ?_
  cases staged : race.file.rangeStaged with
  | true =>
    refine ⟨?_,held.owned,fun _ => held.sized (.inl ?_),?_,?_⟩
    · simp
    · rw [← Bool.not_eq_false]
      intro direct
      rw [held.calm.direct direct (.inr noted)] at staged
      cases staged
    all_goals simp
  | false =>
    refine ⟨?_,held.owned,fun ready => held.sized (.inl (by simpa using ready)),?_,?_⟩
    · simp
    · intro size sampled
      exact ⟨staged,(Phase.sampled.inj sampled).symm⟩
    · simp

theorem Sound.store (taken : onWriter race id (storeSize race.file) = some next) : Sound next := by
  obtain ⟨writer,change,found,acted,rfl⟩ := onWriter_change taken
  obtain ⟨size,sampled,rfl⟩ := storeSize_change acted
  have held := sound.writers writer (List.mem_of_getElem? found)
  obtain ⟨unstaged,rfl⟩ := held.calm.sampled size sampled
  refine sound.changed id (carries_size sound.shape unstaged) (kept_ranges rfl)
    (fun other member => ⟨(sound.writers other member).calm.sampled,(sound.writers other member).calm.direct⟩)
    ⟨?_,held.owned,fun _ index byte mine => ?_,?_,?_⟩
  · simp
  · exact ((held.owned index byte mine).unstaged (uncovered sound.shape unstaged index)).1
  all_goals simp

theorem Sound.finish {acknowledged : Bool} (taken : finishCall race id acknowledged = some next) : Sound next := by
  obtain ⟨writer,found,ready,rfl⟩ := finishCall_spec taken
  have held := sound.writers writer (List.mem_of_getElem? found)
  have sized : ∀ index byte, writer.mine index = some byte → index < race.file.size := by
    intro index byte mine
    obtain begun | stored := ready
    · rw [held.begun begun index] at mine
      cases mine
    · exact held.sized (.inr stored) index byte mine
  refine ⟨sound.shape,?_,?_,?_,sound.told⟩
  · intro index byte known
    dsimp only at known
    split at known
    swap
    · exact sound.known index byte known
    cases mine : writer.mine index with
    | none =>
      rw [mine] at known
      exact sound.known index byte known
    | some other =>
      rw [mine] at known
      cases known
      exact ⟨held.owned index byte mine,sized index byte mine⟩
  · exact (sound.setWriter id _ (.bare (fun _ => rfl) (.idle (.inr rfl)))).writers
  · intro reader member
    have reading := sound.readers reader member
    refine ⟨fun index byte owed => ⟨?_,(reading.due index byte owed).2⟩,reading.fits⟩
    have known := (reading.due index byte owed).1
    dsimp only
    split
    swap
    · exact known
    cases mine : writer.mine index with
    | none => exact known
    | some other =>
      -- Both vouch for the byte that a read gets.
      have same := (held.owned index other mine).2.symm.trans (sound.known index byte known).1.2
      exact congrArg some same

omit sound

end Writing

section Reading

variable {α : Type} [Zero α] {race next : Race α}

theorem getElem?_of_fetch {content : List α} {index : Nat} {byte : α} (inside : index < content.length)
    (same : fetch content index = byte) : content[index]? = some byte := by
  rw [List.getElem?_eq_getElem inside,← fetch_lt content index inside,same]

theorem Reader.Told.append {reader after : Reader α} (told : reader.Told) {more : List α} (start : after.start = reader.start)
    (due : after.due = reader.due) (out : after.out = reader.out ++ more) (going : after.ended = false)
    (owes : ∀ index byte, reader.due index = some byte → reader.start ≤ index)
    (right : ∀ index byte, reader.due index = some byte → reader.pos ≤ index → index < reader.pos + more.length →
      fetch more (index - reader.pos) = byte) : after.Told := by
  intro index byte owed
  rw [due] at owed
  have behind := owes index byte owed
  refine ⟨fun before => ?_,fun ended => absurd ended (by simp [going])⟩
  unfold Reader.pos at before right
  rw [out,List.length_append] at before
  rw [start,out]
  by_cases old : index < reader.start + reader.out.length
  · rw [List.getElem?_append_left (by omega)]
    exact (told index byte owed).1 old
  rw [List.getElem?_append_right (by omega)]
  refine getElem?_of_fetch (by omega) ?_
  rw [Nat.sub_sub]
  exact right index byte owed (by omega) (by omega)

def Reads (race : Race α) (act : Reader α → Option (Reader α)) : Prop :=
  ∀ reader after, ReaderSound race.file race.known reader → reader.ended = false →
    (reader.branch.caching = false → reader.Told) → act reader = some after →
    ReaderSound race.file race.known after ∧ (after.branch.caching = false → after.Told)

theorem Sound.onReader {act : Reader α → Option (Reader α)} (sound : Sound race) (reads : Reads race act)
    (taken : onReader race id act = some next) : Sound next := by
  obtain ⟨reader,after,found,going,acted,rfl⟩ := onReader_spec taken
  have member := List.mem_of_getElem? found
  obtain ⟨held,told⟩ := reads reader after (sound.readers reader member) going (sound.told reader member) acted
  exact sound.setReader id after held told

theorem sizeRead_reads (sound : Sound race) : Reads race (sizeRead race.file) := by
  rintro ⟨start,count,branch,out,ended,due⟩ after held going told acted
  cases branch with
  | sizing =>
    cases acted
    refine ⟨⟨held.due,fun _ index byte owed => ?_⟩,fun _ => told rfl⟩
    exact (sound.known index byte (held.due index byte owed).1).2
  | _ => cases acted

theorem fetch_chunk (lower : List α) {pos avail index : Nat} (behind : pos ≤ index) (before : index < pos + avail) :
    fetch (resize (window lower pos avail) avail) (index - pos) = fetch lower index := by
  have inside : index - pos < avail := by omega
  rw [fetch_resize,if_pos inside,fetch_window,if_pos inside,Nat.add_sub_cancel' behind]

theorem lowerRead_reads (sound : Sound race) : Reads race (lowerRead race.file) := by
  intro reader after held going told acted
  have fits := held.fits going
  unfold lowerRead at acted
  unfold Fits at fits
  split at acted
  swap
  · cases acted
  next size branch =>
  rw [branch] at fits told
  split at acted
  · -- The bytes of the lower file are right where no range lies.
    cases acted
    refine ⟨⟨held.due,fun _ index byte owed => ⟨fits index byte owed,?_⟩⟩,fun _ => told rfl⟩
    intro behind before
    rw [length_resize] at before
    have good := (sound.known index byte (held.due index byte owed).1).1
    by_cases covered : covers race.file.ranges index = true
    · exact .inl covered
    · exact .inr ((fetch_chunk race.file.lower behind before).trans (good.unstaged (by simpa using covered)).2)
  · next done =>
    cases acted
    refine ⟨⟨held.due,fun going => by cases going⟩,fun _ index byte owed => ?_⟩
    refine ⟨(told rfl index byte owed).1,fun _ => ?_⟩
    have within := (held.due index byte owed).2.2
    have inside := fits index byte owed
    change index < reader.pos
    unfold Reader.left Reader.pos at done
    unfold Reader.pos
    omega

theorem overlayRead_reads (sound : Sound race) : Reads race (overlayRead race.file) := by
  intro reader after held going told acted
  have fits := held.fits going
  unfold overlayRead at acted
  unfold Fits at fits
  split at acted
  swap
  · cases acted
  next size buf branch =>
  rw [branch] at fits told
  cases acted
  have stored : bound race.file.ranges ≤ (race.file.stage.getD []).length := by
    cases staged : race.file.rangeStaged with
    | true => exact (sound.shape.staged staged).2
    | false => rw [sound.shape.unstaged staged]; exact Nat.zero_le _
  obtain ⟨length,bytes⟩ := overlayLocked_spec reader.pos sound.shape.separated stored buf
  refine ⟨⟨held.due,fun _ index byte owed => (fits index byte owed).1⟩,fun _ => ?_⟩
  refine (told rfl).append rfl rfl rfl going (fun index byte owed => (held.due index byte owed).2.1) ?_
  intro index byte owed behind before
  rw [length] at before
  rw [bytes _ (by omega),Nat.add_sub_cancel' behind]
  have good := (sound.known index byte (held.due index byte owed).1).1.2
  split
  · next covered => rwa [merged,overlay,if_pos covered] at good
  · next bare => exact ((fits index byte owed).2 behind before).resolve_left bare

theorem plainRead_told (sound : Sound race) {reader after : Reader α} (held : ReaderSound race.file race.known reader)
    (going : reader.ended = false) (acted : plainRead race.file reader = some after) :
    ReaderSound race.file race.known after ∧ after.branch = reader.branch ∧ after.Told := by
  have fits := held.fits going
  obtain ⟨start,count,branch,out,ended,due⟩ := reader
  have direct : (∀ index byte, due index = some byte → covers race.file.ranges index = false) ∧
      after = ⟨start,count,branch,window race.file.lower start count,true,due⟩ := by
    unfold plainRead at acted
    cases branch
    case cached | plain =>
      dsimp only at acted
      split at acted
      · exact ⟨fits,(Option.some.inj acted).symm⟩
      · cases acted
    all_goals cases acted
  obtain ⟨bare,rfl⟩ := direct
  refine ⟨⟨held.due,fun going => by cases going⟩,rfl,fun index byte owed => ?_⟩
  obtain ⟨known,behind,before⟩ := held.due index byte owed
  obtain ⟨inside,same⟩ := (sound.known index byte known).1.unstaged (bare index byte owed)
  dsimp only at behind before
  have read : index - start < (window race.file.lower start count).length := by
    rw [length_window]
    omega
  refine ⟨fun _ => getElem?_of_fetch read ?_,fun _ => ?_⟩
  · dsimp only
    rw [fetch_window,if_pos (by omega),Nat.add_sub_cancel' behind,same]
  · unfold Reader.pos
    dsimp only
    omega

theorem plainRead_reads (sound : Sound race) : Reads race (plainRead race.file) := by
  intro reader after held going told acted
  obtain ⟨kept,_,paid⟩ := plainRead_told sound held going acted
  exact ⟨kept,fun _ => paid⟩

omit [Zero α] in
theorem Shape.recached {file : State α} (shape : Shape file) (seq gen : Nat) (chunks : List (Nat × List α)) :
    Shape (recached file seq gen chunks) :=
  {shape with cache := fun cache => {shape.cache cache with}}

end Reading

section Steps

variable {α : Type} [Zero α] {race next : Race α}

def settles (file : State α) (answer : DrainAnswer) : Bool :=
  file.rangeStaged && !(drainOneRange file answer).1.rangeStaged

def Writer.sampling (writer : Writer α) : Bool :=
  match writer.phase with
  | .sampled _ => true
  | _ => false

/-- No range appears while a call brings `i_size` after the lower file, and none goes while a read
holds a lower chunk. -/
def apart (race : Race α) : Label α → Bool
  | .stage _ _ => race.writers.all (fun writer => !writer.sampling)
  | .drain answer => !settles race.file answer || race.readers.all (fun reader => !reader.buffered)
  | _ => true

omit [Zero α] in
theorem beginRead_due {pos count index : Nat} {byte : α} (owed : (beginRead race pos count).due index = some byte) :
    race.known index = some byte ∧ pos ≤ index ∧ index < pos + count := by
  dsimp only [beginRead] at owed
  split at owed
  · next within => exact ⟨owed,within⟩
  · cases owed

omit [Zero α] in
theorem beginRead_told (race : Race α) (pos count : Nat) : (beginRead race pos count).Told := by
  intro index byte owed
  have behind := (beginRead_due owed).2.1
  refine ⟨fun before => ?_,fun ended => by cases ended⟩
  simp only [Reader.pos,beginRead,List.length_nil] at before
  omega

variable (sound : Sound race)
include sound

theorem beginRead_fits (pos count : Nat) : Fits race.file (beginRead race pos count) := by
  cases staged : race.file.rangeStaged with
  | true => simp [Fits,beginRead,staged]
  | false =>
    have bare := uncovered sound.shape staged
    unfold Fits
    simp only [beginRead,staged]
    by_cases cache : race.file.pool.cacheMode = true ∧ race.file.tier = race.file.pool.ntiers - 1
    · simp [cache,bare]
    · simp [cache,bare]

theorem Sound.read (pos count : Nat) : Sound {race with readers := race.readers ++ [beginRead race pos count]} := by
  refine ⟨sound.shape,sound.known,sound.writers,fun reader member => ?_,fun reader member => ?_⟩
  all_goals obtain member | last := List.mem_append.mp member
  · exact sound.readers reader member
  · cases List.mem_singleton.mp last
    exact ⟨fun index byte => beginRead_due,fun _ => beginRead_fits sound pos count⟩
  · exact sound.told reader member
  · cases List.mem_singleton.mp last
    exact fun _ => beginRead_told race pos count

theorem Sound.aside {after : State α} (shape : Shape after)
    (mode : after.pool.cacheMode = race.file.pool.cacheMode) (ranges : after.ranges = race.file.ranges)
    (stage : after.stage = race.file.stage) (lower : after.lower = race.file.lower) (size : after.size = race.file.size)
    (staged : after.rangeStaged = race.file.rangeStaged) : Sound {race with file := after} := by
  refine sound.moved_file (.same shape mode ranges (by rw [stage]) lower size) (kept_ranges ranges) (fun writer member => ?_)
  have calm := (sound.writers writer member).calm
  exact ⟨by rw [staged,lower]; exact calm.sampled,by rw [staged]; exact calm.direct⟩

theorem Sound.cacheSet (seq gen : Nat) (chunks : List (Nat × List α)) :
    Sound {race with file := recached race.file seq gen chunks} :=
  sound.aside (Shape.recached sound.shape seq gen chunks) rfl rfl rfl rfl rfl rfl

theorem Sound.cachedRead {keep : Bool} (taken : onCached race id keep = some next) : Sound next := by
  obtain ⟨reader,found,going,caching,rfl⟩ := onCached_spec taken
  have member := List.mem_of_getElem? found
  have held := sound.readers reader member
  obtain ⟨seq,gen,chunks,file⟩ := cachedRead_file race.file keep reader
  have after : ReaderSound (recached race.file seq gen chunks) race.known (ReadRace.cachedRead race.file keep reader).2 ∧
      (ReadRace.cachedRead race.file keep reader).2.branch = reader.branch := by
    obtain ⟨more,ends | goes⟩ := cachedRead_reader race.file keep reader
    · rw [ends]
      exact ⟨⟨held.due,fun going => by cases going⟩,rfl⟩
    rw [goes]
    refine ⟨⟨held.due,fun _ => ?_⟩,rfl⟩
    have fits := held.fits going
    obtain ⟨start,count,branch,out,ended,due⟩ := reader
    cases branch with
    | cached => exact fits
    | _ => cases caching
  have set := (sound.cacheSet seq gen chunks).setReader id _ after.1 (fun uncached => by rw [after.2,caching] at uncached; cases uncached)
  rw [file]
  exact ⟨set.shape,set.known,set.writers,set.readers,set.told⟩

theorem Sound.drain (answer : DrainAnswer) (apart : apart race (.drain answer) = true) :
    Sound {race with file := (drainOneRange race.file answer).1} := by
  refine sound.moved_file (carries_drained sound.shape answer) ?_
    (fun writer member => calm_drained (sound.writers writer member).calm answer)
  rintro ⟨reader,member,buffered⟩
  have stays : settles race.file answer ≠ true := by
    intro settled
    simp only [ReadRace.apart,settled,Bool.not_true,Bool.false_or,List.all_eq_true,Bool.not_eq_true'] at apart
    rw [apart reader member] at buffered
    cases buffered
  unfold settles at stays
  have drained := drainOneRange_drained race.file sound.shape answer
  generalize drainOneRange race.file answer = result at drained stays
  cases drained with
  | idle nothing | failed lower errno staged stopped copied => exact fun _ covered => covered
  | finished lower staged fine settled => exact absurd (by rw [staged]; rfl) stays

theorem Sound.mappedStore {index : Nat} (inside : index < race.file.lower.length) (byte : α) :
    Sound (race.moved {race.file with lower := write race.file.lower index [byte]} (· = index)) := by
  have length : (write race.file.lower index [byte]).length = race.file.lower.length := by
    rw [length_write,if_neg (List.cons_ne_nil _ _),List.length_singleton]
    omega
  refine sound.moved (carries_lower sound.shape _ race.file.size _ ?_ (fun _ _ _ _ inside => inside)) (kept_ranges rfl) ?_
  · intro other missed before
    have different : other ≠ index := by simpa using missed
    rw [length,fetch_write,if_neg (by rw [List.length_singleton]; omega)]
    exact ⟨before,rfl⟩
  · intro writer member
    have calm := (sound.writers writer member).calm
    exact ⟨fun size sampled => ⟨(calm.sampled size sampled).1,(calm.sampled size sampled).2.trans length.symm⟩,calm.direct⟩

theorem Sound.call {task : Task α} (taken : beginCall race task = some next) : Sound next := by
  obtain ⟨lock,rfl,_⟩ := beginCall_spec taken
  refine ⟨sound.shape,sound.known,fun writer member => ?_,sound.readers,sound.told⟩
  obtain member | last := List.mem_append.mp member
  · exact sound.writers writer member
  · cases List.mem_singleton.mp last
    exact .bare (fun _ => rfl) (.idle (.inl rfl))

theorem Sound.clear (taken : clearForMap race id = some next) : Sound next := by
  obtain ⟨writer,found,begun,rfl⟩ := clearForMap_spec taken
  have bare := (sound.writers writer (List.mem_of_getElem? found)).begun begun
  have set := (sound.cacheSet race.file.cacheSeq race.file.cacheGen []).setWriter id {writer with phase := .finished}
    (.bare bare (.idle (.inr rfl)))
  exact ⟨set.shape,set.known,set.writers,set.readers,set.told⟩

theorem Sound.step {label : Label α} (orderly : Orderly race)
    (allowed : race.file.pool.cacheMode = true ∨ label.staging = true) (apart : apart race label = true)
    (taken : step race label = some next) : Sound next := by
  have direct : label.staging = false → race.file.pool.cacheMode = true := by
    intro other
    rw [other] at allowed
    exact allowed.resolve_right Bool.false_ne_true
  have shaped : ∀ file : State α, Shape file → ∀ mapped, Shape {file with mapped := mapped} :=
    fun file shape mapped => {shape with cache := fun cache => {shape.cache cache with}}
  cases label with
  | read pos count => cases taken; exact sound.read pos count
  | sizeRead id => exact sound.onReader (sizeRead_reads sound) taken
  | lowerRead id => exact sound.onReader (lowerRead_reads sound) taken
  | overlay id => exact sound.onReader (overlayRead_reads sound) taken
  | plainRead id => exact sound.onReader (plainRead_reads sound) taken
  | cachedRead id keep => exact sound.cachedRead taken
  | call task => exact sound.call taken
  | stage id answer =>
    refine sound.stage orderly (fun writer member size sampled => ?_) taken
    have none := List.all_eq_true.mp apart writer member
    simp [Writer.sampling,sampled] at none
  | through id answer => exact sound.through orderly (direct rfl) taken
  | resize id => exact sound.resize orderly (direct rfl) taken
  | note id => exact sound.note taken
  | sample id => exact sound.sample taken
  | store id => exact sound.store taken
  | finish id acknowledged => exact sound.finish taken
  | clear id => exact sound.clear taken
  | link =>
    simp only [ReadRace.step] at taken
    split at taken
    · cases taken
    cases taken
    have after := sound.aside (shaped _ sound.shape true) rfl rfl rfl rfl rfl rfl
    exact ⟨after.shape,after.known,after.writers,after.readers,after.told⟩
  | unmap => cases taken; exact sound.aside (shaped _ sound.shape false) rfl rfl rfl rfl rfl rfl
  | mappedStore index byte =>
    simp only [ReadRace.step] at taken
    split at taken
    · next inside => cases taken; exact sound.mappedStore inside.2 byte
    · cases taken
  | drain answer => cases taken; exact sound.drain answer apart
  | dropReadCache =>
    simp only [ReadRace.step] at taken
    split at taken
    · cases taken; exact sound.cacheSet _ _ _
    · cases taken
  | cutover dest =>
    simp only [ReadRace.step] at taken
    split at taken
    · next planned => exact absurd (planned.2.1.trans (sound.shape.cache planned.1).tier.symm) planned.2.2
    · cases taken
  | usage nearFull | pin pinState =>
    cases taken
    exact sound.aside {sound.shape with cache := fun cache => {sound.shape.cache cache with}} rfl rfl rfl rfl rfl rfl

omit sound

end Steps

section Runs

variable {α : Type} [Zero α]

variable {file : State α}

theorem sound_opening (shape : Shape file) : Sound (opening file) where
  shape := shape
  known _ _ remembered := by cases remembered
  writers _ member := absurd member List.not_mem_nil
  readers _ member := absurd member List.not_mem_nil
  told _ member := absurd member List.not_mem_nil

omit [Zero α] in
theorem orderly_opening (file : State α) : Orderly (opening file) where
  locked _ _ _ found := by cases found
  staging _ _ member := absurd member List.not_mem_nil

theorem sound_run (shape : Shape file) (guard : Race α → Label α → Prop) (labels : List (Label α)) (final : Race α)
    (allowed : ∀ race label, guard race label → (race.file.pool.cacheMode = true ∨ label.staging = true) ∧ apart race label = true)
    (guarded : Guarded step guard (opening file) labels) (reached : run step (opening file) labels = some final) : Sound final := by
  refine (invariant step guard (fun race => Sound race ∧ Orderly race) ?_ (opening file) final labels
    ⟨sound_opening shape,orderly_opening file⟩ guarded reached).1
  rintro race label next ⟨sound,orderly⟩ met taken
  obtain ⟨mode,apart⟩ := allowed race label met
  exact ⟨sound.step orderly mode apart taken,orderly.step mode taken⟩

/-- A read of a staged file gives the bytes of every write that was acknowledged before it began and
not overwritten since. -/
theorem merged_read_acknowledged (file : State α) (shape : Shape file) (labels : List (Label α)) (final : Race α)
    (guarded : Guarded step (fun race label => label.staging = true ∧ apart race label = true) (opening file) labels)
    (reached : run step (opening file) labels = some final) :
    ∀ reader ∈ final.readers, reader.branch.caching = false → reader.Paid := by
  have sound := sound_run shape _ labels final (fun race label met => ⟨.inr met.1,met.2⟩) guarded reached
  exact fun reader member uncached => (sound.told reader member uncached).paid

end Runs

def overwritten : List (Label Nat) :=
  [.call (.write ⟨0,[9],false,false,false,false⟩),.stage 0 ⟨none,.ok 1,none,0,.fine,.ok 1,.fine,none⟩,.note 0,.sample 0,
    .finish 0 true,.read 0 1,.sizeRead 0]

def drainable : State Nat :=
  {slowFile false false [1] with drainMask := 3}

theorem drainable_shape : Shape drainable :=
  {(slowFile_unstaged false false [1]).shape with cache := nofun}

theorem read_before_drain :
    ∃ final, run step (opening drainable) (overwritten ++ [.lowerRead 0,.overlay 0,.drain .fine,.lowerRead 0]) = some final ∧
      final.file.rangeStaged = false ∧ (∃ reader ∈ final.readers, reader.ended = true ∧ reader.due 0 = some 9) ∧
      ∀ reader ∈ final.readers, reader.branch.caching = false → reader.Paid := by
  obtain ⟨final,reached,unstaged,owed⟩ :
      ∃ final, run step (opening drainable) (overwritten ++ [.lowerRead 0,.overlay 0,.drain .fine,.lowerRead 0]) = some final ∧
        final.file.rangeStaged = false ∧ ∃ reader ∈ final.readers, reader.ended = true ∧ reader.due 0 = some 9 :=
    reaches (by decide +kernel)
  exact ⟨final,reached,unstaged,owed,
    merged_read_acknowledged drainable drainable_shape _ final (by decide +kernel) reached⟩

/-- The lower file is read before the staged byte reaches it, and the ranges are gone when they are
laid over it. -/
theorem read_across_drain :
    Shape drainable ∧
      ∃ final, run step (opening drainable) (overwritten ++ [.lowerRead 0,.drain .fine,.overlay 0,.lowerRead 0]) = some final ∧
        ∃ reader ∈ final.readers, reader.branch.caching = false ∧ reader.due 0 = some 9 ∧ reader.out = [1] ∧ ¬ reader.Paid := by
  obtain ⟨final,reached,reader,member,uncached,ended,owed,out⟩ :
      ∃ final, run step (opening drainable) (overwritten ++ [.lowerRead 0,.drain .fine,.overlay 0,.lowerRead 0]) = some final ∧
        ∃ reader ∈ final.readers, reader.branch.caching = false ∧ reader.ended = true ∧ reader.due 0 = some 9 ∧ reader.out = [1] :=
    reaches (by decide +kernel)
  refine ⟨drainable_shape,final,reached,reader,member,uncached,owed,out,fun paid => ?_⟩
  have got := paid ended 0 9 owed
  rw [out,Nat.zero_sub] at got
  cases got

end Smoothfs.ReadRace
