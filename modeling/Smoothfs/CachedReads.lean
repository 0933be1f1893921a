import Smoothfs.MergedReads

/-! The read cache of a base file while the file is read, written, truncated,
mapped and drained. A chunk is as good as the number of the change that it was
read after; a drain changes the base file and no number. -/
namespace Smoothfs.ReadRace

open RangeStaging Content Extents Run

section Cache

variable {α : Type} [Zero α] {race next : Race α}

def Writer.counted (writer : Writer α) : Bool :=
  match writer.phase with
  | .noted | .sampled _ | .stored => true
  | _ => false

def Trusted (race : Race α) (index : Nat) (byte : α) : Prop :=
  race.known index = some byte ∨ ∃ writer ∈ race.writers, writer.counted = true ∧ writer.mine index = some byte

def Holds (base : Nat) (chunk : List α) (index : Nat) (byte : α) : Prop :=
  base ≤ index → min rangeReadChunk (index - base + 1) ≤ chunk.length ∧
    (index - base < chunk.length → chunk[index - base]? = some byte)

structure Valid (race : Race α) : Prop where
  behind : race.file.cacheSeq ≤ race.file.writeSeq
  chunks : race.file.cacheSeq = race.file.writeSeq → ∀ place chunk, race.file.cacheChunks.lookup place = some chunk →
    ∀ index byte, Trusted race index byte → Holds (place * rangeReadChunk) chunk index byte
  told : ∀ reader ∈ race.readers, reader.branch.caching = true → reader.Told

/-- No chunk is kept under staged ranges, and no drain comes between the two halves of a merged
chunk. -/
def cleanly (race : Race α) : Label α → Bool
  | .cachedRead _ keep => !keep || !race.file.rangeStaged
  | .drain answer => apart race (.drain answer)
  | _ => true

omit [Zero α] in
theorem Valid.carried (valid : Valid race) (seq : next.file.cacheSeq = race.file.cacheSeq)
    (chunks : next.file.cacheChunks = race.file.cacheChunks ∨ next.file.cacheChunks = [])
    (grows : race.file.writeSeq ≤ next.file.writeSeq)
    (trusted : next.file.writeSeq = race.file.writeSeq → ∀ index byte, Trusted next index byte → Trusted race index byte)
    (told : ∀ reader ∈ next.readers, reader.branch.caching = true → reader.Told) : Valid next where
  behind := seq ▸ valid.behind.trans grows
  chunks := by
    intro current place chunk found index byte relied
    have behind := valid.behind
    have same : next.file.writeSeq = race.file.writeSeq := by omega
    obtain kept | dropped := chunks
    · rw [kept] at found
      exact valid.chunks (by omega) place chunk found index byte (trusted same index byte relied)
    · rw [dropped] at found
      cases found
  told := told

omit [Zero α] in
theorem Valid.aside (valid : Valid race) (seq : next.file.cacheSeq = race.file.cacheSeq)
    (chunks : next.file.cacheChunks = race.file.cacheChunks ∨ next.file.cacheChunks = [])
    (count : next.file.writeSeq = race.file.writeSeq) (known : next.known = race.known) (writers : next.writers = race.writers)
    (readers : next.readers = race.readers) : Valid next := by
  refine valid.carried seq chunks (Nat.le_of_eq count.symm) (fun _ index byte relied => ?_) (readers ▸ valid.told)
  unfold Trusted at relied ⊢
  rwa [known,writers] at relied

omit [Zero α] in
theorem Valid.moved (valid : Valid race) {file : State α} (seq : file.cacheSeq = race.file.cacheSeq)
    (chunks : file.cacheChunks = race.file.cacheChunks) (grows : race.file.writeSeq ≤ file.writeSeq) (hit : Nat → Bool) :
    Valid (race.moved file hit) := by
  refine valid.carried seq (.inl chunks) grows (fun _ index byte relied => ?_) (fun reader member caching => ?_)
  · obtain known | ⟨writer,member,counted,mine⟩ := relied
    · exact .inl (forget_eq_some.mp known).2
    · obtain ⟨before,there,rfl⟩ := List.mem_map.mp member
      exact .inr ⟨before,there,counted,(forget_eq_some.mp mine).2⟩
  · obtain ⟨before,there,rfl⟩ := List.mem_map.mp member
    exact (valid.told before there caching).forget hit

omit [Zero α] in
theorem Valid.changed (valid : Valid race) (id : Nat) {change : Change α} (seq : change.file.cacheSeq = race.file.cacheSeq)
    (chunks : change.file.cacheChunks = race.file.cacheChunks) (grows : race.file.writeSeq ≤ change.file.writeSeq)
    (trusted : change.file.writeSeq = race.file.writeSeq → change.writer.counted = true → ∀ index byte,
      change.writer.mine index = some byte → Trusted race index byte) : Valid (race.changed id change) := by
  have moved := valid.moved seq chunks grows change.hit
  refine valid.carried seq (.inl chunks) grows (fun same index byte relied => ?_) moved.told
  obtain known | ⟨writer,member,counted,mine⟩ := relied
  · exact .inl (forget_eq_some.mp known).2
  obtain member | rfl := List.mem_or_eq_of_mem_set member
  · obtain ⟨before,there,rfl⟩ := List.mem_map.mp member
    exact .inr ⟨before,there,counted,(forget_eq_some.mp mine).2⟩
  · exact trusted same counted index byte mine

omit [Zero α] in
theorem Valid.setReader (valid : Valid race) (id : Nat) (reader : Reader α) (told : reader.branch.caching = true → reader.Told) :
    Valid {race with readers := race.readers.set id reader} := by
  refine valid.carried rfl (.inl rfl) (Nat.le_refl _) (fun _ _ _ relied => relied) (fun other member => ?_)
  obtain member | rfl := List.mem_or_eq_of_mem_set member
  · exact valid.told other member
  · exact told

theorem Trusted.good {index : Nat} {byte : α} (trusted : Trusted race index byte) (sound : Sound race) : Good race.file index byte := by
  obtain known | ⟨writer,member,_,mine⟩ := trusted
  · exact (sound.known index byte known).1
  · exact (sound.writers writer member).owned index byte mine

theorem holds_window {file : State α} {index : Nat} {byte : α} (good : Good file index byte)
    (bare : covers file.ranges index = false) {base : Nat} : Holds base (window file.lower base rangeReadChunk) index byte := by
  intro behind
  obtain ⟨inside,same⟩ := good.unstaged bare
  rw [length_window]
  refine ⟨by omega,fun within => getElem?_of_fetch (by rwa [length_window]) ?_⟩
  rw [fetch_window,if_pos (by omega),Nat.add_sub_cancel' behind,same]

omit [Zero α] in
theorem Valid.revalidate (valid : Valid race) :
    (revalidate race.file).cacheSeq = race.file.writeSeq ∧ ∀ place chunk,
      (revalidate race.file).cacheChunks.lookup place = some chunk → ∀ index byte, Trusted race index byte →
        Holds (place * rangeReadChunk) chunk index byte := by
  unfold RangeStaging.revalidate
  split
  · exact ⟨rfl,nofun⟩
  · next current =>
    have same : race.file.cacheSeq = race.file.writeSeq := not_not.mp (fun other => current (.inr (.inl other)))
    exact ⟨same,valid.chunks same⟩

variable (sound : Sound race)
include sound

theorem cachedChunk_valid (valid : Valid race) {reader : Reader α}
    (held : ReaderSound race.file race.known reader)
    (bare : ∀ index byte, reader.due index = some byte → covers race.file.ranges index = false)
    {keep : Bool} (clean : keep = true → race.file.rangeStaged = false) (place : Nat) :
    (∀ index byte, reader.due index = some byte →
      Holds (place * rangeReadChunk) (cachedChunk (RangeStaging.revalidate race.file) keep place).2 index byte) ∧
    (cachedChunk (RangeStaging.revalidate race.file) keep place).1.cacheSeq = race.file.writeSeq ∧
    ∀ other chunk, (cachedChunk (RangeStaging.revalidate race.file) keep place).1.cacheChunks.lookup other = some chunk →
      ∀ index byte, Trusted race index byte → Holds (other * rangeReadChunk) chunk index byte := by
  obtain ⟨newest,good⟩ := valid.revalidate
  obtain ⟨seq,gen,chunks,fresh⟩ := revalidate_recached race.file
  have lower : (RangeStaging.revalidate race.file).lower = race.file.lower := by
    rw [fresh]
    rfl
  obtain ⟨chunk,found,read⟩ | ⟨chunk,whole,stored⟩ := cachedChunk_cases (RangeStaging.revalidate race.file) keep place
  · rw [read]
    exact ⟨fun index byte owed => good place chunk found index byte (.inl (held.due index byte owed).1),newest,good⟩
  rw [lower] at whole
  have owned : ∀ index byte, reader.due index = some byte → Holds (place * rangeReadChunk) chunk index byte := by
    intro index byte owed
    rw [whole]
    exact holds_window (sound.known index byte (held.due index byte owed).1).1 (bare index byte owed)
  obtain read | ⟨kept,read⟩ := stored
  · rw [read]
    exact ⟨owned,newest,good⟩
  rw [read]
  refine ⟨owned,newest,fun other held found index byte trusted => ?_⟩
  change List.lookup other ((place,chunk)::_) = some held at found
  rw [List.lookup_cons] at found
  split at found
  · next same =>
    cases found
    rw [beq_iff_eq.mp same,whole]
    exact holds_window (trusted.good sound) (uncovered sound.shape (clean kept) index)
  · exact good other held found index byte trusted

theorem cachedRead_told (valid : Valid race) {reader : Reader α}
    (held : ReaderSound race.file race.known reader) (going : reader.ended = false) (caching : reader.branch.caching = true)
    (told : reader.Told) {keep : Bool} (clean : keep = true → race.file.rangeStaged = false) :
    (cachedRead race.file keep reader).2.Told := by
  have bare := (held.fits going).caching caching
  have chunk := (cachedChunk_valid sound valid held bare clean (reader.pos / rangeReadChunk)).1
  unfold cachedRead
  split
  · next done =>
    intro index byte owed
    refine ⟨(told index byte owed).1,fun _ => ?_⟩
    have within := (held.due index byte owed).2.2
    change index < reader.pos
    unfold Reader.left at done
    unfold Reader.pos
    omega
  dsimp only
  generalize (cachedChunk (revalidate race.file) keep (reader.pos / rangeReadChunk)).2 = bytes at chunk ⊢
  have base : reader.pos / rangeReadChunk * rangeReadChunk ≤ reader.pos := Nat.div_mul_le_self _ _
  have room : reader.pos - reader.pos / rangeReadChunk * rangeReadChunk < rangeReadChunk := by
    have split := Nat.div_add_mod' reader.pos rangeReadChunk
    have rest := Nat.mod_lt reader.pos (show 0 < rangeReadChunk by decide)
    omega
  generalize reader.pos / rangeReadChunk * rangeReadChunk = begins at chunk base room ⊢
  split
  · next empty =>
    intro index byte owed
    refine ⟨(told index byte owed).1,fun _ => ?_⟩
    change index < reader.pos
    -- A byte that is owed lies in the chunk, so there was something to give.
    by_contra behind
    have reach := (chunk index byte owed (by omega)).1
    have length : (window bytes (reader.pos - begins) reader.left).length = 0 := by
      rw [List.isEmpty_iff.mp empty]
      rfl
    rw [length_window] at length
    omega
  · refine told.append rfl rfl rfl going (fun index byte owed => (held.due index byte owed).2.1) ?_
    intro index byte owed behind before
    rw [length_window] at before
    have right := (chunk index byte owed (by omega)).2 (by omega)
    rw [fetch_window,if_pos (by omega)]
    have place : reader.pos - begins + (index - reader.pos) = index - begins := by omega
    rw [place]
    simp [fetch,right]

theorem Valid.cachedRead (valid : Valid race) {id : Nat} {keep : Bool}
    (clean : keep = true → race.file.rangeStaged = false) (taken : onCached race id keep = some next) : Valid next := by
  obtain ⟨reader,found,going,caching,rfl⟩ := onCached_spec taken
  have member := List.mem_of_getElem? found
  have held := sound.readers reader member
  have told := cachedRead_told sound valid held going caching (valid.told reader member caching) clean
  have rest : ∀ other ∈ race.readers.set id (ReadRace.cachedRead race.file keep reader).2, other.branch.caching = true → other.Told := by
    intro other member
    obtain member | rfl := List.mem_or_eq_of_mem_set member
    · exact valid.told other member
    · exact fun _ => told
  have kept : (ReadRace.cachedRead race.file keep reader).1 = race.file ∨
      (ReadRace.cachedRead race.file keep reader).1 =
        (cachedChunk (RangeStaging.revalidate race.file) keep (reader.pos / rangeReadChunk)).1 := by
    unfold ReadRace.cachedRead
    split
    · exact .inl rfl
    · dsimp only
      split <;> exact .inr rfl
  obtain same | same := kept
  · rw [same]
    exact valid.carried rfl (.inl rfl) (Nat.le_refl _) (fun _ _ _ relied => relied) rest
  obtain ⟨_,newest,good⟩ := cachedChunk_valid sound valid held ((held.fits going).caching caching) clean (reader.pos / rangeReadChunk)
  obtain ⟨seq,gen,chunks,file⟩ := cachedRead_file race.file keep reader
  have count : (ReadRace.cachedRead race.file keep reader).1.writeSeq = race.file.writeSeq := by
    rw [file]
    rfl
  rw [← same] at newest good
  exact ⟨Nat.le_of_eq (newest.trans count.symm),fun _ => good,rest⟩

theorem Valid.drain (valid : Valid race) (answer : DrainAnswer) :
    Valid {race with file := (drainOneRange race.file answer).1} := by
  have drained := drainOneRange_drained race.file sound.shape answer
  generalize drainOneRange race.file answer = result at drained
  cases drained <;> exact valid.aside rfl (.inl rfl) rfl rfl rfl rfl

theorem Valid.stage (valid : Valid race) {id : Nat} {answer : WriteAnswer}
    (taken : step race (.stage id answer) = some next) : Valid next := by
  obtain ⟨writer,change,found,acted,rfl⟩ := onWriter_change taken
  obtain ⟨begun,staged⟩ := stageWrite_staged acted
  have bare := (sound.writers writer (List.mem_of_getElem? found)).begun begun
  cases staged with
  | spilled after opens pos =>
    refine valid.changed id ?_ ?_ ?_ (by simp [Writer.counted,begun]) <;> obtain rfl | rfl := opens <;> rfl
  | refused after opens =>
    refine valid.changed id ?_ ?_ ?_ (by simp [bare]) <;> obtain rfl | rfl := opens <;> rfl
  | taken pos data sidecar nonempty => exact valid.changed id rfl rfl (Nat.le_refl _) (by simp [Writer.counted])
  | unpersisted pos data sidecar nonempty => exact valid.changed id rfl rfl (Nat.le_succ _) (by simp [bare])

omit sound

omit [Zero α] in
theorem Trusted.setWriter {id index : Nat} {byte : α} {writer : Writer α} (relied : Trusted next index byte)
    (writers : next.writers = race.writers.set id writer) (silent : writer.counted = true → writer.mine index ≠ some byte)
    (known : next.known index = some byte → Trusted race index byte) : Trusted race index byte := by
  obtain told | ⟨other,there,counted,mine⟩ := relied
  · exact known told
  rw [writers] at there
  obtain there | rfl := List.mem_or_eq_of_mem_set there
  · exact .inr ⟨other,there,counted,mine⟩
  · exact absurd mine (silent counted)

theorem Valid.finish (sound : Sound race) (valid : Valid race) {id : Nat} {acknowledged : Bool}
    (taken : step race (.finish id acknowledged) = some next) : Valid next := by
  obtain ⟨writer,found,ready,rfl⟩ := finishCall_spec taken
  have member := List.mem_of_getElem? found
  have stored : ∀ index byte, writer.mine index = some byte → Trusted race index byte := by
    intro index byte mine
    obtain begun | stored := ready
    · rw [(sound.writers writer member).begun begun index] at mine
      cases mine
    · exact .inr ⟨writer,member,by simp [Writer.counted,stored],mine⟩
  refine valid.carried rfl (.inl rfl) (Nat.le_refl _) (fun _ index byte relied => ?_) valid.told
  refine relied.setWriter rfl (fun _ mine => by cases mine) (fun known => ?_)
  dsimp only at known
  split at known
  swap
  · exact .inl known
  cases mine : writer.mine index with
  | none => rw [mine] at known; exact .inl known
  | some own => rw [mine] at known; cases known; exact stored index byte mine

theorem Valid.step {label : Label α} (sound : Sound race) (valid : Valid race) (clean : cleanly race label = true)
    (taken : step race label = some next) : Valid next := by
  cases label with
  | read pos count =>
    cases taken
    refine valid.carried rfl (.inl rfl) (Nat.le_refl _) (fun _ _ _ relied => relied) (fun reader member => ?_)
    obtain member | last := List.mem_append.mp member
    · exact valid.told reader member
    · cases List.mem_singleton.mp last
      exact fun _ => beginRead_told race pos count
  | sizeRead id | lowerRead id | overlay id =>
    obtain ⟨reader,after,_,_,acted,rfl⟩ := onReader_spec taken
    have merging : after.branch.caching = false := by
      simp only [sizeRead,lowerRead,overlayRead] at acted
      split at acted
      · next branch =>
        first
        | cases acted; rfl
        | split at acted <;> cases acted <;> simp [branch,Branch.caching]
      · cases acted
    exact valid.setReader id after (fun caching => by rw [merging] at caching; cases caching)
  | plainRead id =>
    obtain ⟨reader,after,found,going,acted,rfl⟩ := onReader_spec taken
    have told := (plainRead_told sound (sound.readers reader (List.mem_of_getElem? found)) going acted).2.2
    exact valid.setReader id after (fun _ => told)
  | cachedRead id keep =>
    refine valid.cachedRead sound (fun keeps => ?_) taken
    simpa [cleanly,keeps] using clean
  | call task =>
    obtain ⟨lock,rfl,_⟩ := beginCall_spec taken
    refine valid.carried rfl (.inl rfl) (Nat.le_refl _) (fun _ index byte relied => ?_) valid.told
    obtain known | ⟨writer,member,counted,mine⟩ := relied
    · exact .inl known
    obtain member | last := List.mem_append.mp member
    · exact .inr ⟨writer,member,counted,mine⟩
    · cases List.mem_singleton.mp last
      cases mine
  | stage id answer => exact valid.stage sound taken
  | through id answer =>
    obtain ⟨writer,change,found,acted,rfl⟩ := onWriter_change taken
    obtain ⟨begun,_,through⟩ := writeThrough_through acted
    have bare := (sound.writers writer (List.mem_of_getElem? found)).begun begun
    cases through with
    | refused => exact valid.changed id rfl rfl (Nat.le_refl _) (by simp [bare])
    | taken pos data nonempty => exact valid.changed id rfl rfl (Nat.le_refl _) (by simp [Writer.counted])
  | resize id =>
    obtain ⟨writer,change,_,acted,rfl⟩ := onWriter_change taken
    obtain ⟨_,_,size,rfl⟩ := resizeLower_change acted
    exact valid.changed id rfl rfl (Nat.le_refl _) (by simp [Writer.counted])
  | note id =>
    obtain ⟨writer,change,_,acted,rfl⟩ := onWriter_change taken
    have counts : (noteDataChange race.file).writeSeq ≠ race.file.writeSeq := Nat.succ_ne_self _
    obtain ⟨_,rfl | rfl⟩ := noteChange_change acted
    · exact valid.changed id rfl rfl (Nat.le_succ _) (fun same => absurd same counts)
    · exact valid.changed id rfl rfl (Nat.le_succ _) (fun same => absurd same counts)
  | sample id =>
    obtain ⟨writer,change,found,acted,rfl⟩ := onWriter_change taken
    obtain ⟨noted,rfl⟩ := sampleSize_change acted
    exact valid.changed id rfl rfl (Nat.le_refl _)
      (fun _ _ index byte mine => .inr ⟨writer,List.mem_of_getElem? found,by simp [Writer.counted,noted],mine⟩)
  | store id =>
    obtain ⟨writer,change,found,acted,rfl⟩ := onWriter_change taken
    obtain ⟨size,sampled,rfl⟩ := storeSize_change acted
    exact valid.changed id rfl rfl (Nat.le_refl _)
      (fun _ _ index byte mine => .inr ⟨writer,List.mem_of_getElem? found,by simp [Writer.counted,sampled],mine⟩)
  | finish id acknowledged => exact valid.finish sound taken
  | clear id =>
    obtain ⟨writer,found,begun,rfl⟩ := clearForMap_spec taken
    refine valid.carried rfl (.inr rfl) (Nat.le_refl _) (fun _ index byte relied => ?_) valid.told
    exact relied.setWriter rfl (fun counted => by cases counted) .inl
  | mappedStore index byte =>
    simp only [ReadRace.step] at taken
    split at taken
    · cases taken
      apply valid.moved
      all_goals rfl
    · cases taken
  | drain answer => cases taken; exact valid.drain sound answer
  | link | cutover dest =>
    simp only [ReadRace.step] at taken
    split at taken <;> cases taken
    exact valid.aside rfl (.inl rfl) rfl rfl rfl rfl
  | dropReadCache =>
    simp only [ReadRace.step] at taken
    split at taken <;> cases taken
    exact valid.aside rfl (.inr rfl) rfl rfl rfl rfl
  | unmap | usage nearFull | pin pinState => cases taken; exact valid.aside rfl (.inl rfl) rfl rfl rfl rfl

theorem apart_of_cleanly {label : Label α} (orderly : Orderly race) (cache : race.file.pool.cacheMode = true)
    (clean : cleanly race label = true) (taken : step race label = some next) : apart race label = true := by
  cases label with
  | stage id answer =>
    obtain ⟨writer,change,found,acted,_⟩ := onWriter_change taken
    have alone := orderly.alone cache found (stageWrite_staged acted).1
    refine List.all_eq_true.mpr (fun other member => ?_)
    obtain begun | finished := alone other member
    · simp [Writer.sampling,begun]
    · simp [Writer.sampling,finished]
  | drain answer => exact clean
  | _ => rfl

/-- A read of a cache gives the bytes of every write that was acknowledged before it began and not
changed since. -/
theorem cached_read_acknowledged (file : State α) (shape : Shape file) (cache : file.pool.cacheMode = true)
    (behind : file.cacheSeq ≤ file.writeSeq) (labels : List (Label α)) (final : Race α)
    (guarded : Guarded step (fun race label => cleanly race label = true) (opening file) labels)
    (reached : run step (opening file) labels = some final) : ∀ reader ∈ final.readers, reader.Paid := by
  have start : Valid (opening file) := by
    refine ⟨behind,?_,nofun⟩
    rintro _ place chunk _ index byte (known | ⟨writer,member,_⟩)
    · cases known
    · cases member
  have kept := invariant step _ (fun race => (Sound race ∧ Orderly race) ∧ race.file.pool.cacheMode = true ∧ Valid race) ?_
    (opening file) final labels ⟨⟨sound_opening shape,orderly_opening file⟩,cache,start⟩ guarded reached
  · obtain ⟨⟨sound,_⟩,_,valid⟩ := kept
    intro reader member
    cases caching : reader.branch.caching with
    | true => exact (valid.told reader member caching).paid
    | false => exact (sound.told reader member caching).paid
  · rintro race label next ⟨⟨sound,orderly⟩,cache,valid⟩ clean taken
    have apart := apart_of_cleanly orderly cache clean taken
    exact ⟨⟨sound.step orderly (.inl cache) apart taken,orderly.step (.inl cache) taken⟩,(step_mode taken).trans cache,
      valid.step sound clean taken⟩

end Cache

def stagedByte : List (Label Nat) :=
  [.call (.write ⟨0,[9],false,false,false,false⟩),.stage 0 ⟨none,.ok 1,none,0,.fine,.ok 1,.fine,none⟩,.note 0,.sample 0,
    .finish 0 true]

def cachedAfterDrain : List (Label Nat) :=
  stagedByte ++ [.drain .fine,.read 0 1,.cachedRead 0 true,.cachedRead 0 true,.read 0 1,.cachedRead 1 true,.cachedRead 1 true]

def cachedBeforeDrain : List (Label Nat) :=
  .read 0 1::stagedByte ++ [.cachedRead 0 true,.cachedRead 0 true,.drain .fine,.read 0 1,.cachedRead 1 true,.cachedRead 1 true]

theorem cached_after_drain :
    ∃ final, run step (opening (slowFile true false [1])) cachedAfterDrain = some final ∧
      (∃ reader ∈ final.readers, reader.ended = true ∧ reader.due 0 = some 9) ∧ ∀ reader ∈ final.readers, reader.Paid := by
  obtain ⟨final,reached,read⟩ : ∃ final, run step (opening (slowFile true false [1])) cachedAfterDrain = some final ∧
      ∃ reader ∈ final.readers, reader.ended = true ∧ reader.due 0 = some 9 := reaches (by decide +kernel)
  exact ⟨final,reached,read,cached_read_acknowledged (slowFile true false [1]) (slowFile_unstaged true false [1]).shape rfl
    (Nat.le_refl 0) cachedAfterDrain final (by decide +kernel) reached⟩

theorem cached_before_drain :
    Shape (slowFile true false [1]) ∧
      ∃ final, run step (opening (slowFile true false [1])) cachedBeforeDrain = some final ∧
        ∃ reader ∈ final.readers, reader.branch.caching = true ∧ reader.due 0 = some 9 ∧ reader.out = [1] ∧ ¬ reader.Paid := by
  obtain ⟨final,reached,reader,member,caching,ended,owed,out⟩ :
      ∃ final, run step (opening (slowFile true false [1])) cachedBeforeDrain = some final ∧
        ∃ reader ∈ final.readers, reader.branch.caching = true ∧ reader.ended = true ∧ reader.due 0 = some 9 ∧ reader.out = [1] :=
    reaches (by decide +kernel)
  refine ⟨(slowFile_unstaged true false [1]).shape,final,reached,reader,member,caching,owed,out,fun paid => ?_⟩
  have got := paid ended 0 9 owed
  rw [out,Nat.zero_sub] at got
  cases got

end Smoothfs.ReadRace
