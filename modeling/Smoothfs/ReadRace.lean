import Smoothfs.RangeCalls
import Smoothfs.Library.Run

/-! Reads of one file while it is written and drained. A merged read takes each
chunk in two steps, the lower file first and the staged ranges later under their
lock; a read of a cache takes its chunks one by one; a write stages or writes the
lower file, counts the change, and brings `i_size` up to date in steps of their
own. Beside the machine run the bytes that an acknowledged write left and that
nobody changed since; a read owes those that stood when it began. -/
namespace Smoothfs.ReadRace

open RangeStaging Content Extents Run

/-- Before a merged read looks at `i_size`, in its loop with a lower chunk, in
`smoothfs_cached_read_iter`, or at the lower file. -/
inductive Branch (α : Type)
  | sizing
  | merging (size : Nat) (buf : Option (List α))
  | cached
  | plain
  deriving DecidableEq

def Branch.caching {α : Type} : Branch α → Bool
  | .cached => true
  | _ => false

structure Reader (α : Type) where
  start : Nat
  count : Nat
  branch : Branch α
  out : List α
  ended : Bool
  due : Nat → Option α

inductive Task (α : Type)
  | write (call : WriteCall α)
  | truncate (size : Nat)
  | map

/-- How far a call is: its change is made, counted in `write_seq`, the size of the
lower file is read, and `i_size` is right. -/
inductive Phase
  | begun
  | performed
  | noted
  | sampled (size : Nat)
  | stored
  | finished
  deriving DecidableEq

/-- `stages` is what `smoothfs_should_range_stage_write` said, `spilled` that the stage file was
full, `pos` the `ki_pos`, and `mine` the bytes of the call that nobody changed since. -/
structure Writer (α : Type) where
  task : Task α
  phase : Phase
  stages : Bool
  spilled : Bool
  staged : Bool
  pos : Nat
  mine : Nat → Option α

/-- `lock` is the `cache_mutation_lock`, `cacheLock` the `read_cache_lock`, `linking` counts the
mappings let pass that do not show yet. -/
structure Race (α : Type) where
  file : State α
  readers : List (Reader α)
  writers : List (Writer α)
  lock : Option Nat
  cacheLock : Option Nat
  linking : Nat
  known : Nat → Option α

/-- The steps. A drain that is cut where a read comes in is one that stopped and
another that goes on. -/
inductive Label (α : Type)
  | read (pos count : Nat)
  | sizeRead (id : Nat)
  | lowerRead (id : Nat)
  | overlay (id : Nat)
  | plainRead (id : Nat)
  | cachedRead (id : Nat) (keep : Bool)
  | call (task : Task α)
  | stage (id : Nat) (answer : WriteAnswer)
  | through (id : Nat) (answer : Except Errno Nat)
  | resize (id : Nat)
  | note (id : Nat)
  | sample (id : Nat)
  | store (id : Nat)
  | finish (id : Nat) (acknowledged : Bool)
  | clear (id : Nat)
  | link
  | unmap
  | mappedStore (index : Nat) (byte : α)
  | drain (answer : DrainAnswer)
  | dropReadCache
  | cutover (dest : Nat)
  | usage (nearFull : Bool)
  | pin (pinState : PinState)

section Machine

variable {α : Type} [Zero α]

def Reader.pos (reader : Reader α) : Nat :=
  reader.start + reader.out.length

def Reader.left (reader : Reader α) : Nat :=
  reader.count - reader.out.length

def Reader.buffered (reader : Reader α) : Bool :=
  match reader.branch with
  | .merging _ (some _) => !reader.ended
  | _ => false

def forget {β : Type} (hit : Nat → Bool) (bytes : Nat → Option β) (index : Nat) : Option β :=
  if hit index then none else bytes index

def Race.touch (race : Race α) (hit : Nat → Bool) : Race α :=
  {race with
    known := forget hit race.known
    readers := race.readers.map (fun reader => {reader with due := forget hit reader.due})
    writers := race.writers.map (fun writer => {writer with mine := forget hit writer.mine})}

def Race.moved (race : Race α) (file : State α) (hit : Nat → Bool) : Race α :=
  {race.touch hit with file := file}

def beginRead (race : Race α) (start count : Nat) : Reader α where
  start := start
  count := count
  branch :=
    if race.file.rangeStaged then .sizing
    else if race.file.pool.cacheMode ∧ race.file.tier = race.file.pool.ntiers - 1 then .cached
    else .plain
  out := []
  ended := false
  due index := if start ≤ index ∧ index < start + count then race.known index else none

def sizeRead (file : State α) (reader : Reader α) : Option (Reader α) :=
  match reader.branch with
  | .sizing => some {reader with branch := .merging file.size none}
  | _ => none

/-- The head of the loop, into a zeroed buffer. -/
def lowerRead (file : State α) (reader : Reader α) : Option (Reader α) :=
  match reader.branch with
  | .merging size none =>
    if 0 < reader.left ∧ reader.pos < size then
      let avail := min (min reader.left rangeReadChunk) (size - reader.pos)
      some {reader with branch := .merging size (some (resize (window file.lower reader.pos avail) avail))}
    else some {reader with ended := true}
  | _ => none

def overlayRead (file : State α) (reader : Reader α) : Option (Reader α) :=
  match reader.branch with
  | .merging size (some buf) =>
    let merged := overlayLocked (file.stage.getD []) reader.pos file.ranges buf
    some {reader with branch := .merging size none, out := reader.out ++ merged}
  | _ => none

/-- Which a cached read falls back to when it gets no buffer. -/
def plainRead (file : State α) (reader : Reader α) : Option (Reader α) :=
  match reader.branch with
  | .sizing => none
  | .merging _ _ => none
  | _ => if reader.out = [] then some {reader with out := window file.lower reader.start reader.count, ended := true} else none

def cachedRead (file : State α) (keep : Bool) (reader : Reader α) : State α × Reader α :=
  if reader.left = 0 then (file,{reader with ended := true})
  else
    let index := reader.pos / rangeReadChunk
    let offset := reader.pos - index * rangeReadChunk
    let (after,chunk) := cachedChunk (revalidate file) keep index
    let bytes := window chunk offset reader.left
    if bytes.isEmpty then (after,{reader with ended := true}) else (after,{reader with out := reader.out ++ bytes})

def onReader (race : Race α) (id : Nat) (act : Reader α → Option (Reader α)) : Option (Race α) :=
  match race.readers[id]? with
  | none => none
  | some reader =>
    if reader.ended then none
    else (act reader).map (fun after => {race with readers := race.readers.set id after})

/-- The `read_cache_lock` is kept from the first round to the last. -/
def onCached (race : Race α) (id : Nat) (keep : Bool) : Option (Race α) :=
  match race.readers[id]? with
  | none => none
  | some reader =>
    if reader.ended ∨ ¬ reader.branch.caching ∨ (race.cacheLock ≠ none ∧ race.cacheLock ≠ some id) then none
    else
      let (file,after) := cachedRead race.file keep reader
      some {race with
        file := file
        readers := race.readers.set id after
        cacheLock := if after.ended then none else some id}

structure Change (α : Type) where
  file : State α
  hit : Nat → Bool
  writer : Writer α

def untouched (_ : Nat) : Bool := false

def placed (pos : Nat) (data : List α) (index : Nat) : Option α :=
  if pos ≤ index then data[index - pos]? else none

def hits (bytes : Nat → Option α) (index : Nat) : Bool :=
  (bytes index).isSome

def Race.changed (race : Race α) (id : Nat) (change : Change α) : Race α :=
  let moved := race.moved change.file change.hit
  {moved with writers := moved.writers.set id change.writer}

def onWriter (race : Race α) (id : Nat) (act : Writer α → Option (Change α)) : Option (Race α) :=
  match race.writers[id]? with
  | none => none
  | some writer => (act writer).map (race.changed id)

def Task.writer (file : State α) (task : Task α) : Writer α where
  task := task
  phase := .begun
  stages :=
    match task with
    | .write call => shouldRangeStageWrite file call
    | _ => false
  spilled := false
  staged := false
  pos :=
    match task with
    | .write call => call.pos
    | _ => 0
  mine _ := none

/-- A call begins; in a cache it takes the `cache_mutation_lock`. Truncates and
mappings are followed in a cache only. -/
def beginCall (race : Race α) (task : Task α) : Option (Race α) :=
  if race.file.pool.cacheMode then
    if race.lock = none then
      some {race with writers := race.writers ++ [task.writer race.file], lock := some race.writers.length}
    else none
  else
    match task with
    | .write _ => some {race with writers := race.writers ++ [task.writer race.file]}
    | _ => none

def stageWrite (file : State α) (answer : WriteAnswer) (writer : Writer α) : Option (Change α) :=
  match writer.task, writer.phase with
  | .write call, .begun =>
    if writer.stages ∧ ¬ writer.spilled then
      let (after,result,taken) := rangeStageWrite file call answer
      let bytes := placed (stagePos file call) (call.data.take taken)
      if taken = 0 then
        if file.pool.cacheMode ∧ outOfSpace result then
          some ⟨after,untouched,{writer with spilled := true, pos := stagePos file call}⟩
        else some ⟨after,untouched,{writer with phase := .stored}⟩
      else
        match result with
        | .ok _ => some ⟨after,hits bytes,{writer with phase := .performed, staged := true, mine := bytes}⟩
        | .error _ => some ⟨after,hits bytes,{writer with phase := .stored, staged := true}⟩
    else none
  | _, _ => none

def writeThrough (file : State α) (answer : Except Errno Nat) (writer : Writer α) : Option (Change α) :=
  match writer.task, writer.phase with
  | .write call, .begun =>
    if (¬ writer.stages ∨ writer.spilled) ∧ ¬ file.rangeStaged then
      let pos := if call.lowerAppend then file.lower.length else writer.pos
      match lowerWrite file writer.pos call answer with
      | (after,.ok (count+1)) =>
        let bytes := placed pos (call.data.take (count + 1))
        some ⟨after,hits bytes,{writer with phase := .performed, staged := false, mine := bytes}⟩
      | (after,_) => some ⟨after,untouched,{writer with phase := .stored}⟩
    else none
  | _, _ => none

def resizeLower (file : State α) (writer : Writer α) : Option (Change α) :=
  match writer.task, writer.phase with
  | .truncate size, .begun =>
    if file.rangeStaged then none
    else
      some ⟨{file with lower := resize file.lower size, size := size},fun index => size ≤ index,
        {writer with phase := .performed}⟩
  | _, _ => none

def noteChange (file : State α) (writer : Writer α) : Option (Change α) :=
  match writer.task, writer.phase with
  | .write _, .performed => some ⟨noteDataChange file,untouched,{writer with phase := .noted}⟩
  | .truncate _, .performed => some ⟨noteDataChange file,untouched,{writer with phase := .stored, mine := fun _ => none}⟩
  | _, _ => none

def sampleSize (file : State α) (writer : Writer α) : Option (Change α) :=
  match writer.phase with
  | .noted =>
    some ⟨file,untouched,{writer with phase := if file.rangeStaged then .stored else .sampled file.lower.length}⟩
  | _ => none

def storeSize (file : State α) (writer : Writer α) : Option (Change α) :=
  match writer.phase with
  | .sampled size => some ⟨{file with size := size},untouched,{writer with phase := .stored}⟩
  | _ => none

def finishCall (race : Race α) (id : Nat) (acknowledged : Bool) : Option (Race α) :=
  match race.writers[id]? with
  | none => none
  | some writer =>
    if writer.phase = .begun ∨ writer.phase = .stored then
      some {race with
        writers := race.writers.set id {writer with phase := .finished, mine := fun _ => none}
        lock := if race.file.pool.cacheMode then none else race.lock
        known := fun index => if acknowledged then writer.mine index <|> race.known index else race.known index}
    else none

/-- The mapping shows on the lower file after the call. -/
def clearForMap (race : Race α) (id : Nat) : Option (Race α) :=
  match race.writers[id]? with
  | none => none
  | some writer =>
    match writer.task, writer.phase with
    | .map, .begun =>
      if race.file.rangeStaged ∨ race.cacheLock ≠ none then none
      else
        some {race with
          file := recached race.file race.file.cacheSeq race.file.cacheGen []
          writers := race.writers.set id {writer with phase := .finished}
          lock := none
          linking := race.linking + 1}
    | _, _ => none

def step (race : Race α) : Label α → Option (Race α)
  | .read pos count => some {race with readers := race.readers ++ [beginRead race pos count]}
  | .sizeRead id => onReader race id (sizeRead race.file)
  | .lowerRead id => onReader race id (lowerRead race.file)
  | .overlay id => onReader race id (overlayRead race.file)
  | .plainRead id => onReader race id (plainRead race.file)
  | .cachedRead id keep => onCached race id keep
  | .call task => beginCall race task
  | .stage id answer => onWriter race id (stageWrite race.file answer)
  | .through id answer => onWriter race id (writeThrough race.file answer)
  | .resize id => onWriter race id (resizeLower race.file)
  | .note id => onWriter race id (noteChange race.file)
  | .sample id => onWriter race id (sampleSize race.file)
  | .store id => onWriter race id (storeSize race.file)
  | .finish id acknowledged => finishCall race id acknowledged
  | .clear id => clearForMap race id
  | .link =>
    if race.linking = 0 then none
    else some {race with file := {race.file with mapped := true}, linking := race.linking - 1}
  | .unmap => some {race with file := {race.file with mapped := false}}
  | .mappedStore index byte =>
    if race.file.mapped ∧ index < race.file.lower.length then
      some (race.moved {race.file with lower := write race.file.lower index [byte]} (· = index))
    else none
  | .drain answer => some {race with file := (drainOneRange race.file answer).1}
  | .dropReadCache =>
    if race.cacheLock = none then some {race with file := recached race.file race.file.cacheSeq race.file.cacheGen []} else none
  | .cutover dest =>
    -- `smoothfs_movement_plan` lets a file of a cache go to the base tier only, and never where it is.
    if race.file.pool.cacheMode ∧ dest = race.file.pool.ntiers - 1 ∧ dest ≠ race.file.tier then
      some {race with file := {race.file with tier := dest, cutoverGen := race.file.cutoverGen + 1}}
    else none
  | .usage nearFull => some {race with file := {race.file with pool := {race.file.pool with fastNearFull := nearFull}}}
  | .pin pinState => some {race with file := {race.file with pinState := pinState}}

def opening (file : State α) : Race α :=
  ⟨file,[],[],none,none,0,fun _ => none⟩

/-- A read that returned gave the bytes that it owed. -/
def Reader.Paid (reader : Reader α) : Prop :=
  reader.ended = true → ∀ index byte, reader.due index = some byte → reader.out[index - reader.start]? = some byte

end Machine

section Changes

variable {α : Type} [Zero α] {file : State α} {writer : Writer α} {change : Change α}

omit [Zero α] in
theorem hits_placed (pos : Nat) (data : List α) (index : Nat) :
    hits (placed pos data) index = true ↔ pos ≤ index ∧ index < pos + data.length := by
  unfold hits placed
  split
  · rw [isSome_getElem?]
    omega
  · simp only [Option.isSome_none,Bool.false_eq_true,false_iff]
    omega

omit [Zero α] in
variable {pos : Nat} {data : List α} {index : Nat}

theorem missed_placed (missed : hits (placed pos data) index = false) : ¬ (pos ≤ index ∧ index < pos + data.length) := by
  rw [← hits_placed,missed]
  exact Bool.false_ne_true

theorem placed_fetch {byte : α} (held : placed pos data index = some byte) :
    pos ≤ index ∧ index < pos + data.length ∧ fetch data (index - pos) = byte := by
  have inside := (hits_placed pos data index).mp (by simp [hits,held])
  refine ⟨inside.1,inside.2,?_⟩
  rw [placed,if_pos inside.1] at held
  simp [fetch,held]

inductive Staged (file : State α) (writer : Writer α) : Change α → Prop
  | spilled (after : State α) (opens : after = file ∨ after = opened file) (pos : Nat) :
      Staged file writer ⟨after,untouched,{writer with spilled := true, pos := pos}⟩
  | refused (after : State α) (opens : after = file ∨ after = opened file) :
      Staged file writer ⟨after,untouched,{writer with phase := .stored}⟩
  | taken (pos : Nat) (data : List α) (sidecar : Option Bytes) (nonempty : data ≠ []) :
      Staged file writer ⟨withSidecar (stagedAt (opened file) pos data) sidecar,hits (placed pos data),
        {writer with phase := .performed, staged := true, mine := placed pos data}⟩
  | unpersisted (pos : Nat) (data : List α) (sidecar : Option Bytes) (nonempty : data ≠ []) :
      Staged file writer ⟨noteDataChange (withSidecar (stagedAt (opened file) pos data) sidecar),hits (placed pos data),
        {writer with phase := .stored, staged := true}⟩

theorem stageWrite_staged {answer : WriteAnswer} (acted : stageWrite file answer writer = some change) :
    writer.phase = .begun ∧ Staged file writer change := by
  unfold stageWrite at acted
  split at acted
  swap
  · cases acted
  next call _ begun =>
  refine ⟨begun,?_⟩
  split at acted
  swap
  · cases acted
  have written := rangeStageWrite_written file call answer
  generalize rangeStageWrite file call answer = result at acted written
  cases written with
  | refused errno opens =>
    simp only [if_true] at acted
    split at acted
    · cases acted
      exact .spilled _ opens _
    · cases acted
      exact .refused _ opens
  | nothing =>
    simp only [outOfSpace,Bool.false_eq_true,and_false] at acted
    cases acted
    exact .refused _ (.inr rfl)
  | taken data sidecar nonempty first fits record =>
    simp only [List.length_eq_zero_iff,nonempty,← first] at acted
    cases acted
    exact .taken _ data sidecar nonempty
  | unpersisted data sidecar errno nonempty first fits cache fails =>
    simp only [List.length_eq_zero_iff,nonempty,← first] at acted
    cases acted
    exact .unpersisted _ data sidecar nonempty

inductive Through (file : State α) (writer : Writer α) : Change α → Prop
  | refused : Through file writer ⟨file,untouched,{writer with phase := .stored}⟩
  | taken (pos : Nat) (data : List α) (nonempty : data ≠ []) :
      Through file writer ⟨{file with lower := write file.lower pos data},hits (placed pos data),
        {writer with phase := .performed, staged := false, mine := placed pos data}⟩

theorem writeThrough_through {answer : Except Errno Nat} (acted : writeThrough file answer writer = some change) :
    writer.phase = .begun ∧ file.rangeStaged = false ∧ Through file writer change := by
  unfold writeThrough at acted
  split at acted
  swap
  · cases acted
  next call _ begun =>
  split at acted
  swap
  · cases acted
  next allowed =>
  refine ⟨begun,by simpa using allowed.2,?_⟩
  unfold lowerWrite at acted
  cases took : accepted call.data (if call.lowerAppend then file.lower.length else writer.pos) answer with
  | error errno =>
    simp only [took] at acted
    cases acted
    exact .refused
  | ok data =>
    have first := (accepted_ok took).1
    simp only [took] at acted
    cases data with
    | nil =>
      cases acted
      exact .refused
    | cons byte rest =>
      simp only [List.length_cons] at acted first
      rw [← first] at acted
      cases acted
      exact .taken _ _ (List.cons_ne_nil _ _)

theorem resizeLower_change (acted : resizeLower file writer = some change) :
    writer.phase = .begun ∧ file.rangeStaged = false ∧ ∃ size, change =
      ⟨{file with lower := resize file.lower size, size := size},fun index => size ≤ index,{writer with phase := .performed}⟩ := by
  unfold resizeLower at acted
  split at acted
  swap
  · cases acted
  next size _ begun =>
  split at acted
  · cases acted
  next unstaged =>
  exact ⟨begun,by simpa using unstaged,size,(Option.some.inj acted).symm⟩

omit [Zero α] in
theorem noteChange_change (acted : noteChange file writer = some change) :
    writer.phase = .performed ∧ (change = ⟨noteDataChange file,untouched,{writer with phase := .noted}⟩ ∨
      change = ⟨noteDataChange file,untouched,{writer with phase := .stored, mine := fun _ => none}⟩) := by
  unfold noteChange at acted
  split at acted
  · next performed => exact ⟨performed,.inl (Option.some.inj acted).symm⟩
  · next performed => exact ⟨performed,.inr (Option.some.inj acted).symm⟩
  · cases acted

omit [Zero α] in
theorem sampleSize_change (acted : sampleSize file writer = some change) :
    writer.phase = .noted ∧
      change = ⟨file,untouched,{writer with phase := if file.rangeStaged then .stored else .sampled file.lower.length}⟩ := by
  unfold sampleSize at acted
  split at acted
  · next noted => exact ⟨noted,(Option.some.inj acted).symm⟩
  · cases acted

omit [Zero α] in
theorem storeSize_change (acted : storeSize file writer = some change) :
    ∃ size, writer.phase = .sampled size ∧ change = ⟨{file with size := size},untouched,{writer with phase := .stored}⟩ := by
  unfold storeSize at acted
  split at acted
  · next size sampled => exact ⟨size,sampled,(Option.some.inj acted).symm⟩
  · cases acted

variable {id : Nat}

omit [Zero α] in
theorem onWriter_change {race next : Race α} {act : Writer α → Option (Change α)}
    (taken : onWriter race id act = some next) :
    ∃ writer change, race.writers[id]? = some writer ∧ act writer = some change ∧ next = race.changed id change := by
  unfold onWriter at taken
  split at taken
  · cases taken
  next writer found =>
  obtain ⟨change,acted,rfl⟩ := Option.map_eq_some_iff.mp taken
  exact ⟨writer,change,found,acted,rfl⟩

omit [Zero α] in
theorem onReader_spec {race next : Race α} {act : Reader α → Option (Reader α)}
    (taken : onReader race id act = some next) :
    ∃ reader after, race.readers[id]? = some reader ∧ reader.ended = false ∧ act reader = some after ∧
      next = {race with readers := race.readers.set id after} := by
  unfold onReader at taken
  split at taken
  · cases taken
  next reader found =>
  split at taken
  · cases taken
  next going =>
  obtain ⟨after,acted,rfl⟩ := Option.map_eq_some_iff.mp taken
  exact ⟨reader,after,found,by simpa using going,acted,rfl⟩

omit [Zero α] in
theorem onCached_spec {race next : Race α} {keep : Bool} (taken : onCached race id keep = some next) :
    ∃ reader, race.readers[id]? = some reader ∧ reader.ended = false ∧ reader.branch.caching = true ∧
      next = {race with
        file := (cachedRead race.file keep reader).1
        readers := race.readers.set id (cachedRead race.file keep reader).2
        cacheLock := if (cachedRead race.file keep reader).2.ended then none else some id} := by
  unfold onCached at taken
  split at taken
  · cases taken
  next reader found =>
  split at taken
  · cases taken
  next busy =>
  refine ⟨reader,found,?_,?_,(Option.some.inj taken).symm⟩
  · exact Bool.eq_false_of_not_eq_true (fun ended => busy (.inl ended))
  · exact not_not.mp (fun uncached => busy (.inr (.inl uncached)))

omit [Zero α] in
theorem beginCall_spec {race next : Race α} {task : Task α} (taken : beginCall race task = some next) :
    ∃ lock, next = {race with writers := race.writers ++ [task.writer race.file], lock := lock} ∧
      (race.file.pool.cacheMode = true → race.lock = none ∧ lock = some race.writers.length) := by
  unfold beginCall at taken
  split at taken
  · split at taken
    · next free => exact ⟨_,(Option.some.inj taken).symm,fun _ => ⟨free,rfl⟩⟩
    · cases taken
  next tier =>
  cases task with
  | write call => exact ⟨race.lock,(Option.some.inj taken).symm,fun cache => absurd cache tier⟩
  | _ => cases taken

omit [Zero α] in
theorem finishCall_spec {race next : Race α} {acknowledged : Bool} (taken : finishCall race id acknowledged = some next) :
    ∃ writer, race.writers[id]? = some writer ∧ (writer.phase = .begun ∨ writer.phase = .stored) ∧
      next = {race with
        writers := race.writers.set id {writer with phase := .finished, mine := fun _ => none}
        lock := if race.file.pool.cacheMode then none else race.lock
        known := fun index => if acknowledged then writer.mine index <|> race.known index else race.known index} := by
  unfold finishCall at taken
  split at taken
  · cases taken
  next writer found =>
  split at taken
  · next ready => exact ⟨writer,found,ready,(Option.some.inj taken).symm⟩
  · cases taken

omit [Zero α] in
theorem clearForMap_spec {race next : Race α} (taken : clearForMap race id = some next) :
    ∃ writer, race.writers[id]? = some writer ∧ writer.phase = .begun ∧
      next = {race with
        file := recached race.file race.file.cacheSeq race.file.cacheGen []
        writers := race.writers.set id {writer with phase := .finished}
        lock := none
        linking := race.linking + 1} := by
  unfold clearForMap at taken
  split at taken
  · cases taken
  next writer found =>
  split at taken
  swap
  · cases taken
  next begun =>
  split at taken
  · cases taken
  · exact ⟨writer,found,begun,(Option.some.inj taken).symm⟩

omit [Zero α] in
theorem cachedRead_file (file : State α) (keep : Bool) (reader : Reader α) :
    ∃ seq gen chunks, (cachedRead file keep reader).1 = recached file seq gen chunks := by
  unfold cachedRead
  split
  · exact ⟨file.cacheSeq,file.cacheGen,file.cacheChunks,rfl⟩
  obtain ⟨seq,gen,chunks,fresh⟩ := revalidate_recached file
  obtain ⟨seq,gen,chunks,next⟩ := cachedChunk_recached (revalidate file) keep (reader.pos / rangeReadChunk)
  have same : (cachedChunk (revalidate file) keep (reader.pos / rangeReadChunk)).1 = recached file seq gen chunks := by
    rw [next,fresh]
    rfl
  dsimp only
  split
  · exact ⟨seq,gen,chunks,same⟩
  · exact ⟨seq,gen,chunks,same⟩

omit [Zero α] in
theorem cachedRead_reader (file : State α) (keep : Bool) (reader : Reader α) :
    ∃ more, (cachedRead file keep reader).2 = {reader with ended := true} ∨
      (cachedRead file keep reader).2 = {reader with out := reader.out ++ more} := by
  unfold cachedRead
  split
  · exact ⟨[],.inl rfl⟩
  dsimp only
  split
  · exact ⟨[],.inl rfl⟩
  · exact ⟨_,.inr rfl⟩

end Changes

section Order

variable {α : Type} {race next : Race α}

structure Orderly (race : Race α) : Prop where
  locked : race.file.pool.cacheMode = true → ∀ id writer, race.writers[id]? = some writer → writer.phase ≠ .finished →
    race.lock = some id
  staging : race.file.pool.cacheMode = false → ∀ writer ∈ race.writers, writer.phase = .performed ∨ writer.phase = .noted →
    writer.staged = true

variable {id : Nat} {writer : Writer α}

variable (orderly : Orderly race)
include orderly

theorem Orderly.alone (cache : race.file.pool.cacheMode = true)
    (found : race.writers[id]? = some writer) (begun : writer.phase = .begun) :
    ∀ other ∈ race.writers, other.phase = .begun ∨ other.phase = .finished := by
  intro other member
  obtain ⟨place,inside,rfl⟩ := List.mem_iff_getElem.mp member
  by_cases finished : race.writers[place].phase = .finished
  · exact .inr finished
  have mine := orderly.locked cache id writer found (by rw [begun]; exact Phase.noConfusion)
  have other := orderly.locked cache place _ (List.getElem?_eq_getElem inside) finished
  cases mine.symm.trans other
  rw [List.getElem?_eq_getElem inside] at found
  cases found
  exact .inl begun


theorem Orderly.kept (mode : next.file.pool.cacheMode = race.file.pool.cacheMode) (lock : next.lock = race.lock)
    (same : ∀ (id : Nat) (after : Writer α), next.writers[id]? = some after → ∃ before : Writer α, race.writers[id]? = some before ∧
      (after.phase ≠ .finished → before.phase ≠ .finished) ∧
      (race.file.pool.cacheMode = false → after.phase = .performed ∨ after.phase = .noted → after.staged = true)) :
    Orderly next where
  locked := by
    intro cache id after found live
    obtain ⟨before,there,older,_⟩ := same id after found
    rw [lock]
    exact orderly.locked (mode ▸ cache) id before there (older live)
  staging := by
    intro tier after member going
    obtain ⟨id,found⟩ := List.mem_iff_getElem?.mp member
    obtain ⟨before,there,_,stages⟩ := same id after found
    exact stages (mode ▸ tier) going

theorem Orderly.same (mode : next.file.pool.cacheMode = race.file.pool.cacheMode)
    (lock : next.lock = race.lock) (writers : next.writers = race.writers) : Orderly next := by
  refine orderly.kept mode lock (fun id after found => ?_)
  rw [writers] at found
  exact ⟨after,found,fun live => live,fun tier => orderly.staging tier after (List.mem_of_getElem? found)⟩

theorem Orderly.moved {file : State α} (mode : file.pool.cacheMode = race.file.pool.cacheMode)
    (hit : Nat → Bool) : Orderly (race.moved file hit) := by
  refine orderly.kept mode rfl (fun id after found => ?_)
  obtain ⟨before,there,rfl⟩ := Option.map_eq_some_iff.mp (List.getElem?_map.symm.trans found)
  exact ⟨before,there,fun live => live,fun tier => orderly.staging tier before (List.mem_of_getElem? there)⟩

theorem Orderly.changed {change : Change α} (found : race.writers[id]? = some writer) (live : writer.phase ≠ .finished)
    (mode : change.file.pool.cacheMode = race.file.pool.cacheMode)
    (staging : race.file.pool.cacheMode = false → change.writer.phase = .performed ∨ change.writer.phase = .noted →
      change.writer.staged = true) : Orderly (race.changed id change) := by
  have moved := orderly.moved mode change.hit
  have there : (race.moved change.file change.hit).writers[id]? = some {writer with mine := forget change.hit writer.mine} :=
    List.getElem?_map.trans (congrArg (Option.map _) found)
  refine moved.kept rfl rfl (fun place after held => ?_)
  change ((race.moved change.file change.hit).writers.set id change.writer)[place]? = some after at held
  rw [List.getElem?_set] at held
  split at held
  · next same =>
    subst same
    split at held
    · cases held
      exact ⟨_,there,fun _ => live,fun tier => staging (mode.symm.trans tier)⟩
    · cases held
  · exact ⟨after,held,fun live => live,fun tier => moved.staging tier after (List.mem_of_getElem? held)⟩

theorem Orderly.left {after : Writer α} (found : race.writers[id]? = some writer)
    (live : writer.phase ≠ .finished) (finished : after.phase = .finished) (writers : next.writers = race.writers.set id after)
    (mode : next.file.pool.cacheMode = race.file.pool.cacheMode) : Orderly next where
  locked := by
    intro cache place other there going
    rw [writers,List.getElem?_set] at there
    split at there
    · split at there
      · cases there
        exact absurd finished going
      · cases there
    · next different =>
      -- The lock had one holder.
      have mine := orderly.locked (mode ▸ cache) id writer found live
      have theirs := orderly.locked (mode ▸ cache) place other there going
      exact absurd (Option.some.inj (mine.symm.trans theirs)) different
  staging := by
    intro tier other member going
    rw [writers] at member
    obtain member | rfl := List.mem_or_eq_of_mem_set member
    · exact orderly.staging (mode ▸ tier) other member going
    · simp [finished] at going

theorem Orderly.beginCall {task : Task α} (taken : beginCall race task = some next) : Orderly next := by
  obtain ⟨lock,rfl,locks⟩ := beginCall_spec taken
  refine ⟨fun cache id other found live => ?_,fun tier other member going => ?_⟩
  · obtain ⟨free,rfl⟩ := locks cache
    change (race.writers ++ [task.writer race.file])[id]? = some other at found
    by_cases old : id < race.writers.length
    · rw [List.getElem?_append_left old] at found
      have held := orderly.locked cache id other found live
      rw [free] at held
      cases held
    · rw [List.getElem?_append_right (by omega)] at found
      have last := (List.getElem?_eq_some_iff.mp found).1
      simp only [List.length_singleton] at last
      exact congrArg some (by omega)
  · obtain member | last := List.mem_append.mp member
    · exact orderly.staging tier other member going
    · rw [List.mem_singleton.mp last] at going
      simp [Task.writer] at going

omit orderly

def Label.staging : Label α → Bool
  | .through _ _ | .resize _ | .clear _ | .link | .unmap | .mappedStore _ _ | .dropReadCache | .cutover _ => false
  | _ => true

theorem step_mode [Zero α] {label : Label α} (taken : step race label = some next) :
    next.file.pool.cacheMode = race.file.pool.cacheMode := by
  cases label with
  | sizeRead id | lowerRead id | overlay id | plainRead id =>
    obtain ⟨_,_,_,_,_,rfl⟩ := onReader_spec taken
    rfl
  | cachedRead id keep =>
    obtain ⟨reader,_,_,_,rfl⟩ := onCached_spec taken
    obtain ⟨seq,gen,chunks,file⟩ := cachedRead_file race.file keep reader
    exact congrArg (fun file => file.pool.cacheMode) file
  | call task =>
    obtain ⟨lock,rfl,_⟩ := beginCall_spec taken
    rfl
  | stage id answer =>
    obtain ⟨writer,change,_,acted,rfl⟩ := onWriter_change taken
    cases (stageWrite_staged acted).2 with
    | spilled after opens pos | refused after opens => obtain rfl | rfl := opens <;> rfl
    | _ => rfl
  | through id answer =>
    obtain ⟨writer,change,_,acted,rfl⟩ := onWriter_change taken
    cases (writeThrough_through acted).2.2 <;> rfl
  | resize id =>
    obtain ⟨writer,change,_,acted,rfl⟩ := onWriter_change taken
    obtain ⟨_,_,size,rfl⟩ := resizeLower_change acted
    rfl
  | note id =>
    obtain ⟨writer,change,_,acted,rfl⟩ := onWriter_change taken
    obtain ⟨_,rfl | rfl⟩ := noteChange_change acted <;> rfl
  | sample id =>
    obtain ⟨writer,change,_,acted,rfl⟩ := onWriter_change taken
    obtain ⟨_,rfl⟩ := sampleSize_change acted
    rfl
  | store id =>
    obtain ⟨writer,change,_,acted,rfl⟩ := onWriter_change taken
    obtain ⟨size,_,rfl⟩ := storeSize_change acted
    rfl
  | finish id acknowledged =>
    obtain ⟨writer,_,_,rfl⟩ := finishCall_spec taken
    rfl
  | clear id =>
    obtain ⟨writer,_,_,rfl⟩ := clearForMap_spec taken
    rfl
  | drain answer =>
    cases taken
    exact congrArg Pool.cacheMode (drained_pool race.file answer)
  | link | mappedStore index byte | dropReadCache | cutover dest =>
    simp only [ReadRace.step] at taken
    split at taken <;> cases taken
    rfl
  | read pos count | unmap | usage nearFull | pin pinState => cases taken; rfl

theorem Orderly.step [Zero α] {label : Label α} (orderly : Orderly race)
    (allowed : race.file.pool.cacheMode = true ∨ label.staging = true) (taken : step race label = some next) : Orderly next := by
  have direct : label.staging = false → race.file.pool.cacheMode = true := by
    intro other
    rw [other] at allowed
    exact allowed.resolve_right Bool.false_ne_true
  have mode := step_mode taken
  cases label with
  | sizeRead id | lowerRead id | overlay id | plainRead id =>
    obtain ⟨_,_,_,_,_,rfl⟩ := onReader_spec taken
    exact orderly.same rfl rfl rfl
  | cachedRead id keep =>
    obtain ⟨reader,_,_,_,rfl⟩ := onCached_spec taken
    exact orderly.same mode rfl rfl
  | call task => exact orderly.beginCall taken
  | stage id answer =>
    obtain ⟨writer,change,found,acted,rfl⟩ := onWriter_change taken
    obtain ⟨begun,staged⟩ := stageWrite_staged acted
    refine orderly.changed found (by simp [begun]) mode ?_
    cases staged <;> simp [begun]
  | through id answer =>
    obtain ⟨writer,change,found,acted,rfl⟩ := onWriter_change taken
    obtain ⟨begun,_,_⟩ := writeThrough_through acted
    exact orderly.changed found (by simp [begun]) mode (fun tier => absurd (direct rfl) (by simp [tier]))
  | resize id =>
    obtain ⟨writer,change,found,acted,rfl⟩ := onWriter_change taken
    obtain ⟨begun,_⟩ := resizeLower_change acted
    exact orderly.changed found (by simp [begun]) mode (fun tier => absurd (direct rfl) (by simp [tier]))
  | note id =>
    obtain ⟨writer,change,found,acted,rfl⟩ := onWriter_change taken
    obtain ⟨performed,rfl | rfl⟩ := noteChange_change acted
    · exact orderly.changed found (by simp [performed]) mode
        (fun tier _ => orderly.staging tier writer (List.mem_of_getElem? found) (.inl performed))
    · exact orderly.changed found (by simp [performed]) mode (by simp)
  | sample id =>
    obtain ⟨writer,change,found,acted,rfl⟩ := onWriter_change taken
    obtain ⟨noted,rfl⟩ := sampleSize_change acted
    exact orderly.changed found (by simp [noted]) mode
      (fun tier _ => orderly.staging tier writer (List.mem_of_getElem? found) (.inr noted))
  | store id =>
    obtain ⟨writer,change,found,acted,rfl⟩ := onWriter_change taken
    obtain ⟨size,sampled,rfl⟩ := storeSize_change acted
    exact orderly.changed found (by simp [sampled]) mode (by simp)
  | finish id acknowledged =>
    obtain ⟨writer,found,ready,rfl⟩ := finishCall_spec taken
    exact orderly.left found (by obtain begun | stored := ready <;> simp [*]) rfl rfl mode
  | clear id =>
    obtain ⟨writer,found,begun,rfl⟩ := clearForMap_spec taken
    exact orderly.left found (by simp [begun]) rfl rfl mode
  | mappedStore index byte =>
    simp only [ReadRace.step] at taken
    split at taken
    · cases taken
      exact orderly.moved mode _
    · cases taken
  | link | dropReadCache | cutover dest =>
    simp only [ReadRace.step] at taken
    split at taken <;> cases taken
    exact orderly.same mode rfl rfl
  | read pos count | drain answer | unmap | usage nearFull | pin pinState =>
    cases taken
    exact orderly.same mode rfl rfl

end Order

end Smoothfs.ReadRace
