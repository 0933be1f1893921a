import Smoothfs.Sidecar
import Smoothfs.StagingDrain

/-! One regular file under range staging: writes that go to a `.stage` file on
the fastest tier instead of the lower file, reads that lay the staged ranges
over the lower file, the drain that copies them down, and every other call that
reads or changes the data. Calls run one after another; the answers of the lower
file systems during a call are part of it. Bytes are of any type with a filler. -/
namespace Smoothfs.RangeStaging

open Content Extents

def rangeReadChunk : Nat := 256 * 1024

/-- The data side of `smoothfs_inode_info`, with the lower file, the `.stage` and `.meta` files and
the masks of the mount. `cacheChunks` are the valid chunks of the read cache. The OID of a new file
waits in a queue until the lower file is `stamped` with it. -/
structure State (α : Type) where
  pool : Pool
  drainMask : Nat
  metadataMask : Nat
  tier : Nat
  pinState : PinState
  mapped : Bool
  lower : List α
  size : Nat
  rangeStaged : Bool
  ranges : List Extent
  stagePath : Bool
  stage : Option (List α)
  sourceTier : Nat
  stagingPinned : Bool
  sidecar : Option Bytes
  stamped : Bool
  writeSeq : Nat
  cutoverGen : Nat
  cacheSeq : Nat
  cacheGen : Nat
  cacheChunks : List (Nat × List α)
  deriving DecidableEq, Repr

/-- An error after so many bytes reached the lower file, the unlink of the stage file, and the
removal of the sidecar. -/
structure DrainAnswer where
  stop : Option (Nat × Errno)
  unlink : Option Errno
  sidecarKept : Bool
  deriving DecidableEq, Repr

def DrainAnswer.fine : DrainAnswer := ⟨none,none,false⟩

/-- `append` is `IOCB_APPEND` of the call and `lowerAppend` `O_APPEND` of the lower file. -/
structure WriteCall (α : Type) where
  pos : Nat
  data : List α
  append : Bool
  lowerAppend : Bool
  direct : Bool
  sync : Bool
  deriving DecidableEq, Repr

/-- What a write meets: the stage file, the sidecar at time `now`, a drain before the lower write,
the lower write, and the drain and fsync of a synchronous write. -/
structure WriteAnswer where
  stageOpen : Option Errno
  stage : Except Errno Nat
  persist : Option Errno
  now : Nat
  drain : DrainAnswer
  lower : Except Errno Nat
  syncDrain : DrainAnswer
  fsync : Option Errno

structure TruncateAnswer where
  drain : DrainAnswer
  rehome : Option Errno
  notify : Option Errno
  deriving DecidableEq, Repr

structure ChangeAnswer where
  drain : DrainAnswer
  lower : Option Errno
  deriving DecidableEq, Repr

variable {α : Type} [Zero α]

def drainTierActive (state : State α) (tier : Nat) : Bool :=
  StagingDrain.drainTierActive state.pool state.drainMask tier

def metadataTierActive (state : State α) (tier : Nat) : Bool :=
  tier < state.pool.ntiers ∧ (tier = state.pool.fastestTier ∨ state.metadataMask.testBit tier)

def storedMetadataMask (pool : Pool) (mask : Nat) : Nat :=
  if pool.cacheMode then 2 ^ pool.ntiers - 1 else (mask &&& (2 ^ pool.ntiers - 1)) ||| 2 ^ pool.fastestTier

def mountDrainMask (pool : Pool) : Nat :=
  if pool.cacheMode then 2 ^ pool.ntiers - 1 else 2 ^ pool.fastestTier

def noteDataChange (state : State α) : State α :=
  {state with writeSeq := state.writeSeq + 1}

def shouldRangeStageWrite (state : State α) (call : WriteCall α) : Bool :=
  state.pool.writeStaging ∧ ¬ call.direct ∧ state.pinState = .none ∧ ¬ (state.pool.cacheMode ∧ state.mapped) ∧
    state.tier < state.pool.ntiers ∧ state.tier ≠ state.pool.fastestTier ∧ ¬ state.pool.fastNearFull

def rangeStageRecord (ranges : List Extent) (start stop : Nat) : List Extent :=
  if stop ≤ start then ranges else add start stop ranges

def withSidecar (state : State α) (sidecar : Option Bytes) : State α :=
  {state with sidecar := sidecar}

def persist (state : State α) (answer : WriteAnswer) : State α × Option Errno :=
  if recMaxRanges < state.ranges.length then (state,some .e2big)
  else
    match answer.persist with
    | some errno => (state,some errno)
    | none => (withSidecar state (some (Sidecar.encode ⟨state.sourceTier,answer.now,state.ranges⟩)),none)

def accepted (data : List α) (pos : Nat) (answer : Except Errno Nat) : Except Errno (List α) :=
  match answer with
  | .error errno => .error errno
  | .ok count => if maxBytes < pos + (data.take count).length then .error .efbig else .ok (data.take count)

def opened (state : State α) : State α :=
  {state with stagePath := true, stage := some (state.stage.getD [])}

def stagedAt (state : State α) (pos : Nat) (data : List α) : State α :=
  {state with
    stage := some (write (state.stage.getD []) pos data)
    ranges := rangeStageRecord state.ranges pos (pos + data.length)
    stagingPinned := state.stagingPinned || state.pool.cacheMode
    rangeStaged := true
    sourceTier := state.tier
    size := max state.size (pos + data.length)}

def stagePos (state : State α) (call : WriteCall α) : Nat :=
  if call.append then state.size else call.pos

/-- A cache reports a sidecar that could not be written although the ranges stay. -/
def rangeStageWrite (state : State α) (call : WriteCall α) (answer : WriteAnswer) : State α × Except Errno Nat × Nat :=
  let pos := stagePos state call
  match answer.stageOpen with
  | some errno => (state,.error errno,0)
  | none =>
    match accepted call.data pos answer.stage with
    | .error errno => (opened state,.error errno,0)
    | .ok [] => (opened state,.ok 0,0)
    | .ok (byte::rest) =>
      let data := byte::rest
      match persist (stagedAt (opened state) pos data) answer with
      | (staged,none) => (staged,.ok data.length,data.length)
      | (staged,some errno) =>
        if staged.pool.cacheMode then (noteDataChange staged,.error errno,data.length) else (staged,.ok data.length,data.length)

/-- The chunk loop of a drain over one range. Of its writes only `budget` bytes
still reach the lower file. -/
def drainRange (stage : List α) (stop : Nat) : Nat → Nat → Nat × List α → Nat × List α
  | 0, _, reached => reached
  | fuel+1, pos, (budget,lower) =>
    if pos < stop then
      let buf := window stage pos (min rangeReadChunk (stop - pos))
      drainRange stage stop fuel (pos + buf.length) (budget - buf.length,write lower pos (buf.take budget))
    else (budget,lower)

def drainRanges (stage : List α) (ranges : List Extent) (budget : Nat) (lower : List α) : Nat × List α :=
  ranges.foldl (fun reached range => drainRange stage range.stop (range.stop - range.start) range.start reached) (budget,lower)

def readable (length : Nat) : List Extent → Nat
  | [] => 0
  | range::rest => if range.stop ≤ length then range.stop - range.start + readable length rest else length - range.start

def cleared (state : State α) (answer : DrainAnswer) : State α :=
  {state with
    stagePath := false
    stage := if answer.unlink.isSome then state.stage else none
    ranges := []
    rangeStaged := false
    sourceTier := Namespace.maxTiers
    stagingPinned := false
    sidecar := if answer.sidecarKept then state.sidecar else none}

/-- After an error everything stays staged. -/
def drainOneRange (state : State α) (answer : DrainAnswer) : State α × Option Errno :=
  if ¬ state.rangeStaged ∨ ¬ drainTierActive state state.sourceTier then (state,none)
  else if ¬ state.stagePath then (state,some .enoent)
  else
    let stage := state.stage.getD []
    let whole := readable stage.length state.ranges
    let short := if whole < total state.ranges then some (whole,Errno.eio) else none
    match answer.stop <|> short with
    | some (budget,errno) =>
      ({state with lower := (drainRanges stage state.ranges (min budget whole) state.lower).2},some errno)
    | none => (cleared {state with lower := (drainRanges stage state.ranges whole state.lower).2} answer,answer.unlink)

def lowerWrite (state : State α) (pos : Nat) (call : WriteCall α) (answer : Except Errno Nat) : State α × Except Errno Nat :=
  let pos := if call.lowerAppend then state.lower.length else pos
  match accepted call.data pos answer with
  | .error errno => (state,.error errno)
  | .ok data => ({state with lower := write state.lower pos data},.ok data.length)

def outOfSpace : Except Errno Nat → Bool
  | .error .enospc => true
  | _ => false

/-- The staged branch of `smoothfs_write_iter_unlocked`: a cache whose stage file
is full drains and writes the lower file instead. -/
def stageOrFallBack (state : State α) (call : WriteCall α) (answer : WriteAnswer) : State α × Except Errno Nat :=
  let (staged,result,taken) := rangeStageWrite state call answer
  if state.pool.cacheMode ∧ outOfSpace result ∧ taken = 0 then
    match drainOneRange staged answer.drain with
    | (drained,some errno) => (drained,.error errno)
    | (drained,none) => lowerWrite drained (stagePos state call) call answer.lower
  else (staged,result)

def writeThrough (state : State α) (call : WriteCall α) (answer : WriteAnswer) : State α × Except Errno Nat :=
  match if state.rangeStaged then drainOneRange state answer.drain else (state,none) with
  | (drained,some errno) => (drained,.error errno)
  | (drained,none) => if drained.rangeStaged then (drained,.error .ebusy) else lowerWrite drained call.pos call answer.lower

/-- `i_size` follows the lower file unless ranges are staged over it. -/
def refreshSize (state : State α) : State α :=
  if state.rangeStaged then state else {state with size := state.lower.length}

def afterWrite (state : State α) (call : WriteCall α) (answer : WriteAnswer) (count : Nat) : State α × Except Errno Nat :=
  let noted := refreshSize (noteDataChange state)
  if noted.pool.cacheMode ∧ call.sync then
    match drainOneRange noted answer.syncDrain with
    | (drained,some errno) => (drained,.error errno)
    | (drained,none) =>
      match answer.fsync with
      | some errno => (drained,.error errno)
      | none => (drained,.ok count)
  else (noted,.ok count)

def writeIter (state : State α) (call : WriteCall α) (answer : WriteAnswer) : State α × Except Errno Nat :=
  if state.rangeStaged ∧ call.direct then (state,.error .ebusy)
  else
    match if shouldRangeStageWrite state call then stageOrFallBack state call answer else writeThrough state call answer with
    | (written,.error errno) => (written,.error errno)
    | (written,.ok 0) => (written,.ok 0)
    | (written,.ok (count+1)) => afterWrite written call answer (count + 1)

/-- The staged bytes are laid over a buffer that was read at `pos`. -/
def overlayLocked (stage : List α) (pos : Nat) : List Extent → List α → List α
  | [], buf => buf
  | range::rest, buf =>
    if pos + buf.length ≤ range.start then buf
    else if range.stop ≤ pos then overlayLocked stage pos rest buf
    else
      let start := max range.start pos
      let stop := min range.stop (pos + buf.length)
      overlayLocked stage pos rest (write buf (start - pos) (window stage start (stop - start)))

def mergedChunk (state : State α) (pos avail : Nat) : List α :=
  overlayLocked (state.stage.getD []) pos state.ranges (resize (window state.lower pos avail) avail)

def rangeStageReadIter (state : State α) : Nat → Nat → Nat → List α
  | 0, _, _ => []
  | fuel+1, pos, count =>
    if 0 < count ∧ pos < state.size then
      let avail := min (min count rangeReadChunk) (state.size - pos)
      mergedChunk state pos avail ++ rangeStageReadIter state fuel (pos + avail) (count - avail)
    else []

def recached (state : State α) (seq gen : Nat) (chunks : List (Nat × List α)) : State α :=
  {state with cacheSeq := seq, cacheGen := gen, cacheChunks := chunks}

def revalidate (state : State α) : State α :=
  if state.mapped ∨ state.cacheSeq ≠ state.writeSeq ∨ state.cacheGen ≠ state.cutoverGen then
    recached state state.writeSeq state.cutoverGen []
  else state

/-- From the read cache, or from the lower file and then, where `keep` says so, into the cache. -/
def cachedChunk (state : State α) (keep : Bool) (index : Nat) : State α × List α :=
  match state.cacheChunks.lookup index with
  | some chunk => (state,chunk)
  | none =>
    let chunk := window state.lower (index * rangeReadChunk) rangeReadChunk
    if chunk.isEmpty ∨ state.mapped ∨ ¬ keep then (state,chunk)
    else (recached state state.cacheSeq state.cacheGen ((index,chunk)::state.cacheChunks),chunk)

def cachedReadIter (keep : Bool) : Nat → State α → Nat → Nat → State α × List α
  | 0, state, _, _ => (state,[])
  | fuel+1, state, pos, count =>
    if count = 0 then (state,[])
    else
      let index := pos / rangeReadChunk
      let offset := pos - index * rangeReadChunk
      let (state,chunk) := cachedChunk (revalidate state) keep index
      let bytes := window chunk offset count
      if bytes.isEmpty then (state,[])
      else
        let (state,later) := cachedReadIter keep fuel state (pos + bytes.length) (count - bytes.length)
        (state,bytes ++ later)

def readIter (state : State α) (pos count : Nat) (keep : Bool) : State α × List α :=
  if state.rangeStaged then (state,rangeStageReadIter state count pos count)
  else if state.pool.cacheMode ∧ state.tier = state.pool.ntiers - 1 then cachedReadIter keep count state pos count
  else (state,window state.lower pos count)

def getattrSize (state : State α) : Nat :=
  if ¬ metadataTierActive state state.tier then state.size
  else if state.pool.cacheMode ∧ state.rangeStaged then state.size
  else state.lower.length

def beginDataChange (state : State α) (answer : DrainAnswer) : State α × Option Errno :=
  if state.pool.cacheMode ∧ state.rangeStaged then drainOneRange state answer else (state,none)

def shouldStageTruncate (state : State α) (size : Nat) : Bool :=
  ¬ state.pool.cacheMode ∧ state.pool.writeStaging ∧ size = 0 ∧ state.tier ≠ state.pool.fastestTier ∧
    state.pinState = .none ∧ ¬ state.pool.fastNearFull

/-- Staged ranges are not looked at outside a cache. -/
def setSize (state : State α) (size : Nat) (answer : TruncateAnswer) : State α × Option Errno :=
  match beginDataChange state answer.drain with
  | (begun,some errno) => (begun,some errno)
  | (begun,none) =>
    if shouldStageTruncate begun size then
      match answer.rehome with
      | some errno => (begun,some errno)
      | none =>
        (noteDataChange {begun with lower := [], tier := begun.pool.fastestTier, size := 0, cutoverGen := begun.cutoverGen + 1},none)
    else
      match answer.notify with
      | some errno => (begun,some errno)
      | none => (noteDataChange {begun with lower := resize begun.lower size, size := size},none)

/-- Between `smoothfs_begin_data_change` and `smoothfs_note_data_change`; `i_size` stays. -/
def changeLower (state : State α) (change : List α → List α) (answer : ChangeAnswer) : State α × Option Errno :=
  match beginDataChange state answer.drain with
  | (begun,some errno) => (begun,some errno)
  | (begun,none) =>
    match answer.lower with
    | some errno => (begun,some errno)
    | none => (noteDataChange {begun with lower := change begun.lower},none)

inductive FallocMode
  | allocate (keepSize : Bool)
  | punchHole
  | zeroRange (keepSize : Bool)
  | collapseRange
  | insertRange
  deriving DecidableEq, Repr

def zeroed (content : List α) (offset length : Nat) : List α :=
  tabulate content.length (fun index => if offset ≤ index ∧ index < offset + length then 0 else fetch content index)

def FallocMode.change (mode : FallocMode) (offset length : Nat) (content : List α) : List α :=
  match mode with
  | .allocate keepSize => if keepSize then content else resize content (max content.length (offset + length))
  | .punchHole => zeroed content offset length
  | .zeroRange keepSize =>
    zeroed (if keepSize then content else resize content (max content.length (offset + length))) offset length
  | .collapseRange => content.take offset ++ content.drop (offset + length)
  | .insertRange => content.take offset ++ List.replicate length 0 ++ content.drop offset

inductive RemapSource (α : Type)
  | other (bytes : List α)
  | same (pos count : Nat)
  deriving DecidableEq, Repr

def RemapSource.bytes (source : RemapSource α) (content : List α) : List α :=
  match source with
  | .other bytes => bytes
  | .same pos count => window content pos count

/-- The calls on the file, and what the machine around it does. Data of a splice or a clone are the
bytes moved; a splice is refused to a descriptor with `O_APPEND`, of which the lower file may still
have one. -/
inductive Call (α : Type)
  | write (call : WriteCall α) (answer : WriteAnswer)
  | truncate (size : Nat) (answer : TruncateAnswer)
  | drain (answer : DrainAnswer)
  | read (pos count : Nat) (keep : Bool)
  | getattr
  | spliceRead (pos count : Nat) (answer : DrainAnswer)
  | seekEnd (answer : DrainAnswer)
  | spliceWrite (pos : Nat) (data : List α) (lowerAppend : Bool) (answer : ChangeAnswer)
  | fallocate (mode : FallocMode) (offset length : Nat) (answer : ChangeAnswer)
  | remap (source : RemapSource α) (pos : Nat) (answer : ChangeAnswer)
  | clone (pos : Nat) (data : List α) (answer : ChangeAnswer)
  | usage (nearFull : Bool)
  | map (mapped : Bool)
  | pin (pinState : PinState)
  | storeDrainMask (mask : Nat)
  | storeMetadataMask (mask : Nat)
  | flushOid

inductive Reply (α : Type)
  | error (errno : Errno)
  | done
  | count (count : Nat)
  | bytes (bytes : List α)
  | size (size : Nat)
  deriving DecidableEq, Repr

def Reply.of (errno : Option Errno) (reply : Reply α) : Reply α :=
  match errno with
  | some errno => .error errno
  | none => reply

def Reply.ofWrite (result : Except Errno Nat) : Reply α :=
  match result with
  | .error errno => .error errno
  | .ok taken => .count taken

def drainForLower (state : State α) (answer : DrainAnswer) : State α × Option Errno :=
  if state.pool.cacheMode then drainOneRange state answer else (state,none)

/-- A cache refuses a file with staged ranges. -/
def remapFileRange (state : State α) (source : RemapSource α) (pos : Nat) (answer : ChangeAnswer) : State α × Reply α :=
  if state.pool.cacheMode ∧ state.rangeStaged then (state,.error .ebusy)
  else
    let (changed,errno) := changeLower state (fun lower => Content.write lower pos (source.bytes lower)) answer
    (changed,.of errno .done)

def step (state : State α) : Call α → State α × Reply α
  | .write call answer => ((writeIter state call answer).1,.ofWrite (writeIter state call answer).2)
  | .truncate size answer => ((setSize state size answer).1,.of (setSize state size answer).2 .done)
  | .drain answer => ((drainOneRange state answer).1,.of (drainOneRange state answer).2 .done)
  | .read pos count keep => ((readIter state pos count keep).1,.bytes (readIter state pos count keep).2)
  | .getattr => (state,.size (getattrSize state))
  | .spliceRead pos count answer =>
    let (drained,errno) := drainForLower state answer
    (drained,.of errno (.bytes (window drained.lower pos count)))
  | .seekEnd answer =>
    let (drained,errno) := drainForLower state answer
    (drained,.of errno (.size drained.lower.length))
  | .spliceWrite pos data lowerAppend answer =>
    let (changed,errno) := changeLower state (fun lower => Content.write lower (if lowerAppend then lower.length else pos) data) answer
    (changed,.of errno (.count data.length))
  | .fallocate mode offset length answer =>
    let (changed,errno) := changeLower state (mode.change offset length) answer
    (changed,.of errno .done)
  | .remap source pos answer => remapFileRange state source pos answer
  | .clone pos data answer =>
    let (changed,errno) := changeLower state (Content.write · pos data) answer
    (changed,.of errno .done)
  | .usage nearFull => ({state with pool := {state.pool with fastNearFull := nearFull}},.done)
  | .map mapped => ({state with mapped := mapped},.done)
  | .pin pinState => ({state with pinState := pinState},.done)
  | .storeDrainMask mask => ({state with drainMask := StagingDrain.storedMask state.pool mask},.done)
  | .storeMetadataMask mask => ({state with metadataMask := storedMetadataMask state.pool mask},.done)
  | .flushOid => ({state with stamped := true},.done)

def Call.change (call : Call α) (reply : Reply α) (content : List α) : List α :=
  match call, reply with
  | .write call _, .count count =>
    Content.write content (if call.append then content.length else call.pos) (call.data.take count)
  | .truncate size _, .done => resize content size
  | .spliceWrite pos data _ _, .count _ => Content.write content pos data
  | .fallocate mode offset length _, .done => mode.change offset length content
  | .remap source pos _, .done => Content.write content pos (source.bytes content)
  | .clone pos data _, .done => Content.write content pos data
  | _, _ => content

def Call.Faithful (call : Call α) (reply : Reply α) (content : List α) : Prop :=
  match call, reply with
  | .read pos count _, .bytes bytes => bytes = window content pos count
  | .spliceRead pos count _, .bytes bytes => bytes = window content pos count
  | .getattr, .size size => size = content.length
  | .seekEnd _, .size size => size = content.length
  | _, _ => True

/-- The file next to the ordinary file that went through the same calls. -/
structure Tracked (α : Type) where
  state : State α
  content : List α

def Tracked.next (tracked : Tracked α) (call : Call α) : Option (Tracked α) :=
  let (state,reply) := step tracked.state call
  some ⟨state,call.change reply tracked.content⟩

def Tracked.Faithful (tracked : Tracked α) (call : Call α) : Prop :=
  call.Faithful (step tracked.state call).2 tracked.content

end Smoothfs.RangeStaging
