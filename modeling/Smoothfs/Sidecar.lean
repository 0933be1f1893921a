import Smoothfs.Types
import Smoothfs.Library.Extents
import Smoothfs.Library.LittleEndian

/-! The `.meta` file beside a `.stage` file: the ranges that were staged for an
object, as `smoothfs_range_staging_persist` writes them and
`smoothfs_range_replay_one` reads them back. -/
namespace Smoothfs.RangeStaging

open Extents LittleEndian

def recMagic : Nat := 0x534D46525352454C

def recVersion : Nat := 1

def recMaxRanges : Nat := 65536

def maxBytes : Nat := 2 ^ 63 - 1

structure Sidecar where
  sourceTier : Nat
  oldestWriteNs : Nat
  ranges : List Extent
  deriving DecidableEq, Repr

def encodeRange (range : Extent) : Bytes :=
  encode 8 range.start ++ encode 8 range.stop

def Sidecar.encode (sidecar : Sidecar) : Bytes :=
  LittleEndian.encode 8 recMagic ++ (LittleEndian.encode 4 recVersion ++ (LittleEndian.encode 1 sidecar.sourceTier ++
    (LittleEndian.encode 3 0 ++ (LittleEndian.encode 8 sidecar.oldestWriteNs ++
      (LittleEndian.encode 4 sidecar.ranges.length ++ (LittleEndian.encode 4 0 ++ sidecar.ranges.flatMap encodeRange))))))

/-- A number as the signed 64-bit offset that `loff_t` makes of it. -/
def signed (value : Nat) : Int :=
  if value < 2 ^ 63 then value else value - 2 ^ 64

def decodeRanges : Nat → Bytes → Except Errno (List Extent)
  | 0, _ => .ok []
  | count+1, input =>
    match (do
      let (start,input) ← read 8 input
      let (stop,input) ← read 8 input
      some (start,stop,input)) with
    | none => .error .eio
    | some (start,stop,input) =>
      if signed stop ≤ signed start then .error .einval
      else (decodeRanges count input).map (⟨start,stop⟩::·)

structure Header where
  magic : Nat
  version : Nat
  sourceTier : Nat
  oldestWriteNs : Nat
  count : Nat
  deriving DecidableEq, Repr

def readHeader (input : Bytes) : Option (Header × Bytes) := do
  let (magic,input) ← read 8 input
  let (version,input) ← read 4 input
  let (sourceTier,input) ← read 1 input
  let (_,input) ← read 3 input
  let (oldestWriteNs,input) ← read 8 input
  let (count,input) ← read 4 input
  let (_,input) ← read 4 input
  some (⟨magic,version,sourceTier,oldestWriteNs,count⟩,input)

def Header.accepted (ntiers : Nat) (header : Header) : Bool :=
  header.magic = recMagic ∧ header.version = recVersion ∧ header.count ≤ recMaxRanges ∧ header.sourceTier < ntiers

def Sidecar.decode (ntiers : Nat) (input : Bytes) : Except Errno Sidecar :=
  match readHeader input with
  | none => .error .eio
  | some (header,input) =>
    if header.accepted ntiers then
      (decodeRanges header.count input).map (Sidecar.mk header.sourceTier header.oldestWriteNs)
    else .error .einval

structure Sidecar.Valid (ntiers : Nat) (sidecar : Sidecar) : Prop where
  tier : sidecar.sourceTier < ntiers
  byte : sidecar.sourceTier < 256
  clock : sidecar.oldestWriteNs < 256 ^ 8
  few : sidecar.ranges.length ≤ recMaxRanges
  proper : ∀ range ∈ sidecar.ranges, range.start < range.stop ∧ range.stop ≤ maxBytes

theorem signed_small (value : Nat) (small : value ≤ maxBytes) : signed value = value :=
  if_pos (by unfold maxBytes at small; omega)

theorem decodeRanges_encode (ranges : List Extent) (proper : ∀ range ∈ ranges, range.start < range.stop ∧ range.stop ≤ maxBytes) :
    decodeRanges ranges.length (ranges.flatMap encodeRange) = .ok ranges := by
  induction ranges with
  | nil => rfl
  | cons range rest ih =>
    obtain ⟨ordered,small⟩ := proper range List.mem_cons_self
    have fits : range.stop < 256 ^ 8 := by
      unfold maxBytes at small
      omega
    have later := ih fun other member => proper other (List.mem_cons_of_mem _ member)
    have start := signed_small range.start (by omega)
    have stop := signed_small range.stop small
    simp only [List.flatMap_cons,encodeRange,List.append_assoc,List.length_cons,decodeRanges]
    rw [read_encode 8 _ (by omega)]
    dsimp only [bind,Option.bind]
    rw [read_encode 8 _ fits]
    dsimp only
    rw [if_neg (by omega),later]
    rfl

theorem Sidecar.decode_encode (ntiers : Nat) (sidecar : Sidecar) (valid : sidecar.Valid ntiers) :
    Sidecar.decode ntiers sidecar.encode = .ok sidecar := by
  have few := valid.few
  have header : readHeader sidecar.encode =
      some (⟨recMagic,recVersion,sidecar.sourceTier,sidecar.oldestWriteNs,sidecar.ranges.length⟩,
        sidecar.ranges.flatMap encodeRange) := by
    unfold readHeader Sidecar.encode
    rw [read_encode 8 _ (by decide)]
    dsimp only [bind,Option.bind]
    rw [read_encode 4 _ (by decide)]
    dsimp only
    rw [read_encode 1 _ valid.byte]
    dsimp only
    rw [read_encode 3 _ (by decide)]
    dsimp only
    rw [read_encode 8 _ valid.clock]
    dsimp only
    rw [read_encode 4 _ (by unfold recMaxRanges at few; omega)]
    dsimp only
    rw [read_encode 4 _ (by decide)]
  have accepted : Header.accepted ntiers
      ⟨recMagic,recVersion,sidecar.sourceTier,sidecar.oldestWriteNs,sidecar.ranges.length⟩ = true := by
    simp [Header.accepted,few,valid.tier]
  unfold Sidecar.decode
  rw [header]
  dsimp only
  rw [if_pos accepted,decodeRanges_encode sidecar.ranges valid.proper]
  rfl

end Smoothfs.RangeStaging
