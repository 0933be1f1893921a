import Mathlib.Data.List.Chain
import Mathlib.Tactic.IntervalCases
import Smoothfs.Library.BigEndian

/-! `smoothfs_alloc_oid`: the octets of the object ids that one mount hands out,
on a little-endian machine. -/
namespace Smoothfs.ObjectIds

open BigEndian

structure Draw where
  realNs : BitVec 64
  random : BitVec 64

def Draw.ms (draw : Draw) : BitVec 64 := draw.realNs / 1000000#64

def octet (value : BitVec 64) (shift : Nat) : BitVec 8 := ((value >>> shift) &&& 0xff#64).setWidth 8

/-- The counter is incremented before it is read; the random tail is copied with
`memcpy`, so its lowest octet comes first. -/
def allocOid (oidMonotonic : BitVec 64) (draw : Draw) : List (BitVec 8) :=
  let ms := draw.ms
  let ctr : BitVec 16 := ((oidMonotonic + 1) &&& 0x0FFF#64).setWidth 16
  let rand := (draw.random &&& ~~~(0xC0#64 <<< 56)) ||| (0x80#64 <<< 56)
  [octet ms 40,octet ms 32,octet ms 24,octet ms 16,octet ms 8,octet ms 0,
    0x70#8 ||| ((ctr >>> 8) &&& 0x0f#16).setWidth 8,(ctr &&& 0xff#16).setWidth 8] ++
  [octet rand 0,octet rand 8,octet rand 16,octet rand 24,octet rand 32,octet rand 40,octet rand 48,octet rand 56]

def allocOids : BitVec 64 → List Draw → List (List (BitVec 8))
  | _, [] => []
  | oidMonotonic, draw::draws => allocOid oidMonotonic draw::allocOids (oidMonotonic + 1) draws

/-- 48 bits of time, version nibble 7, 12 bits of counter, and 10 as the top bits
of octet 8. -/
structure Layout (ms counter : Nat) (oid : List (BitVec 8)) : Prop where
  size : oid.length = 16
  time : value (oid.take 6) = ms
  version : oid[6]?.map (fun byte : BitVec 8 => byte.toNat / 16) = some 7
  counter : value ((oid.drop 6).take 2) % 4096 = counter % 4096
  variant : oid[8]?.map (fun byte : BitVec 8 => byte.toNat / 64) = some 2

def LaidOut : BitVec 64 → List Draw → Prop
  | _, [] => True
  | oidMonotonic, draw::draws =>
    Layout (draw.realNs.toNat / 1000000) (oidMonotonic + 1).toNat (allocOid oidMonotonic draw) ∧ LaidOut (oidMonotonic + 1) draws

/-- Two ids of one millisecond are not on either side of the counter's wrap. -/
def Unwrapped : BitVec 64 → List Draw → Prop
  | oidMonotonic, draw::next::draws =>
    (draw.ms = next.ms → (oidMonotonic + 2).toNat % 4096 ≠ 0) ∧ Unwrapped (oidMonotonic + 1) (next::draws)
  | _, _ => True

variable (oidMonotonic : BitVec 64) (draw next : Draw) (draws : List Draw)

theorem octet_toNat (value : BitVec 64) (shift : Nat) : (octet value shift).toNat = value.toNat / 2 ^ shift % 256 := by
  have masked := Nat.and_two_pow_sub_one_eq_mod (value.toNat / 2 ^ shift) 8
  simp only [octet,BitVec.toNat_setWidth,BitVec.toNat_and,BitVec.toNat_ushiftRight,Nat.shiftRight_eq_div_pow]
  norm_num at masked ⊢
  omega

theorem or_nibble (nibble : Nat) (small : nibble < 16) : 112 ||| nibble = 112 + nibble := by
  interval_cases nibble <;> rfl

def counter (oidMonotonic : BitVec 64) : Nat := (oidMonotonic + 1).toNat % 4096

theorem counter_toNat : (((oidMonotonic + 1) &&& 0x0FFF#64).setWidth 16).toNat = counter oidMonotonic := by
  have masked := Nat.and_two_pow_sub_one_eq_mod (oidMonotonic + 1).toNat 12
  simp only [BitVec.toNat_setWidth,counter]
  norm_num at masked ⊢
  omega

theorem version_octet (ctr : BitVec 16) (small : ctr.toNat < 4096) :
    (0x70#8 ||| ((ctr >>> 8) &&& 0x0f#16).setWidth 8).toNat = 112 + ctr.toNat / 256 := by
  have masked := Nat.and_two_pow_sub_one_eq_mod (ctr.toNat / 256) 4
  have joined := or_nibble (ctr.toNat / 256) (by omega)
  simp only [BitVec.toNat_or,BitVec.toNat_setWidth,BitVec.toNat_and,BitVec.toNat_ushiftRight,Nat.shiftRight_eq_div_pow]
  norm_num at masked ⊢
  rw [masked,Nat.mod_eq_of_lt (by omega),Nat.mod_eq_of_lt (by omega),joined]

theorem counter_octet (ctr : BitVec 16) : ((ctr &&& 0xff#16).setWidth 8).toNat = ctr.toNat % 256 := by
  have masked := Nat.and_two_pow_sub_one_eq_mod ctr.toNat 8
  simp only [BitVec.toNat_setWidth]
  norm_num at masked ⊢
  omega

theorem ms_toNat : draw.ms.toNat = draw.realNs.toNat / 1000000 := by
  simp [Draw.ms]

theorem counter_lt : counter oidMonotonic < 4096 := Nat.mod_lt _ (by decide)

theorem ms_lt : draw.ms.toNat < 2 ^ 48 := by
  rw [ms_toNat]
  omega

theorem value_time : value ((allocOid oidMonotonic draw).take 6) = draw.ms.toNat := by
  have small := ms_lt draw
  simp only [allocOid,List.cons_append,List.take_succ_cons,List.take_zero,value,octet_toNat,List.length_cons]
  norm_num
  omega

theorem value_version : value (((allocOid oidMonotonic draw).drop 6).take 2) = 0x7000 + counter oidMonotonic := by
  have small := counter_lt oidMonotonic
  have same := counter_toNat oidMonotonic
  simp only [allocOid,List.cons_append,List.drop_succ_cons,List.drop_zero,List.take_succ_cons,List.take_zero,value,
    List.length_cons,List.length_nil,counter_octet]
  rw [version_octet _ (same ▸ small)]
  omega

theorem value_front : value ((allocOid oidMonotonic draw).take 8) = draw.ms.toNat * 65536 + (0x7000 + counter oidMonotonic) := by
  rw [← value_time oidMonotonic draw,← value_version oidMonotonic draw]
  simp only [allocOid,List.cons_append,List.drop_succ_cons,List.drop_zero,List.take_succ_cons,List.take_zero,value,
    List.length_cons]
  ring

/-- Only octet 15 gets the variant bits: octet 8 is the lowest octet of the
random number. -/
theorem variant_iff : (allocOid oidMonotonic draw)[8]?.map (fun byte : BitVec 8 => byte.toNat / 64) = some 2 ↔
    draw.random.toNat % 256 / 64 = 2 := by
  have kept : ((draw.random &&& ~~~(0xC0#64 <<< 56)) ||| (0x80#64 <<< 56)).setWidth 8 = draw.random.setWidth 8 := by
    have all : (~~~(0xC0#64 <<< 56)).setWidth 8 = BitVec.allOnes 8 := by decide
    have empty : (0x80#64 <<< 56).setWidth 8 = 0#8 := by decide
    rw [BitVec.setWidth_or,BitVec.setWidth_and,all,empty,BitVec.and_allOnes,BitVec.or_zero]
  have lowest := congrArg BitVec.toNat kept
  simp only [BitVec.toNat_setWidth] at lowest
  change some ((octet _ 0).toNat / 64) = some 2 ↔ _
  rw [octet_toNat,Nat.pow_zero,Nat.div_one,Option.some.injEq,lowest]

theorem layout_iff : Layout (draw.realNs.toNat / 1000000) (oidMonotonic + 1).toNat (allocOid oidMonotonic draw) ↔
    draw.random.toNat % 256 / 64 = 2 := by
  have version := value_version oidMonotonic draw
  have small := counter_lt oidMonotonic
  have same := counter_toNat oidMonotonic
  refine ⟨fun layout => (variant_iff oidMonotonic draw).mp layout.variant,fun marked =>
    ⟨rfl,(value_time oidMonotonic draw).trans (ms_toNat draw),?_,?_,(variant_iff oidMonotonic draw).mpr marked⟩⟩
  · change some (BitVec.toNat _ / 16) = some 7
    rw [version_octet _ (same ▸ small)]
    simp only [Option.some.injEq]
    omega
  · rw [version,counter]
    omega

theorem laidOut_iff : LaidOut oidMonotonic draws ↔ ∀ draw ∈ draws, draw.random.toNat % 256 / 64 = 2 := by
  induction draws generalizing oidMonotonic with
  | nil => simp [LaidOut]
  | cons draw draws ih => rw [LaidOut,layout_iff,ih,List.forall_mem_cons]

theorem allocOid_lt_of_front (before after : BitVec 64)
    (smaller : value ((allocOid before draw).take 8) < value ((allocOid after next).take 8)) :
    allocOid before draw < allocOid after next := by
  exact lt_of_value_lt _ _ _ _ rfl smaller

theorem allocOid_lt_iff (ordered : draw.realNs ≤ next.realNs) :
    allocOid oidMonotonic draw < allocOid (oidMonotonic + 1) next ↔
      (draw.ms = next.ms → (oidMonotonic + 2).toNat % 4096 ≠ 0) := by
  have first := value_front oidMonotonic draw
  have second := value_front (oidMonotonic + 1) next
  have counts : counter (oidMonotonic + 1) = (counter oidMonotonic + 1) % 4096 := by
    have one : (1 : BitVec 64).toNat = 1 := rfl
    simp only [counter,BitVec.toNat_add]
    omega
  have wraps : (oidMonotonic + 2).toNat % 4096 = counter (oidMonotonic + 1) := by
    rw [counter,BitVec.add_assoc]
    rfl
  have small := counter_lt oidMonotonic
  constructor
  · intro less same wrapped
    have back : value ((allocOid (oidMonotonic + 1) next).take 8) < value ((allocOid oidMonotonic draw).take 8) := by
      rw [first,same]
      omega
    exact List.lt_asymm less (allocOid_lt_of_front next draw _ _ back)
  · intro unwrapped
    apply allocOid_lt_of_front
    have times : draw.ms.toNat ≤ next.ms.toNat := by
      exact Nat.div_le_div_right (BitVec.le_def.mp ordered)
    rcases Nat.lt_or_eq_of_le times with later | same
    · have bound := counter_lt (oidMonotonic + 1)
      omega
    · have moved := unwrapped (BitVec.eq_of_toNat_eq same)
      omega

theorem isChain_iff (ordered : draws.Pairwise (·.realNs ≤ ·.realNs)) :
    (allocOids oidMonotonic draws).IsChain (· < ·) ↔ Unwrapped oidMonotonic draws := by
  induction draws generalizing oidMonotonic with
  | nil => simp [allocOids,Unwrapped]
  | cons draw draws ih =>
    obtain ⟨first,rest⟩ := List.pairwise_cons.mp ordered
    cases draws with
    | nil => simp [allocOids,Unwrapped]
    | cons next draws =>
      have tail := ih (oidMonotonic + 1) rest
      rw [Unwrapped,← tail,← allocOid_lt_iff oidMonotonic draw next (first next List.mem_cons_self)]
      simp only [allocOids,List.isChain_cons_cons]

/-- With a clock that never goes back. -/
theorem oids_laid_out_and_growing_iff (ordered : draws.Pairwise (·.realNs ≤ ·.realNs)) :
    (LaidOut oidMonotonic draws ∧ (allocOids oidMonotonic draws).Pairwise (· < ·)) ↔
      (∀ draw ∈ draws, draw.random.toNat % 256 / 64 = 2) ∧ Unwrapped oidMonotonic draws := by
  rw [laidOut_iff,← isChain_iff oidMonotonic draws ordered,List.isChain_iff_pairwise]

theorem marked_oids_grow : LaidOut 7 [⟨1000000,0x80⟩,⟨1000000,0x9F⟩] ∧
    (allocOids 7 [⟨1000000,0x80⟩,⟨1000000,0x9F⟩]).Pairwise (· < ·) :=
  (oids_laid_out_and_growing_iff 7 [⟨1000000,0x80⟩,⟨1000000,0x9F⟩] (by simp)).mpr (by simp [Unwrapped,Draw.ms])

/-- A random number of 0; and a counter that wraps within a millisecond. -/
theorem unmarked_oid_and_wrapped_counter :
    (allocOid 0 ⟨1000000,0⟩)[8]? = some 0x00#8 ∧ (allocOid 0 ⟨1000000,0⟩)[15]? = some 0x80#8 ∧
      ¬ LaidOut 0 [⟨1000000,0⟩] ∧ ¬ (allocOids 4094 [⟨1000000,0x80⟩,⟨1000000,0x80⟩]).Pairwise (· < ·) := by
  refine ⟨by decide,by decide,?_,by decide⟩
  rw [laidOut_iff]
  simp

end Smoothfs.ObjectIds
