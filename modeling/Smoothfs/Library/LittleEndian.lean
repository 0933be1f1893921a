import Mathlib.Data.Nat.ModEq
import Mathlib.Tactic.Ring

/-! Numbers as byte strings of a fixed width, least significant byte first. -/
namespace Smoothfs.LittleEndian

def encode : Nat → Nat → List UInt8
  | 0, _ => []
  | width+1, value => UInt8.ofNat (value % 256)::encode width (value / 256)

def decode : List UInt8 → Nat
  | [] => 0
  | byte::rest => byte.toNat + 256 * decode rest

variable (width : Nat) {value : Nat}

variable (value) in
@[simp] theorem length_encode : (encode width value).length = width := by
  induction width generalizing value with
  | zero => rfl
  | succ width ih => simp [encode,ih]

variable (value) in
theorem decode_encode : decode (encode width value) = value % 256 ^ width := by
  induction width generalizing value with
  | zero => simp [encode,decode,Nat.mod_one]
  | succ width ih =>
    have byte : (UInt8.ofNat (value % 256)).toNat = value % 256 := by
      simp
    rw [encode,decode,ih,byte,pow_succ,mul_comm (256 ^ width) 256,Nat.mod_mul]

/-- A number of a width off the front of the input, if the input is that long. -/
def read (width : Nat) (input : List UInt8) : Option (Nat × List UInt8) :=
  if width ≤ input.length then some (decode (input.take width),input.drop width) else none

variable (rest : List UInt8)

theorem read_encode (fits : value < 256 ^ width) : read width (encode width value ++ rest) = some (value,rest) := by
  have size := length_encode width value
  rw [read,if_pos (by simp),List.take_left' size,List.drop_left' size,decode_encode,Nat.mod_eq_of_lt fits]

/-- The number of a width at an offset of a buffer. -/
def field (offset width : Nat) (buf : List UInt8) : Nat := decode ((buf.drop offset).take width)

theorem field_encode (fits : value < 256 ^ width) : field 0 width (encode width value ++ rest) = value := by
  rw [field,List.drop_zero,List.take_left' (length_encode width value),decode_encode,Nat.mod_eq_of_lt fits]

theorem field_append {offset width : Nat} {front rest : List UInt8} (before : front.length ≤ offset) :
    field offset width (front ++ rest) = field (offset - front.length) width rest := by
  rw [field,List.drop_append,List.drop_eq_nil_of_le before]
  rfl

end Smoothfs.LittleEndian
