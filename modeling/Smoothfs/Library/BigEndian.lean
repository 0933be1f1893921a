import Mathlib.Data.Nat.ModEq
import Mathlib.Tactic.Ring
import Mathlib.Tactic.Linarith

/-! Byte strings as numbers, most significant byte first: among strings of one
length the larger number is the later string. -/
namespace Smoothfs.BigEndian

def value : List (BitVec 8) → Nat
  | [] => 0
  | byte::rest => byte.toNat * 256 ^ rest.length + value rest

variable (bytes : List (BitVec 8))

theorem value_lt : value bytes < 256 ^ bytes.length := by
  induction bytes with
  | nil => simp [value]
  | cons byte rest ih =>
    have small : byte.toNat + 1 ≤ 256 := byte.isLt
    calc value (byte::rest) < (byte.toNat + 1) * 256 ^ rest.length := by
          rw [value]
          linarith
      _ ≤ 256 * 256 ^ rest.length := Nat.mul_le_mul_right _ small
      _ = 256 ^ (byte::rest).length := by
          rw [List.length_cons]
          ring

theorem lt_of_value_lt (first second after later : List (BitVec 8)) (same : first.length = second.length)
    (smaller : value first < value second) : first ++ after < second ++ later := by
  induction first generalizing second with
  | nil => cases second <;> simp_all
  | cons byte rest ih =>
    cases second with
    | nil => simp at same
    | cons other others =>
      have lengths : rest.length = others.length := by simpa using same
      have bound := value_lt others
      simp only [value,lengths] at smaller
      simp only [List.cons_append,List.cons_lt_cons_iff]
      rcases Nat.lt_trichotomy byte.toNat other.toNat with less | equal | more
      · exact .inl less
      · rw [equal] at smaller
        exact .inr ⟨BitVec.eq_of_toNat_eq equal,ih others lengths (by omega)⟩
      · have above : (other.toNat + 1) * 256 ^ others.length ≤ byte.toNat * 256 ^ others.length :=
          Nat.mul_le_mul_right _ more
        linarith

end Smoothfs.BigEndian
