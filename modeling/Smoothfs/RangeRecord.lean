import Smoothfs.RangeStaging

/-! `smoothfs_range_stage_record_locked` as the loop that it is: it widens the new
range, deletes what it absorbs and remembers where to insert. -/
namespace Smoothfs.RangeRecord
open Extents RangeStaging

/-- `passed` has the ranges that are kept before the cursor, the last one first. Without
an insertion point the new range goes to the tail. -/
def recordLoop (passed : List Extent) (start stop : Nat) : List Extent → List Extent
  | [] => passed.reverse ++ [⟨start,stop⟩]
  | range::rest =>
    if stop < range.start then passed.reverse ++ ⟨start,stop⟩::range::rest
    else if range.stop < start then recordLoop (range::passed) start stop rest
    else recordLoop passed (min start range.start) (max stop range.stop) rest

def recordLocked (start stop : Nat) (ranges : List Extent) : List Extent :=
  if stop ≤ start then ranges else recordLoop [] start stop ranges

/-- The loop keeps what it has passed and does to the rest what `add` does. -/
theorem recordLoop_eq (passed ranges : List Extent) (start stop : Nat) :
    recordLoop passed start stop ranges = passed.reverse ++ add start stop ranges := by
  induction ranges generalizing passed start stop with
  | nil => rfl
  | cons range rest ih =>
    simp only [recordLoop,add]
    split_ifs
    · rfl
    · rw [ih]
      simp
    · rw [ih]

theorem recordLocked_eq (ranges : List Extent) (start stop : Nat) :
    recordLocked start stop ranges = rangeStageRecord ranges start stop := by
  simp [recordLocked,rangeStageRecord,recordLoop_eq]

/-- Recording a range computes the union. -/
theorem recordLocked_union {ranges : List Extent} {start stop : Nat} (separated : Separated ranges) (nonempty : start < stop) :
    Separated (recordLocked start stop ranges) ∧
      ∀ offset, covers (recordLocked start stop ranges) offset = true ↔
        covers ranges offset = true ∨ (start ≤ offset ∧ offset < stop) := by
  rw [recordLocked_eq,rangeStageRecord,if_neg (Nat.not_le.mpr nonempty)]
  refine ⟨separated_add _ separated start stop nonempty,fun offset => ?_⟩
  rw [covers_add _ separated.proper start stop offset nonempty,Bool.or_eq_true,holds_iff]

theorem recorded_range_joins_two : Separated (recordLocked 4 8 [⟨1,4⟩,⟨6,9⟩]) :=
  (recordLocked_union ⟨by simp,by simp⟩ (by decide)).1

end Smoothfs.RangeRecord
