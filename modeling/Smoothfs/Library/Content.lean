import Mathlib.Data.List.Basic
import Mathlib.Data.List.GetD

/-! File contents as lists over any type of bytes with a filler. A content is
read past its end as filler, so two contents are compared byte by byte with
`fetch` and by their lengths. -/
namespace Smoothfs.Content

variable {α : Type}

def window (content : List α) (pos count : Nat) : List α :=
  (content.drop pos).take count

def tabulate (size : Nat) (bytes : Nat → α) : List α :=
  (List.range size).map bytes

variable (content : List α) (pos count : Nat)

@[simp] theorem length_window : (window content pos count).length = min count (content.length - pos) := by
  simp [window]

variable (size : Nat) (bytes : Nat → α)

@[simp] theorem length_tabulate : (tabulate size bytes).length = size := by
  simp [tabulate]

theorem window_window (start length : Nat) :
    window (window content pos count) start length = window content (pos + start) (min length (count - start)) := by
  simp only [window,List.drop_take,List.drop_drop,List.take_take]

theorem window_held : window content pos (window content pos count).length = window content pos count := by
  rw [window,window,List.length_take,← List.take_eq_take_min]

theorem window_split (first count : Nat) (within : first ≤ count) :
    window content pos count = window content pos first ++ window content (pos + first) (count - first) := by
  unfold window
  rw [← List.drop_drop,← List.take_add,Nat.add_sub_cancel' within]

variable (first second : List α)

theorem windows_eq_iff : (∀ pos count, window first pos count = window second pos count) ↔ first = second := by
  constructor
  · intro same
    have whole := same 0 (max first.length second.length)
    rwa [window,window,List.drop_zero,List.drop_zero,List.take_of_length_le (Nat.le_max_left _ _),
      List.take_of_length_le (Nat.le_max_right _ _)] at whole
  · rintro rfl _ _
    rfl

variable [Zero α]

def fetch (content : List α) (index : Nat) : α :=
  content.getD index 0

def write (content : List α) (pos : Nat) (data : List α) : List α :=
  if data.isEmpty then content
  else content.take pos ++ List.replicate (pos - content.length) 0 ++ data ++ content.drop (pos + data.length)

def resize (content : List α) (size : Nat) : List α :=
  content.take size ++ List.replicate (size - content.length) 0

variable (index : Nat)

theorem fetch_lt (inside : index < content.length) : fetch content index = content[index] := by
  simp [fetch,inside]

theorem fetch_ge (outside : content.length ≤ index) : fetch content index = 0 := by
  simp [fetch,outside]

theorem fetch_append :
    fetch (first ++ second) index = if index < first.length then fetch first index else fetch second (index - first.length) := by
  split
  · next inside => exact List.getD_append _ _ _ _ inside
  · next outside => exact List.getD_append_right _ _ _ _ (Nat.le_of_not_lt outside)

theorem fetch_replicate : fetch (List.replicate count (0 : α)) index = 0 := by
  simp only [fetch,List.getD_eq_getElem?_getD,List.getElem?_replicate]
  split <;> rfl

theorem fetch_take : fetch (content.take count) index = if index < count then fetch content index else 0 := by
  simp only [fetch,List.getD_eq_getElem?_getD,List.getElem?_take]
  split <;> rfl

theorem fetch_drop : fetch (content.drop pos) index = fetch content (pos + index) := by
  simp [fetch]

theorem fetch_tabulate : fetch (tabulate size bytes) index = if index < size then bytes index else 0 := by
  split
  · next inside =>
    rw [fetch_lt _ _ (by simpa using inside)]
    simp [tabulate]
  · next outside => exact fetch_ge _ _ (by simpa using outside)

theorem fetch_window : fetch (window content pos count) index = if index < count then fetch content (pos + index) else 0 := by
  rw [window,fetch_take,fetch_drop]

theorem ext_fetch (lengths : first.length = second.length)
    (bytes : ∀ index, index < second.length → fetch first index = fetch second index) : first = second := by
  apply List.ext_getElem lengths
  intro index one two
  rw [← fetch_lt first index one,← fetch_lt second index two]
  exact bytes index two

@[simp] theorem length_resize : (resize content size).length = size := by
  simp [resize]
  omega

theorem fetch_resize : fetch (resize content size) index = if index < size then fetch content index else 0 := by
  rw [resize,fetch_append,fetch_take,fetch_replicate,List.length_take]
  by_cases inside : index < size
  · by_cases held : index < content.length
    · rw [if_pos (by omega)]
    · rw [if_neg (by omega),if_pos inside,fetch_ge content index (by omega)]
  · rw [if_neg (by omega),if_neg inside]

variable (data : List α)

theorem length_write :
    (write content pos data).length = if data = [] then content.length else max content.length (pos + data.length) := by
  unfold write
  by_cases empty : data = []
  · simp [empty]
  · rw [if_neg (by simpa using empty),if_neg empty]
    simp
    omega

theorem length_le_write : content.length ≤ (write content pos data).length := by
  rw [length_write]
  split <;> omega

theorem length_write_mono (pos : Nat) (data : List α) (shorter : first.length ≤ second.length) :
    (write first pos data).length ≤ (write second pos data).length := by
  rw [length_write,length_write]
  split <;> omega

theorem fetch_write (index : Nat) : fetch (write content pos data) index =
      if pos ≤ index ∧ index < pos + data.length then fetch data (index - pos) else fetch content index := by
  unfold write
  by_cases empty : data = []
  · subst empty
    rw [if_pos List.isEmpty_nil,if_neg (by simp)]
  rw [if_neg (by simpa using empty),fetch_append,fetch_append,fetch_append,fetch_take,fetch_replicate,fetch_drop]
  simp only [List.length_append,List.length_take,List.length_replicate]
  by_cases before : index < pos
  · by_cases held : index < content.length
    · rw [if_pos (by omega),if_pos (by omega),if_pos (by omega),if_pos before,if_neg (by omega)]
    · rw [if_pos (by omega),if_pos (by omega),if_neg (by omega),if_neg (by omega),fetch_ge content index (by omega)]
  by_cases inside : index < pos + data.length
  · rw [if_pos (by omega),if_neg (by omega),if_pos ⟨by omega,inside⟩]
    congr 1
    omega
  · rw [if_neg (by omega),if_neg (by omega)]
    congr 1
    omega

end Smoothfs.Content
