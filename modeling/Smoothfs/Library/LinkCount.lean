import Mathlib.Data.List.Nodup
import Mathlib.Logic.Function.Basic

/-! Names that lead to files, and a count of links that is kept for each file. The
count may be larger than the number of names, since a name can be out of sight; it is
never smaller. -/
namespace Smoothfs.LinkCount

open Function

variable {Name File : Type}

/-- However many names of a file are listed, they are not more than its links. -/
def Enough (names : Name → Option File) (count : File → Nat) : Prop :=
  ∀ file (listed : List Name), listed.Nodup → (∀ name ∈ listed, names name = some file) → listed.length ≤ count file

variable {names : Name → Option File} {count : File → Nat} {name : Name} {file : File}

variable (enough : Enough names count)
include enough

theorem Enough.pos (named : names name = some file) : 0 < count file :=
  enough file [name] (List.nodup_singleton name) (by simpa using named)

variable [DecidableEq Name] [DecidableEq File]

theorem Enough.add (name : Name) (file : File) : Enough (update names name (some file)) (update count file (count file + 1)) := by
  intro other listed distinct leads
  have old (entry : Name) (member : entry ∈ listed.erase name) : names entry = some other := by
    obtain ⟨different,inside⟩ := distinct.mem_erase_iff.mp member
    simpa [different] using leads entry inside
  have bound := enough other (listed.erase name) (distinct.erase name) old
  by_cases inside : name ∈ listed
  · have same : other = file := by simpa using (leads name inside).symm
    rw [List.length_erase_of_mem inside] at bound
    rw [same] at bound ⊢
    rw [update_self]
    omega
  · rw [List.erase_of_not_mem inside] at bound
    by_cases same : other = file
    · rw [same] at bound ⊢
      rw [update_self]
      omega
    · rwa [update_of_ne same]

theorem Enough.remove (named : names name = some file) : Enough (update names name none) (update count file (count file - 1)) := by
  intro other listed distinct leads
  have outside : name ∉ listed := fun member => by simpa using leads name member
  have old (entry : Name) (member : entry ∈ listed) : names entry = some other := by
    have different : entry ≠ name := fun same => outside (same ▸ member)
    simpa [different] using leads entry member
  by_cases same : other = file
  · subst same
    have bound := enough other (name::listed) (List.nodup_cons.mpr ⟨outside,distinct⟩) (by simpa using ⟨named,old⟩)
    rw [List.length_cons] at bound
    rw [update_self]
    omega
  · rw [update_of_ne same]
    exact enough other listed distinct old

theorem Enough.move (named : names name = some file) (target : Name) :
    Enough (update (update names name none) target (some file)) count := by
  have moved := (enough.remove named).add target file
  have positive := enough.pos named
  simpa [Nat.sub_add_cancel positive] using moved

omit enough

end Smoothfs.LinkCount
