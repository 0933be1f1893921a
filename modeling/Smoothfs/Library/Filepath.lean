import Mathlib.Data.List.Basic

/-! Lexical paths as lists of components, with the cleaning that joining two
paths performs. -/
namespace Smoothfs.Filepath

/-- One component onto the reversed path: empty and `.` components vanish, `..`
takes back the component before it where there is one. -/
def cleanStep (stack : List String) (component : String) : List String :=
  if component = "" ∨ component = "." then stack
  else if component = ".." then
    match stack with
    | [] => [".."]
    | top::rest => if top = ".." then ".."::stack else rest
  else component::stack

def clean (path : List String) : List String :=
  (path.foldl cleanStep []).reverse

def normalized (path : List String) : Bool :=
  path ≠ [] ∧ ∀ component ∈ path, component ≠ "" ∧ component ≠ "." ∧ component ≠ ".."

theorem clean_foldl {path : List String} (stack : List String)
    (plain : ∀ component ∈ path, component ≠ "" ∧ component ≠ "." ∧ component ≠ "..") :
    path.foldl cleanStep stack = path.reverse ++ stack := by
  induction path generalizing stack with
  | nil => rfl
  | cons component rest ih =>
    obtain ⟨empty,dot,dots⟩ := plain component List.mem_cons_self
    have pushed : cleanStep stack component = component::stack := by simp [cleanStep,empty,dot,dots]
    rw [List.foldl_cons,pushed,ih _ (fun other member => plain other (List.mem_cons_of_mem _ member))]
    simp

theorem clean_normalized {path : List String} (normal : normalized path = true) : clean path = path := by
  have plain : ∀ component ∈ path, component ≠ "" ∧ component ≠ "." ∧ component ≠ ".." :=
    (of_decide_eq_true normal).2
  rw [clean,clean_foldl [] plain]
  simp

end Smoothfs.Filepath
