import Mathlib.Logic.Relation

/-! Tasks that hold resources and wait for others. A task waits for every holder of
the resource it wants; a deadlock is a closed walk of waits. -/
namespace Smoothfs.WaitFor

variable {T R : Type} (wants : T → Option R) (holds : T → R → Prop)

def Waits (first second : T) : Prop :=
  ∃ resource, wants first = some resource ∧ holds second resource

/-- The task is on a cycle of tasks each of which waits for the next. -/
def Deadlocked (task : T) : Prop :=
  Relation.TransGen (Waits wants holds) task task

section Rank

variable {wants : T → Option R} {holds : T → R → Prop} (rank : T → Nat)

theorem rank_falls (falls : ∀ first second resource, wants first = some resource → holds second resource → rank second < rank first)
    {first last : T} (walk : Relation.TransGen (Waits wants holds) first last) : rank last < rank first := by
  induction walk with
  | single wait =>
    obtain ⟨resource,wanted,held⟩ := wait
    exact falls _ _ resource wanted held
  | tail _ wait ih =>
    obtain ⟨resource,wanted,held⟩ := wait
    exact Nat.lt_trans (falls _ _ resource wanted held) ih

theorem not_deadlocked
    (falls : ∀ first second resource, wants first = some resource → holds second resource → rank second < rank first) (task : T) :
    ¬ Deadlocked wants holds task := by
  intro cycle
  exact Nat.lt_irrefl _ (rank_falls rank falls cycle)

end Rank

end Smoothfs.WaitFor
