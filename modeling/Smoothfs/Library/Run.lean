import Mathlib.Data.List.Basic

/-! Finite runs of a labelled partial step function. A label that is not enabled
in a state has no successor there, so a run exists only when every one of its
labels was enabled in turn. Guards restrict the states in which a label is
taken; they are how a condition on every step of a run is written. -/
namespace Smoothfs.Run

variable {S L : Type}

def run (step : S → L → Option S) (start : S) (labels : List L) : Option S :=
  labels.foldlM step start

variable (step : S → L → Option S)

theorem run_cons (start final : S) (label : L) (rest : List L) : run step start (label::rest) = some final ↔
      ∃ next, step start label = some next ∧ run step next rest = some final := by
  simp only [run,List.foldlM_cons,bind,Option.bind_eq_some_iff]

theorem reaches {step : S → L → Option S} {start : S} {labels : List L} {result : S → Prop} [DecidablePred result]
    (computed : (run step start labels).any (fun final => decide (result final)) = true) :
    ∃ final, run step start labels = some final ∧ result final := by
  obtain ⟨final,reached,met⟩ := (Option.any_eq_true _ _).mp computed
  exact ⟨final,reached,of_decide_eq_true met⟩

/-- The tasks of an interleaving stand in a list. When the one at `index` has moved on,
a task is that one or stands as before. -/
theorem getElem?_moved {T : Type} {tasks : List T} {index other : Nat} {new found : T}
    (there : (tasks.set index new)[other]? = some found) :
    other = index ∧ found = new ∨ other ≠ index ∧ tasks[other]? = some found := by
  by_cases same : index = other
  · subst same
    have bound : index < tasks.length := by simpa using (List.getElem?_eq_some_iff.mp there).1
    rw [List.getElem?_set_self bound] at there
    exact .inl ⟨rfl,(Option.some.inj there).symm⟩
  · rw [List.getElem?_set_ne same] at there
    exact .inr ⟨Ne.symm same,there⟩

/-- Every label of the run is taken in a state that satisfies its guard. -/
def Guarded (step : S → L → Option S) (guard : S → L → Prop) : S → List L → Prop
  | _, [] => True
  | start, label::rest => guard start label ∧ ∀ next, step start label = some next → Guarded step guard next rest

instance decidableGuarded (step : S → L → Option S) (guard : S → L → Prop)
    [∀ start label, Decidable (guard start label)] :
    ∀ (start : S) (labels : List L), Decidable (Guarded step guard start labels)
  | _, [] => isTrue trivial
  | start, label::rest =>
    match taken : step start label with
    | none =>
      decidable_of_iff (guard start label)
        ⟨fun met => ⟨met,fun next absent => by rw [taken] at absent; cases absent⟩,And.left⟩
    | some next =>
      have := decidableGuarded step guard next rest
      decidable_of_iff (guard start label ∧ Guarded step guard next rest)
        ⟨fun ⟨met,later⟩ => ⟨met,fun other same => by rw [taken] at same; cases same; exact later⟩,
          fun ⟨met,later⟩ => ⟨met,later next taken⟩⟩

variable (guard : S → L → Prop)

theorem guarded_of_labels (start : S) {labels : List L}
    (free : ∀ label ∈ labels, ∀ state, guard state label) : Guarded step guard start labels := by
  induction labels generalizing start with
  | nil => trivial
  | cons label rest ih =>
    exact ⟨free label List.mem_cons_self start,
      fun next _ => ih next (fun other member => free other (List.mem_cons_of_mem _ member))⟩

variable {labels : List L}

theorem Guarded.and {step : S → L → Option S} {first second : S → L → Prop} {start : S}
    (one : Guarded step first start labels) (two : Guarded step second start labels) :
    Guarded step (fun state label => first state label ∧ second state label) start labels := by
  induction labels generalizing start with
  | nil => trivial
  | cons label rest ih => exact ⟨⟨one.1,two.1⟩,fun next taken => ih (one.2 next taken) (two.2 next taken)⟩

theorem invariant (holds : S → Prop) (preserved : ∀ start label next, holds start → guard start label →
      step start label = some next → holds next) (start final : S) (labels : List L) (initial : holds start)
    (guarded : Guarded step guard start labels) (reached : run step start labels = some final) : holds final := by
  induction labels generalizing start with
  | nil => cases reached; exact initial
  | cons label rest ih =>
    obtain ⟨next,taken,reached⟩ := (run_cons step start final label rest).mp reached
    exact ih next (preserved start label next initial guarded.1 taken) (guarded.2 next taken) reached

theorem guarded_of_invariant {step : S → L → Option S} {guard : S → L → Prop} (check : S → L → Prop) (holds : S → Prop)
    (preserved : ∀ start label next, holds start → guard start label → step start label = some next → holds next)
    (safe : ∀ state label, holds state → guard state label → check state label) {start : S}
    (initial : holds start) (guarded : Guarded step guard start labels) : Guarded step check start labels := by
  induction labels generalizing start with
  | nil => trivial
  | cons label rest ih =>
    exact ⟨safe start label initial guarded.1,
      fun next taken => ih (preserved start label next initial guarded.1 taken) (guarded.2 next taken)⟩

end Smoothfs.Run
