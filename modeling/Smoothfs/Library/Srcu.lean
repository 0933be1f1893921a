import Smoothfs.Library.Run

/-! Sleepable read-copy-update grace periods, over tasks numbered by position.
`readers` tells which program counters stand inside a read section. A grace
period waits for the readers that were inside when it began, and for no later
one. -/
namespace Smoothfs.Srcu

variable {Pc : Type}

/-- The tasks inside a read section, which `call_srcu` starts to wait for. -/
def inside (reading : Pc → Bool) (tasks : List Pc) : List Nat :=
  (List.range tasks.length).filter (fun task => (tasks[task]?).any reading)

theorem mem_inside {reading : Pc → Bool} {tasks : List Pc} (task : Nat) {pc : Pc}
    (found : tasks[task]? = some pc) (reads : reading pc = true) : task ∈ inside reading tasks := by
  obtain ⟨bound,_⟩ := List.getElem?_eq_some_iff.mp found
  rw [inside,List.mem_filter]
  exact ⟨List.mem_range.mpr bound,by rw [found]; exact reads⟩

def unlocked (waiting : List Nat) (task : Nat) : List Nat :=
  waiting.filter (· ≠ task)

theorem mem_unlocked (waiting : List Nat) (task other : Nat) :
    other ∈ unlocked waiting task ↔ other ∈ waiting ∧ other ≠ task := by
  simp [unlocked]

/-- Every task whose counter satisfies `old` is still waited for. -/
def Fenced (old : Pc → Prop) (tasks : List Pc) (waiting : List Nat) : Prop :=
  ∀ (task : Nat) (pc : Pc), tasks[task]? = some pc → old pc → task ∈ waiting

theorem fenced_inside (old : Pc → Prop) (reading : Pc → Bool) (tasks : List Pc)
    (reads : ∀ pc, old pc → reading pc = true) : Fenced old tasks (inside reading tasks) :=
  fun task pc found aged => mem_inside task found (reads pc aged)

variable {old : Pc → Prop} {tasks : List Pc}

theorem Fenced.drained (fenced : Fenced old tasks []) : ∀ pc ∈ tasks, ¬ old pc := by
  intro pc member aged
  obtain ⟨task,bound,found⟩ := List.mem_iff_getElem.mp member
  exact absurd (fenced task pc (List.getElem?_eq_some_iff.mpr ⟨bound,found⟩) aged) (by simp)

variable {waiting : List Nat}

theorem Fenced.set (fenced : Fenced old tasks waiting) (task : Nat) (before after : Pc)
    (found : tasks[task]? = some before) (kept : old after → old before) : Fenced old (tasks.set task after) waiting := by
  intro other pc entry aged
  obtain ⟨rfl,rfl⟩ | ⟨_,entry⟩ := Run.getElem?_moved entry
  · exact fenced other before found (kept aged)
  · exact fenced other pc entry aged

theorem Fenced.leave (fenced : Fenced old tasks waiting) (task : Nat) (after : Pc) (young : ¬ old after) :
    Fenced old (tasks.set task after) (unlocked waiting task) := by
  intro other pc entry aged
  obtain ⟨rfl,rfl⟩ | ⟨away,entry⟩ := Run.getElem?_moved entry
  · exact absurd aged young
  · exact (mem_unlocked waiting task other).mpr ⟨fenced other pc entry aged,away⟩

theorem Fenced.arrive (fenced : Fenced old tasks waiting) (fresh : Pc) (young : ¬ old fresh) :
    Fenced old (tasks ++ [fresh]) waiting := by
  intro task pc entry aged
  by_cases bound : task < tasks.length
  · rw [List.getElem?_append_left bound] at entry
    exact fenced task pc entry aged
  rw [List.getElem?_append_right (by omega)] at entry
  have member := List.mem_of_getElem? entry
  rw [List.mem_singleton] at member
  subst pc
  exact absurd aged young

end Smoothfs.Srcu
