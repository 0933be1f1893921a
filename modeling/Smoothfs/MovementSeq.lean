import Smoothfs.World
import Smoothfs.Library.Run

/-! The numbers of movement plans. A `Pool` value of the daemon counts them in memory;
discovery makes a new value, and a restart forgets all of them. -/
namespace Smoothfs.MovementSeq

open Run

structure Issued where
  oid : Oid
  pool : Nat
  seq : Nat
  deriving DecidableEq, Repr

/-- `transactions` are the counters of the `Pool` values, those from `process` on in the running
process. `registered` is the one in the maps, `ticking` the one of the planner's tick. -/
structure State where
  transactions : List Nat
  process : Nat
  registered : Option Nat
  ticking : Option Nat
  issued : List Issued
  deriving DecidableEq, Repr

def start : State := ⟨[],0,none,none,[]⟩

inductive Label
  | restart
  | discoverPool
  | registerMountEvent
  | registerPool (pool : Nat)
  | tick
  | plan (candidate : Option Oid)
  | prepareStoppedLUN (pool : Nat) (oid : Oid)
  deriving DecidableEq, Repr

def State.discover (state : State) : State := {state with transactions := state.transactions ++ [0]}

def State.nextSeq (state : State) (pool : Nat) (oid : Oid) : Option State :=
  if state.process ≤ pool then
    state.transactions[pool]?.map fun transaction =>
      let seq := (transaction + 1) % 0x10000000000000000
      {state with
        transactions := state.transactions.set pool seq
        issued := state.issued ++ [⟨oid,pool,seq⟩]}
  else none

def step (state : State) : Label → Option State
  | .restart => some {state with process := state.transactions.length, registered := none, ticking := none}
  | .discoverPool => some state.discover
  | .registerMountEvent =>
    match state.registered with
    | some _ => some state
    | none => some {state.discover with registered := some state.transactions.length}
  | .registerPool pool =>
    if state.process ≤ pool ∧ pool < state.transactions.length then some {state with registered := some pool} else none
  | .tick => some {state with ticking := state.registered}
  | .plan none => some state
  | .plan (some oid) => state.ticking.bind fun pool => state.nextSeq pool oid
  | .prepareStoppedLUN pool oid => state.nextSeq pool oid

def numbers (issued : List Issued) (oid : Oid) : List Nat := (issued.filter (·.oid = oid)).map (·.seq)

def State.SamePool (state : State) (pool : Nat) (oid : Oid) : Prop :=
  (∀ plan ∈ state.issued, plan.oid = oid → plan.pool = pool) ∧ state.transactions[pool]?.getD 0 + 1 < 0x10000000000000000

def OnePool (state : State) : Label → Prop
  | .plan (some oid) => ∀ pool ∈ state.ticking, state.SamePool pool oid
  | .prepareStoppedLUN pool oid => state.SamePool pool oid
  | _ => True

instance (state : State) (pool : Nat) (oid : Oid) : Decidable (state.SamePool pool oid) :=
  inferInstanceAs (Decidable ((∀ plan ∈ state.issued, plan.oid = oid → plan.pool = pool) ∧
    state.transactions[pool]?.getD 0 + 1 < 0x10000000000000000))

instance (state : State) : (label : Label) → Decidable (OnePool state label)
  | .plan (some oid) => inferInstanceAs (Decidable (∀ pool ∈ state.ticking, state.SamePool pool oid))
  | .prepareStoppedLUN pool oid => inferInstanceAs (Decidable (state.SamePool pool oid))
  | .plan none | .restart | .discoverPool | .registerMountEvent | .registerPool _ | .tick => isTrue trivial

/-- The counter of a `Pool` value is no smaller than any number it gave out, and the
numbers of each object increase. -/
structure Ordered (state : State) : Prop where
  bound : ∀ plan ∈ state.issued, ∃ transaction, state.transactions[plan.pool]? = some transaction ∧ plan.seq ≤ transaction
  increasing : ∀ oid, (numbers state.issued oid).Pairwise (· < ·)

theorem Ordered.discover {state : State} (ordered : Ordered state) : Ordered state.discover := by
  refine ⟨?_,ordered.increasing⟩
  intro plan member
  obtain ⟨transaction,there,small⟩ := ordered.bound plan member
  refine ⟨transaction,?_,small⟩
  rw [State.discover,List.getElem?_append_left (List.getElem?_eq_some_iff.mp there).1]
  exact there

theorem numbers_append (issued : List Issued) (plan : Issued) (oid : Oid) :
    numbers (issued ++ [plan]) oid = numbers issued oid ++ if plan.oid = oid then [plan.seq] else [] := by
  unfold numbers
  by_cases same : plan.oid = oid <;> simp [same]

theorem Ordered.nextSeq {state after : State} {pool : Nat} {oid : Oid} (ordered : Ordered state) (same : state.SamePool pool oid)
    (taken : state.nextSeq pool oid = some after) : Ordered after := by
  unfold State.nextSeq at taken
  split at taken
  next live =>
    obtain ⟨transaction,there,rfl⟩ := Option.map_eq_some_iff.mp taken
    obtain ⟨alone,small⟩ := same
    rw [there] at small
    have whole : (transaction + 1) % 0x10000000000000000 = transaction + 1 := Nat.mod_eq_of_lt small
    have inside := (List.getElem?_eq_some_iff.mp there).1
    rw [whole]
    refine ⟨?_,?_⟩
    · intro plan member
      rcases List.mem_append.mp member with old | new
      · obtain ⟨before,known,bounded⟩ := ordered.bound plan old
        by_cases here : pool = plan.pool
        · subst here
          cases there.symm.trans known
          exact ⟨transaction + 1,List.getElem?_set_self inside,Nat.le_succ_of_le bounded⟩
        · exact ⟨before,by rw [List.getElem?_set_ne here]; exact known,bounded⟩
      · rw [List.mem_singleton.mp new]
        exact ⟨transaction + 1,List.getElem?_set_self inside,Nat.le_refl _⟩
    · intro other
      rw [numbers_append]
      by_cases about : oid = other
      · rw [if_pos about,List.pairwise_append]
        refine ⟨ordered.increasing other,List.pairwise_singleton _ _,?_⟩
        intro seq member new last
        obtain ⟨plan,kept,rfl⟩ := List.mem_map.mp member
        obtain ⟨old,named⟩ := List.mem_filter.mp kept
        have from_ := alone plan old ((of_decide_eq_true named).trans about.symm)
        obtain ⟨before,known,bounded⟩ := ordered.bound plan old
        rw [from_,there] at known
        cases known
        rw [List.mem_singleton.mp last]
        exact Nat.lt_succ_of_le bounded
      · rw [if_neg about,List.append_nil]
        exact ordered.increasing other
  next => cases taken

theorem Ordered.step {state after : State} {label : Label} (ordered : Ordered state) (one : OnePool state label)
    (taken : step state label = some after) : Ordered after := by
  cases label with
  | restart | tick =>
    cases taken
    exact ⟨ordered.bound,ordered.increasing⟩
  | discoverPool =>
    cases taken
    exact ordered.discover
  | registerMountEvent =>
    rw [MovementSeq.step] at taken
    split at taken
    · cases taken
      exact ordered
    · cases taken
      exact ⟨ordered.discover.bound,ordered.discover.increasing⟩
  | registerPool pool =>
    rw [MovementSeq.step] at taken
    split at taken
    · cases taken
      exact ⟨ordered.bound,ordered.increasing⟩
    · cases taken
  | plan candidate =>
    cases candidate with
    | none =>
      cases taken
      exact ordered
    | some oid =>
      obtain ⟨pool,ticking,taken⟩ := Option.bind_eq_some_iff.mp taken
      exact ordered.nextSeq (one pool ticking) taken
  | prepareStoppedLUN pool oid => exact ordered.nextSeq one taken

/-- In every history in which the plans of an object all come from one `Pool` value,
their numbers increase. -/
theorem plan_numbers_increase (labels : List Label) (state : State) (one : Guarded step OnePool start labels)
    (reached : run step start labels = some state) (oid : Oid) : (numbers state.issued oid).Pairwise (· < ·) := by
  have ordered : Ordered state :=
    invariant step OnePool Ordered (fun _ _ _ ordered one taken => ordered.step one taken) start state labels
      ⟨fun _ member => absurd member List.not_mem_nil,fun _ => List.Pairwise.nil⟩ one reached
  exact ordered.increasing oid

theorem repeated_mount_increases :
    ∃ state, run step start [.registerMountEvent,.tick,.plan (some 1),.registerMountEvent,.plan (some 2),
      .prepareStoppedLUN 0 1] = some state ∧
      numbers state.issued 1 = [1,3] ∧ (numbers state.issued 1).Pairwise (· < ·) := by
  obtain ⟨state,reached,known⟩ : ∃ state, run step start [.registerMountEvent,.tick,.plan (some 1),.registerMountEvent,.plan (some 2),
      .prepareStoppedLUN 0 1] = some state ∧ numbers state.issued 1 = [1,3] := reaches (by decide +kernel)
  exact ⟨state,reached,known,plan_numbers_increase _ state (by decide +kernel) reached 1⟩

theorem restarted_numbers_repeat :
    ∃ state, run step start [.registerMountEvent,.tick,.plan (some 1),.restart,.registerMountEvent,.tick,.plan (some 1)] = some state ∧
      numbers state.issued 1 = [1,1] :=
  reaches (by decide +kernel)

end Smoothfs.MovementSeq
