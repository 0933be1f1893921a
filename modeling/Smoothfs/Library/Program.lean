import Mathlib.Logic.Relation
import Smoothfs.Library.Run

/-! Sequential programs that call operations of a world and may fail, run while
an environment interferes between any two calls. The triples below are partial:
they speak about every call a run makes and about every value it returns. -/
namespace Smoothfs.Program

open Run

/-- A program calls an operation and continues with its reply, or ends. -/
inductive Prog (Op : Type) (Reply : Op → Type) (ε α : Type)
  | done (value : α)
  | fail (error : ε)
  | call (op : Op) (next : Reply op → Prog Op Reply ε α)

variable {Op : Type} {Reply : Op → Type} {ε α β : Type}

namespace Prog

def bind : Prog Op Reply ε α → (α → Prog Op Reply ε β) → Prog Op Reply ε β
  | .done value, continuation => continuation value
  | .fail error, _ => .fail error
  | .call op next, continuation => .call op (fun reply => (next reply).bind continuation)

instance : Monad (Prog Op Reply ε) where
  pure := .done
  bind := bind

def attempt {δ : Type} : Prog Op Reply δ α → Prog Op Reply ε (Except δ α)
  | .done value => .done (.ok value)
  | .fail error => .done (.error error)
  | .call op next => .call op (fun reply => (next reply).attempt)

variable (value : α)

@[simp] theorem pure_eq : (pure value : Prog Op Reply ε α) = .done value := rfl

@[simp] theorem done_bind (continuation : α → Prog Op Reply ε β) : (Prog.done value >>= continuation) = continuation value := rfl

@[simp] theorem fail_bind (error : ε) (continuation : α → Prog Op Reply ε β) :
    (Prog.fail error >>= continuation) = .fail error := rfl

variable (op : Op)

@[simp] theorem call_bind (next : Reply op → Prog Op Reply ε α) (continuation : α → Prog Op Reply ε β) :
    (Prog.call op next >>= continuation) = .call op (fun reply => next reply >>= continuation) := rfl

end Prog

/-- A world that performs operations with a nondeterministic outcome, and an
environment that acts on the same world. -/
structure Machine (Op : Type) (Reply : Op → Type) (World Outcome Env : Type) where
  perform : World → (op : Op) → Outcome → Option (World × Reply op)
  interfere : World → Env → Option World

inductive Label (Outcome Env : Type)
  | call (outcome : Outcome)
  | env (action : Env)
  deriving DecidableEq, Repr

structure Config (Op : Type) (Reply : Op → Type) (World ε α : Type) where
  program : Prog Op Reply ε α
  world : World

variable {World Outcome Env : Type}

def step (machine : Machine Op Reply World Outcome Env) (config : Config Op Reply World ε α) :
    Label Outcome Env → Option (Config Op Reply World ε α)
  | .env action => (machine.interfere config.world action).map (fun world => ⟨config.program,world⟩)
  | .call outcome =>
    match config.program with
    | .call op next => (machine.perform config.world op outcome).map (fun result => ⟨next result.2,result.1⟩)
    | .done _ | .fail _ => none

/-- Which outcomes a call and which actions the environment may have. -/
structure Rely (Op World Outcome Env : Type) where
  outcome : World → Op → Outcome → Prop
  action : World → Env → Prop

def Rely.guard (rely : Rely Op World Outcome Env) (config : Config Op Reply World ε α) :
    Label Outcome Env → Prop
  | .env action => rely.action config.world action
  | .call outcome =>
    match config.program with
    | .call op _ => rely.outcome config.world op outcome
    | .done _ | .fail _ => True

variable (machine : Machine Op Reply World Outcome Env) (rely : Rely Op World Outcome Env)

def Interferes (world next : World) : Prop :=
  ∃ action, rely.action world action ∧ machine.interfere world action = some next

def Stable (holds : World → Prop) : Prop :=
  ∀ world next, Interferes machine rely world next → holds world → holds next

theorem Stable.closure {machine : Machine Op Reply World Outcome Env} {rely : Rely Op World Outcome Env}
    {holds : World → Prop} (stable : Stable machine rely holds) (world next : World)
    (interferes : Relation.ReflTransGen (Interferes machine rely) world next) (initial : holds world) : holds next := by
  induction interferes with
  | refl => exact initial
  | tail _ last ih => exact stable _ _ last ih

/-- From this world, every call of the program meets `check`, and every return
meets `post`, whatever the environment does before it. -/
def wp (check : World → Op → Prop) : Prog Op Reply ε α → (Except ε α → World → Prop) → World → Prop
  | .done value, post, world =>
    ∀ reached, Relation.ReflTransGen (Interferes machine rely) world reached → post (.ok value) reached
  | .fail error, post, world =>
    ∀ reached, Relation.ReflTransGen (Interferes machine rely) world reached → post (.error error) reached
  | .call op next, post, world =>
    ∀ reached, Relation.ReflTransGen (Interferes machine rely) world reached →
      check reached op ∧ ∀ outcome after reply, rely.outcome reached op outcome →
        machine.perform reached op outcome = some (after,reply) → wp check (next reply) post after

theorem wp_interferes {check : World → Op → Prop} {program : Prog Op Reply ε α} {post : Except ε α → World → Prop}
    {world next : World} (interferes : Relation.ReflTransGen (Interferes machine rely) world next)
    (holds : wp machine rely check program post world) : wp machine rely check program post next := by
  cases program with
  | done value | fail error | call op cont => exact fun reached later => holds reached (interferes.trans later)

def Triple (check : World → Op → Prop) (pre : World → Prop) (program : Prog Op Reply ε α)
    (post : Except ε α → World → Prop) : Prop :=
  ∀ world, pre world → wp machine rely check program post world

variable {machine : Machine Op Reply World Outcome Env} {rely : Rely Op World Outcome Env}
variable {check : World → Op → Prop} {pre : World → Prop} {post : Except ε α → World → Prop}

variable {weaker : Except ε α → World → Prop}

theorem wp_mono (after : ∀ result world, post result world → weaker result world)
    (program : Prog Op Reply ε α) (world : World) (holds : wp machine rely check program post world) :
    wp machine rely check program weaker world := by
  induction program generalizing world with
  | done value | fail error => exact fun reached later => after _ _ (holds reached later)
  | call op next ih =>
    intro reached later
    obtain ⟨checked,continues⟩ := holds reached later
    exact ⟨checked,fun outcome final reply allowed performed =>
      ih reply final (continues outcome final reply allowed performed)⟩

theorem Triple.consequence {program : Prog Op Reply ε α} {stronger : World → Prop} (triple : Triple machine rely check pre program post)
    (before : ∀ world, stronger world → pre world) (after : ∀ result world, post result world → weaker result world) :
    Triple machine rely check stronger program weaker :=
  fun world initial => wp_mono after program world (triple world (before world initial))

theorem triple_pure {fact : Prop} {program : Prog Op Reply ε α}
    (triple : fact → Triple machine rely check pre program post) :
    Triple machine rely check (fun world => fact ∧ pre world) program post :=
  fun world holds => triple holds.1 world holds.2

theorem triple_done (stable : Stable machine rely pre) {value : α} (ends : ∀ world, pre world → post (.ok value) world) :
    Triple machine rely check pre (.done value) post :=
  fun world initial reached later => ends reached (stable.closure world reached later initial)

theorem triple_fail (stable : Stable machine rely pre) {error : ε} (ends : ∀ world, pre world → post (.error error) world) :
    Triple machine rely check pre (.fail error) post :=
  fun world initial reached later => ends reached (stable.closure world reached later initial)

theorem triple_call (stable : Stable machine rely pre) {op : Op} {next : Reply op → Prog Op Reply ε α}
    (middle : Reply op → World → Prop) (checked : ∀ world, pre world → check world op)
    (performed : ∀ world outcome after reply, pre world → rely.outcome world op outcome →
      machine.perform world op outcome = some (after,reply) → middle reply after)
    (continues : ∀ reply, Triple machine rely check (middle reply) (next reply) post) :
    Triple machine rely check pre (.call op next) post := by
  intro world initial reached later
  have holds := stable.closure world reached later initial
  refine ⟨checked reached holds,fun outcome after reply allowed result => ?_⟩
  exact continues reply after (performed reached outcome after reply holds allowed result)

/-- A postcondition that separates a returned value from an error. -/
def Ends (ok : α → World → Prop) (bad : World → Prop) : Except ε α → World → Prop
  | .ok value => ok value
  | .error _ => bad

variable {ok : α → World → Prop} {bad : World → Prop}

theorem Triple.onError {weaker : World → Prop} {program : Prog Op Reply ε α}
    (triple : Triple machine rely check pre program (Ends ok bad)) (after : ∀ world, bad world → weaker world) :
    Triple machine rely check pre program (Ends ok weaker) := by
  refine triple.consequence (fun _ => id) fun result world holds => ?_
  cases result with
  | ok value => exact holds
  | error error => exact after world holds

variable {first : Prog Op Reply ε β} {continuation : β → Prog Op Reply ε α}

theorem triple_seq {ok : β → World → Prop} (runs : Triple machine rely check pre first (Ends ok bad))
    (continues : ∀ value, Triple machine rely check (ok value) (continuation value) post)
    (fails : ∀ error world, bad world → post (.error error) world := by first | exact fun _ _ => id | exact fun _ _ _ => trivial) :
    Triple machine rely check pre (first >>= continuation) post := by
  intro world initial
  have holds := runs world initial
  clear runs initial
  induction first generalizing world with
  | done value => exact continues value world (holds world .refl)
  | fail error => exact fun reached later => fails error reached (holds reached later)
  | call op next ih =>
    intro reached later
    obtain ⟨checked,rest⟩ := holds reached later
    exact ⟨checked,fun outcome after reply allowed performed => ih reply after (rest outcome after reply allowed performed)⟩

variable {δ : Type}

theorem triple_handle {ok : β → World → Prop} {first : Prog Op Reply δ β}
    {continuation : Except δ β → Prog Op Reply ε α} (runs : Triple machine rely check pre first (Ends ok bad))
    (continues : ∀ value, Triple machine rely check (ok value) (continuation (.ok value)) post)
    (handles : ∀ error, Triple machine rely check bad (continuation (.error error)) post) :
    Triple machine rely check pre (first.attempt >>= continuation) post := by
  intro world initial
  have holds := runs world initial
  clear runs initial
  induction first generalizing world with
  | done value => exact continues value world (holds world .refl)
  | fail error => exact handles error world (holds world .refl)
  | call op next ih =>
    intro reached later
    obtain ⟨checked,rest⟩ := holds reached later
    exact ⟨checked,fun outcome after reply allowed performed => ih reply after (rest outcome after reply allowed performed)⟩

/-- With some outcomes of its calls and nobody interfering, the program gets there. -/
def Reaches (machine : Machine Op Reply World Outcome Env) (program : Prog Op Reply ε α) (world : World)
    (rest : Prog Op Reply ε α) (after : World) : Prop :=
  ∃ outcomes : List Outcome, run (step machine) ⟨program,world⟩ (outcomes.map .call) = some ⟨rest,after⟩

variable (program : Prog Op Reply ε α)

theorem reaches_refl {world : World} : Reaches machine program world program world :=
  ⟨[],rfl⟩

variable {middle : World} {rest : Prog Op Reply ε α}

theorem reaches_call {op : Op} {next : Reply op → Prog Op Reply ε α} {world after : World} (outcome : Outcome) {reply : Reply op}
    (performed : machine.perform world op outcome = some (middle,reply))
    (continues : Reaches machine (next reply) middle rest after) : Reaches machine (.call op next) world rest after := by
  obtain ⟨outcomes,reached⟩ := continues
  refine ⟨outcome::outcomes,(run_cons _ _ _ _ _).mpr ⟨⟨next reply,middle⟩,?_,reached⟩⟩
  simp only [step,performed,Option.map_some]

theorem reaches_lift (lift : Prog Op Reply δ β → Prog Op Reply ε α)
    (passes : ∀ op next, lift (.call op next) = .call op (fun reply => lift (next reply)))
    {first ended : Prog Op Reply δ β} {world after : World}
    (begins : Reaches machine first world ended middle) (continues : Reaches machine (lift ended) middle rest after) :
    Reaches machine (lift first) world rest after := by
  obtain ⟨outcomes,reached⟩ := begins
  induction outcomes generalizing first world with
  | nil =>
    cases reached
    exact continues
  | cons outcome outcomes ih =>
    obtain ⟨⟨next,between⟩,taken,reached⟩ := (run_cons _ _ _ _ _).mp reached
    cases first with
    | done value => cases taken
    | fail error => cases taken
    | call op cont =>
      obtain ⟨⟨performed,reply⟩,result,same⟩ := Option.map_eq_some_iff.mp taken
      cases same
      rw [passes]
      exact reaches_call outcome result (ih reached)

theorem reaches_bind {first ended : Prog Op Reply ε β} {world after : World} (begins : Reaches machine first world ended middle)
    (continues : Reaches machine (ended >>= continuation) middle rest after) :
    Reaches machine (first >>= continuation) world rest after :=
  reaches_lift (· >>= continuation) (fun _ _ => rfl) begins continues

theorem reaches_seq {first : Prog Op Reply ε β} {value : β}
    {world after : World} (begins : Reaches machine first world (.done value) middle)
    (continues : Reaches machine (continuation value) middle rest after) :
    Reaches machine (first >>= continuation) world rest after :=
  reaches_bind begins continues

theorem reaches_handle {first ended : Prog Op Reply δ β} (continuation : Except δ β → Prog Op Reply ε α)
    {world after : World} (begins : Reaches machine first world ended middle)
    (continues : Reaches machine (ended.attempt >>= continuation) middle rest after) :
    Reaches machine (first.attempt >>= continuation) world rest after :=
  reaches_lift (fun program => program.attempt >>= continuation) (fun _ _ => rfl) begins continues

def Uses (allowed : Op → Prop) : Prog Op Reply ε α → Prop
  | .done _ | .fail _ => True
  | .call op next => allowed op ∧ ∀ reply, Uses allowed (next reply)

variable {allowed : Op → Prop}

theorem uses_bind (uses : Uses allowed first) (continues : ∀ value, Uses allowed (continuation value)) :
    Uses allowed (first >>= continuation) := by
  induction first with
  | done value => exact continues value
  | fail error => exact trivial
  | call op next ih => exact ⟨uses.1,fun reply => ih reply (uses.2 reply)⟩

theorem uses_attempt {program : Prog Op Reply δ α} (uses : Uses allowed program) :
    Uses allowed (program.attempt : Prog Op Reply ε (Except δ α)) := by
  induction program with
  | done value => exact trivial
  | fail error => exact trivial
  | call op next ih => exact ⟨uses.1,fun reply => ih reply (uses.2 reply)⟩

theorem uses_mono {weaker : Op → Prop} (allows : ∀ op, allowed op → weaker op) {program : Prog Op Reply ε α}
    (uses : Uses allowed program) : Uses weaker program := by
  induction program with
  | done value => exact trivial
  | fail error => exact trivial
  | call op next ih => exact ⟨allows op uses.1,fun reply => ih reply (uses.2 reply)⟩

theorem uses_any : Uses (fun _ => True) program := by
  induction program with
  | done value => exact trivial
  | fail error => exact trivial
  | call op next ih => exact ⟨trivial,ih⟩

theorem triple_uses (stable : Stable machine rely pre) (checked : ∀ world op, allowed op → pre world → check world op)
    (kept : ∀ world op outcome after reply, allowed op → pre world → rely.outcome world op outcome →
      machine.perform world op outcome = some (after,reply) → pre after)
    {program : Prog Op Reply ε α} (uses : Uses allowed program) :
    Triple machine rely check pre program (Ends (fun _ => pre) pre) := by
  induction program with
  | done value => exact triple_done stable (fun _ => id)
  | fail error => exact triple_fail stable (fun _ => id)
  | call op next ih =>
    refine triple_call stable (fun _ => pre) (fun world => checked world op uses.1) ?_
      (fun reply => ih reply (uses.2 reply))
    exact fun world outcome after reply => kept world op outcome after reply uses.1

def Returns (holds : α → Prop) : Prog Op Reply ε α → Prop
  | .done value => holds value
  | .fail _ => True
  | .call _ next => ∀ reply, Returns holds (next reply)

def Fails : Prog Op Reply ε α → Prop := Returns (fun _ => False)

theorem returns_any : Returns (fun _ => True) program := by
  induction program with
  | done value => exact trivial
  | fail error => exact trivial
  | call op next ih => exact ih

theorem returns_mono {stronger weaker : α → Prop}
    (weakens : ∀ value, stronger value → weaker value) (returns : Returns stronger program) : Returns weaker program := by
  induction program with
  | done value => exact weakens value returns
  | fail error => exact trivial
  | call op next ih => exact fun reply => ih reply (returns reply)

theorem returns_bind {first : β → Prop} {second : α → Prop} {program : Prog Op Reply ε β}
    {continuation : β → Prog Op Reply ε α} (returns : Returns first program)
    (continues : ∀ value, first value → Returns second (continuation value)) :
    Returns second (program >>= continuation) := by
  induction program with
  | done value => exact continues value returns
  | fail error => exact trivial
  | call op next ih => exact fun reply => ih reply (returns reply)

theorem fails_bind (fails : ∀ value, Fails (continuation value)) : Fails (first >>= continuation) :=
  returns_bind (returns_any first) (fun value _ => fails value)

theorem triple_returns {holds : α → Prop}
    (returns : Returns holds program) (triple : Triple machine rely check pre program (Ends ok bad)) :
    Triple machine rely check pre program (Ends (fun value world => holds value ∧ ok value world) bad) := by
  intro world initial
  have promised := triple world initial
  clear triple initial
  induction program generalizing world with
  | done value => exact fun reached later => ⟨returns,promised reached later⟩
  | fail error => exact promised
  | call op next ih =>
    intro reached later
    obtain ⟨checked,rest⟩ := promised reached later
    exact ⟨checked,fun outcome after reply allowed performed =>
      ih reply (returns reply) after (rest outcome after reply allowed performed)⟩

theorem triple_fails {other : α → World → Prop}
    (fails : Fails program) (triple : Triple machine rely check pre program (Ends ok bad)) :
    Triple machine rely check pre program (Ends other bad) := by
  refine (triple_returns program fails triple).consequence (fun _ => id) fun result world holds => ?_
  cases result with
  | ok value => exact holds.1.elim
  | error error => exact holds

theorem wp_run {world : World} {labels : List (Label Outcome Env)}
    {final : Config Op Reply World ε α} (holds : wp machine rely check program post world)
    (guarded : Guarded (step machine) rely.guard ⟨program,world⟩ labels)
    (reached : run (step machine) ⟨program,world⟩ labels = some final) : wp machine rely check final.program post final.world := by
  refine invariant (step machine) rely.guard (fun config => wp machine rely check config.program post config.world)
    ?_ ⟨program,world⟩ final labels holds guarded reached
  intro config label next holds allowed taken
  cases label with
  | env action =>
    obtain ⟨after,interferes,same⟩ := Option.map_eq_some_iff.mp taken
    subst same
    exact wp_interferes machine rely (.single ⟨action,allowed,interferes⟩) holds
  | call outcome =>
    obtain ⟨program,world⟩ := config
    cases program with
    | done value => cases taken
    | fail error => cases taken
    | call op cont =>
      obtain ⟨⟨after,reply⟩,performed,same⟩ := Option.map_eq_some_iff.mp taken
      subst same
      exact (holds world .refl).2 outcome after reply allowed performed

section Alone

variable (exec : World → (op : Op) → World × Reply op)

def eval : Prog Op Reply ε α → World → World × Except ε α
  | .done value, world => (world,.ok value)
  | .fail error, world => (world,.error error)
  | .call op next, world => eval (next (exec world op).2) (exec world op).1

def Yields (program : Prog Op Reply ε α) (world : World) (value : α) (after : World) : Prop :=
  eval exec program world = (after,.ok value)

variable {exec : World → (op : Op) → World × Reply op} {world after : World}

@[simp] theorem yields_done (value other : α) :
    Yields exec (.done value : Prog Op Reply ε α) world other after ↔ other = value ∧ after = world := by
  simp only [Yields,eval,Prod.mk.injEq,Except.ok.injEq]
  exact ⟨fun ⟨same,equal⟩ => ⟨equal.symm,same.symm⟩,fun ⟨equal,same⟩ => ⟨same.symm,equal.symm⟩⟩

@[simp] theorem yields_fail (error : ε) (value : α) : ¬ Yields exec (.fail error : Prog Op Reply ε α) world value after := by
  simp [Yields,eval]

@[simp] theorem yields_call (op : Op) (next : Reply op → Prog Op Reply ε α) (value : α) :
    Yields exec (.call op next) world value after ↔ Yields exec (next (exec world op).2) (exec world op).1 value after :=
  Iff.rfl

variable (first : Prog Op Reply ε β) (continuation : β → Prog Op Reply ε α)

theorem eval_bind (world : World) : eval exec (first >>= continuation) world = match eval exec first world with
      | (middle,.ok value) => eval exec (continuation value) middle | (middle,.error error) => (middle,.error error) := by
  induction first generalizing world with
  | done value => rfl
  | fail error => rfl
  | call op next ih => exact ih _ _

@[simp] theorem yields_bind (value : α) : Yields exec (first >>= continuation) world value after ↔
      ∃ middle between, Yields exec first world middle between ∧ Yields exec (continuation middle) between value after := by
  unfold Yields
  rw [eval_bind]
  rcases eval exec first world with ⟨between,error | middle⟩
  · simp
  constructor
  · intro rest
    exact ⟨middle,between,rfl,rest⟩
  · rintro ⟨_,_,same,rest⟩
    cases same
    exact rest

theorem wp_eval (done : Outcome) (faithful : ∀ world op, machine.perform world op done = some (exec world op))
    (allowed : ∀ world op, rely.outcome world op done) (program : Prog Op Reply ε α) (world : World)
    (holds : wp machine rely check program post world) : post (eval exec program world).2 (eval exec program world).1 := by
  induction program generalizing world with
  | done value | fail error => exact holds world .refl
  | call op next ih => exact ih _ _ ((holds world .refl).2 done _ _ (allowed world op) (faithful world op))

theorem run_alone_iff {machine : Machine Op Reply World Outcome Env} {done : Outcome}
    (faithful : ∀ world op, machine.perform world op done = some (exec world op)) {program : Prog Op Reply ε α} (world : World)
    (value : α) : (∃ count, run (step machine) ⟨program,world⟩ (List.replicate count (.call done)) = some ⟨.done value,after⟩) ↔
      Yields exec program world value after := by
  have stops (config final : Config Op Reply World ε α) (stuck : step machine config (.call done) = none) (count : Nat)
      (reached : run (step machine) config (List.replicate count (.call done)) = some final) : config = final := by
    cases count with
    | zero => exact Option.some.inj reached
    | succ count =>
      obtain ⟨next,taken,_⟩ := (run_cons ..).mp reached
      cases stuck.symm.trans taken
  induction program generalizing world with
  | done found =>
    rw [yields_done]
    constructor
    · rintro ⟨count,reached⟩
      cases stops _ _ rfl count reached
      exact ⟨rfl,rfl⟩
    · rintro ⟨rfl,rfl⟩
      exact ⟨0,rfl⟩
  | fail error =>
    refine iff_of_false ?_ (yields_fail error value)
    rintro ⟨count,reached⟩
    cases stops _ _ rfl count reached
  | call op next ih =>
    refine Iff.trans ?_ (ih (exec world op).2 (exec world op).1)
    have taken : step machine ⟨.call op next,world⟩ (.call done) = some ⟨next (exec world op).2,(exec world op).1⟩ := by
      simp only [step,faithful,Option.map_some]
    constructor
    · rintro ⟨count,reached⟩
      cases count with
      | zero => cases reached
      | succ count =>
        obtain ⟨between,stepped,rest⟩ := (run_cons ..).mp reached
        cases taken.symm.trans stepped
        exact ⟨count,rest⟩
    · rintro ⟨count,rest⟩
      exact ⟨count + 1,(run_cons ..).mpr ⟨_,taken,rest⟩⟩

end Alone

end Smoothfs.Program
