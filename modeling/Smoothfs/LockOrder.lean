import Smoothfs.Library.Run
import Smoothfs.Library.WaitFor

/-! The locks of one inode and the tasks that meet on them: attribute changes, writes,
splices and fallocates, the two drains of staged data and cutovers. Every task is
reduced to where it can wait and what it holds there. -/
namespace Smoothfs.LockOrder
open Run WaitFor

inductive Resource
  | rwsem | cacheMutationLock | rangeStagingLock | srcu | progress
  deriving DecidableEq, Repr

inductive Caller
  | setattr | writeIter | spliceWrite | fallocate
  deriving DecidableEq, Repr

inductive ChangePc
  | arriving | locked | entering | parked | inside | queued | staging | left | leftQueued | leftStaging | unlocked | returned
  deriving DecidableEq, Repr

inductive CutoverPc
  | arriving | checking | marked | draining | relocking | finishing | cleared | returned
  deriving DecidableEq, Repr

inductive DrainPc
  | arriving | holding | returned
  deriving DecidableEq, Repr

inductive RehomePc
  | arriving | holding | unlinking | relocking | holdingAgain | returned
  deriving DecidableEq, Repr

inductive Task
  | change (caller : Caller) (pc : ChangePc)
  | cutover (pc : CutoverPc)
  | rangeDrain (pc : DrainPc)
  | rehomeDrain (pc : RehomePc)
  deriving DecidableEq, Repr

def Task.wants (cacheMode : Bool) : Task → Option Resource
  | .change _ .arriving => some .rwsem
  | .change _ .locked => if cacheMode then some .cacheMutationLock else none
  | .change _ .parked => some .progress
  | .change _ .queued | .change _ .leftQueued => some .rangeStagingLock
  | .cutover .arriving | .cutover .relocking => some .rwsem
  | .cutover .draining => some .srcu
  | .rangeDrain .arriving => some .rangeStagingLock
  | .rehomeDrain .arriving | .rehomeDrain .relocking => some .rwsem
  | _ => none

def Task.holds (cacheMode : Bool) : Task → Resource → Bool
  | .change caller pc, .rwsem => caller = .setattr ∧ pc ≠ .arriving ∧ pc ≠ .returned
  | .change _ pc, .cacheMutationLock =>
    cacheMode ∧ pc ∈ [ChangePc.entering,.parked,.inside,.queued,.staging,.left,.leftQueued,.leftStaging]
  | .change _ pc, .rangeStagingLock => pc ∈ [ChangePc.staging,.leftStaging]
  | .change _ pc, .srcu => pc ∈ [ChangePc.inside,.queued,.staging]
  | .cutover pc, .rwsem => pc ∈ [CutoverPc.checking,.marked,.finishing,.cleared]
  | .cutover pc, .progress => pc ∈ [CutoverPc.marked,.draining,.relocking,.finishing]
  | .rangeDrain pc, .rangeStagingLock => pc = .holding
  | .rehomeDrain pc, .rwsem => pc ∈ [RehomePc.holding,.holdingAgain]
  | _, _ => false

abbrev State := List Task

def held (cacheMode : Bool) (state : State) (resource : Resource) : Bool :=
  state.any fun task => task.holds cacheMode resource

inductive ChangeStep
  | lock | lockMutation | enter | wake | interrupt | queue | lockRange | unlockRange | leave | tail | unlockMutation | finish
  deriving DecidableEq, Repr

inductive CutoverStep
  | lock | refuse | mark | unlock | drained | timeout | relock | clear | finish
  deriving DecidableEq, Repr

inductive DrainStep
  | lock | unlock
  deriving DecidableEq, Repr

inductive RehomeStep
  | lock | unlock | unlinked | relock | finish
  deriving DecidableEq, Repr

inductive Label
  | call (caller : Caller)
  | moveCutover
  | drainRange
  | drainRehome
  | change (index : Nat) (action : ChangeStep)
  | cutover (index : Nat) (action : CutoverStep)
  | rangeDrain (index : Nat) (action : DrainStep)
  | rehomeDrain (index : Nat) (action : RehomeStep)
  deriving DecidableEq, Repr

/-- `free` says of each resource that nobody holds it. -/
def changeStep (cacheMode : Bool) (free : Resource → Bool) (caller : Caller) : ChangePc → ChangeStep → Option ChangePc
  | .arriving, .lock => if free .rwsem then some .locked else none
  | .locked, .lockMutation => if ¬ cacheMode ∨ free .cacheMutationLock then some .entering else none
  -- The flag is read inside the SRCU section, which is left at once if it is set.
  | .entering, .enter => if free .progress then some .inside else some .parked
  | .parked, .wake => if free .progress then some .entering else none
  | .parked, .interrupt => some .left
  | .inside, .queue => if caller = .writeIter ∨ cacheMode then some .queued else none
  | .queued, .lockRange => if free .rangeStagingLock then some .staging else none
  | .staging, .unlockRange => some .inside
  | .inside, .leave => some .left
  | .left, .tail => if caller = .writeIter ∧ cacheMode then some .leftQueued else none
  | .leftQueued, .lockRange => if free .rangeStagingLock then some .leftStaging else none
  | .leftStaging, .unlockRange => some .left
  | .left, .unlockMutation => some .unlocked
  | .unlocked, .finish => some .returned
  | _, _ => none

def cutoverStep (free : Resource → Bool) : CutoverPc → CutoverStep → Option CutoverPc
  | .arriving, .lock => if free .rwsem then some .checking else none
  | .checking, .refuse => some .cleared
  | .checking, .mark => if free .progress then some .marked else none
  | .marked, .unlock => some .draining
  | .draining, .drained => if free .srcu then some .relocking else none
  | .draining, .timeout => some .relocking
  | .relocking, .relock => if free .rwsem then some .finishing else none
  | .finishing, .clear => some .cleared
  | .cleared, .finish => some .returned
  | _, _ => none

def drainStep (free : Resource → Bool) : DrainPc → DrainStep → Option DrainPc
  | .arriving, .lock => if free .rangeStagingLock then some .holding else none
  | .holding, .unlock => some .returned
  | _, _ => none

def rehomeStep (free : Resource → Bool) : RehomePc → RehomeStep → Option RehomePc
  | .arriving, .lock => if free .rwsem then some .holding else none
  | .holding, .unlock => some .unlinking
  | .unlinking, .unlinked => some .relocking
  | .relocking, .relock => if free .rwsem then some .holdingAgain else none
  | .holdingAgain, .finish => some .returned
  | _, _ => none

def begin_ : Caller → ChangePc
  | .setattr => .arriving
  | _ => .locked

def step (cacheMode : Bool) (state : State) : Label → Option State
  | .call caller => some (state ++ [.change caller (begin_ caller)])
  | .moveCutover => some (state ++ [.cutover .arriving])
  | .drainRange => some (state ++ [.rangeDrain .arriving])
  | .drainRehome => some (state ++ [.rehomeDrain .arriving])
  | .change index action =>
    match state[index]? with
    | some (.change caller pc) =>
      (changeStep cacheMode (fun resource => !held cacheMode state resource) caller pc action).map fun next =>
        state.set index (.change caller next)
    | _ => none
  | .cutover index action =>
    match state[index]? with
    | some (.cutover pc) =>
      (cutoverStep (fun resource => !held cacheMode state resource) pc action).map fun next => state.set index (.cutover next)
    | _ => none
  | .rangeDrain index action =>
    match state[index]? with
    | some (.rangeDrain pc) =>
      (drainStep (fun resource => !held cacheMode state resource) pc action).map fun next => state.set index (.rangeDrain next)
    | _ => none
  | .rehomeDrain index action =>
    match state[index]? with
    | some (.rehomeDrain pc) =>
      (rehomeStep (fun resource => !held cacheMode state resource) pc action).map fun next => state.set index (.rehomeDrain next)
    | _ => none

def wants (cacheMode : Bool) (state : State) (index : Nat) : Option Resource :=
  state[index]?.bind (Task.wants cacheMode)

def holds (cacheMode : Bool) (state : State) (index : Nat) (resource : Resource) : Prop :=
  ∃ task, state[index]? = some task ∧ task.holds cacheMode resource = true

/-- No attribute change locks the inode while a cutover of it is in progress. -/
def Apart (cacheMode : Bool) (state : State) : Label → Prop
  | .change _ .lock => held cacheMode state .progress = false
  | _ => True

instance (cacheMode : Bool) (state : State) (label : Label) : Decidable (Apart cacheMode state label) :=
  match label with
  | .change _ .lock => inferInstanceAs (Decidable (held cacheMode state .progress = false))
  | .change _ .lockMutation | .change _ .enter | .change _ .wake | .change _ .interrupt | .change _ .queue
  | .change _ .lockRange | .change _ .unlockRange | .change _ .leave | .change _ .tail | .change _ .unlockMutation
  | .change _ .finish | .call _ | .moveCutover | .drainRange | .drainRehome | .cutover _ _ | .rangeDrain _ _
  | .rehomeDrain _ _ => isTrue trivial

def Task.isChange : Task → Bool
  | .change _ _ => true
  | _ => false

structure Kept (cacheMode : Bool) (state : State) : Prop where
  exclusive : ∀ first second, holds cacheMode state first .rwsem → holds cacheMode state second .rwsem → first = second
  apart : held cacheMode state .progress = true → ∀ task ∈ state, task.holds cacheMode .rwsem = true → task.isChange = false

theorem kept_idle (cacheMode : Bool) : Kept cacheMode [] := by
  constructor <;> simp [holds,held]

section Levels

variable {cacheMode : Bool} {task : Task}

theorem wants_of_range (holding : task.holds cacheMode .rangeStagingLock = true) : task.wants cacheMode = none := by
  cases task with
  | change caller pc | rangeDrain pc => cases pc <;> simp_all [Task.holds,Task.wants]
  | cutover pc => cases holding
  | rehomeDrain pc => cases holding

theorem wants_of_srcu (holding : task.holds cacheMode .srcu = true) :
    task.wants cacheMode = none ∨ task.wants cacheMode = some .rangeStagingLock := by
  cases task with
  | change caller pc => cases pc <;> simp_all [Task.holds,Task.wants]
  | cutover pc | rangeDrain pc | rehomeDrain pc => cases holding

theorem wants_of_progress (holding : task.holds cacheMode .progress = true) :
    task.wants cacheMode = none ∨ task.wants cacheMode = some .srcu ∨ task.wants cacheMode = some .rwsem := by
  cases task with
  | cutover pc => cases pc <;> simp_all [Task.wants]
  | change caller pc | rangeDrain pc | rehomeDrain pc => cases holding

theorem wants_of_mutation (holding : task.holds cacheMode .cacheMutationLock = true) :
    task.wants cacheMode = none ∨ task.wants cacheMode = some .rangeStagingLock ∨ task.wants cacheMode = some .progress := by
  cases task with
  | change caller pc => cases pc <;> simp_all [Task.holds,Task.wants]
  | cutover pc | rangeDrain pc | rehomeDrain pc => cases holding

theorem wants_of_rwsem (holding : task.holds cacheMode .rwsem = true) :
    task.wants cacheMode = none ∨ task.isChange = true ∧ task.wants cacheMode ≠ some .rwsem := by
  cases task with
  | change caller pc => cases pc <;> simp_all [Task.holds,Task.wants,Task.isChange]
  | cutover pc | rehomeDrain pc => cases pc <;> simp_all [Task.holds,Task.wants]
  | rangeDrain pc => cases holding

end Levels

def level (progress : Bool) : Option Resource → Nat
  | none => 0
  | some .rangeStagingLock => 1
  | some .srcu => 2
  | some .rwsem => if progress then 3 else 6
  | some .progress => 4
  | some .cacheMutationLock => 5

theorem level_falls {cacheMode : Bool} {state : State} (kept : Kept cacheMode state) {first second : Task} {resource : Resource}
    (member : second ∈ state) (wanted : first.wants cacheMode = some resource) (holding : second.holds cacheMode resource = true) :
    level (held cacheMode state .progress) (second.wants cacheMode) <
      level (held cacheMode state .progress) (first.wants cacheMode) := by
  rw [wanted]
  cases resource with
  | rangeStagingLock => simp [wants_of_range holding,level]
  | srcu => rcases wants_of_srcu holding with next | next <;> simp [next,level]
  | cacheMutationLock => rcases wants_of_mutation holding with next | next | next <;> simp [next,level]
  | progress =>
    have progress : held cacheMode state .progress = true := List.any_eq_true.mpr ⟨second,member,holding⟩
    rcases wants_of_progress holding with next | next | next <;> simp [next,level,progress]
  | rwsem =>
    rcases wants_of_rwsem holding with next | ⟨change,next⟩
    · rw [next]
      cases progress : held cacheMode state .progress <;> simp [level]
    have idle : held cacheMode state .progress = false := by
      by_contra progress
      have other := kept.apart (by simpa using progress) second member holding
      rw [change] at other
      cases other
    rw [idle]
    cases wait : second.wants cacheMode with
    | none => simp [level]
    | some resource => cases resource <;> simp_all [level]

section Steps

variable {cacheMode : Bool} {state next : State} {index : Nat} {task new : Task}

structure Moves (cacheMode : Bool) (state : State) (task new : Task) : Prop where
  locks : new.holds cacheMode .rwsem = true → task.holds cacheMode .rwsem = true ∨ held cacheMode state .rwsem = false
  marks : new.holds cacheMode .progress = true →
    task.holds cacheMode .progress = true ∨ task.holds cacheMode .rwsem = true ∧ new.isChange = false
  kind : new.isChange = task.isChange
  apart : new.holds cacheMode .rwsem = true → new.isChange = true →
    task.holds cacheMode .rwsem = true ∨ held cacheMode state .progress = false

theorem held_of_holds {resource : Resource} (found : state[index]? = some task) (holding : task.holds cacheMode resource = true) :
    held cacheMode state resource = true :=
  List.any_eq_true.mpr ⟨task,List.mem_of_getElem? found,holding⟩

theorem Kept.exclusive_moved (kept : Kept cacheMode state) (found : state[index]? = some task)
    (moves : Moves cacheMode state task new) {other : Nat} {owner : Task} (there : state[other]? = some owner)
    (owns : owner.holds cacheMode .rwsem = true) (locked : new.holds cacheMode .rwsem = true) : other = index := by
  obtain before | free := moves.locks locked
  · exact kept.exclusive other index ⟨owner,there,owns⟩ ⟨task,found,before⟩
  · rw [held_of_holds there owns] at free
    cases free

theorem Kept.moved (kept : Kept cacheMode state) (found : state[index]? = some task) (moves : Moves cacheMode state task new) :
    Kept cacheMode (state.set index new) := by
  constructor
  · intro first second ⟨one,here,owns⟩ ⟨two,there,also⟩
    obtain ⟨rfl,rfl⟩ | ⟨away,before⟩ := getElem?_moved here
    · obtain ⟨same,_⟩ | ⟨away,before⟩ := getElem?_moved there
      · exact same.symm
      · exact absurd (kept.exclusive_moved found moves before also owns) away
    · obtain ⟨rfl,rfl⟩ | ⟨_,earlier⟩ := getElem?_moved there
      · exact absurd (kept.exclusive_moved found moves before owns also) away
      · exact kept.exclusive first second ⟨one,before,owns⟩ ⟨two,earlier,also⟩
  · intro progress owner member owns
    obtain ⟨marker,among,marked⟩ := List.any_eq_true.mp progress
    obtain ⟨place,there⟩ := List.getElem?_of_mem member
    obtain ⟨other,here⟩ := List.getElem?_of_mem among
    -- The flag was set before, or the task that moved has just set it under the lock.
    have cause : held cacheMode state .progress = true ∨ task.holds cacheMode .rwsem = true ∧ new.isChange = false := by
      obtain ⟨_,rfl⟩ | ⟨_,here⟩ := getElem?_moved here
      · exact (moves.marks marked).imp_left (held_of_holds found)
      · exact .inl (held_of_holds here marked)
    obtain ⟨rfl,rfl⟩ | ⟨away,there⟩ := getElem?_moved there
    · obtain before | ⟨_,other⟩ := cause
      · cases change : owner.isChange with
        | false => rfl
        | true =>
          obtain locked | idle := moves.apart owns change
          · have old := kept.apart before task (List.mem_of_getElem? found) locked
            rw [← moves.kind,change] at old
            exact old
          · rw [before] at idle
            cases idle
      · exact other
    · obtain before | ⟨locked,_⟩ := cause
      · exact kept.apart before owner (List.mem_of_getElem? there) owns
      · exact absurd (kept.exclusive place index ⟨owner,there,owns⟩ ⟨task,found,locked⟩) away

theorem Kept.arrived (kept : Kept cacheMode state) (unlocked : new.holds cacheMode .rwsem = false)
    (unmarked : new.holds cacheMode .progress = false) : Kept cacheMode (state ++ [new]) := by
  have older {other : Nat} {found : Task} {resource : Resource} (there : (state ++ [new])[other]? = some found)
      (owns : found.holds cacheMode resource = true) (nothing : new.holds cacheMode resource = false) :
      state[other]? = some found := by
    rcases Nat.lt_or_ge other state.length with bound | beyond
    · rw [List.getElem?_append_left bound] at there
      exact there
    · have last := List.mem_of_getElem? (List.getElem?_append_right beyond ▸ there)
      rw [List.mem_singleton.mp last,nothing] at owns
      cases owns
  constructor
  · intro first second ⟨one,here,owns⟩ ⟨two,there,also⟩
    exact kept.exclusive first second ⟨one,older here owns unlocked,owns⟩ ⟨two,older there also unlocked,also⟩
  · intro progress owner member owns
    obtain ⟨marker,among,marked⟩ := List.any_eq_true.mp progress
    obtain ⟨place,there⟩ := List.getElem?_of_mem member
    obtain ⟨other,here⟩ := List.getElem?_of_mem among
    exact kept.apart (held_of_holds (older here marked unmarked) marked) owner
      (List.mem_of_getElem? (older there owns unlocked)) owns

theorem moves_change {caller : Caller} {pc after : ChangePc} {action : ChangeStep}
    (apart : action = .lock → held cacheMode state .progress = false)
    (taken : changeStep cacheMode (fun resource => !held cacheMode state resource) caller pc action = some after) :
    Moves cacheMode state (.change caller pc) (.change caller after) := by
  unfold changeStep at taken
  repeat' split at taken
  all_goals cases taken
  all_goals constructor <;> simp_all [Task.holds,Task.isChange]

theorem moves_cutover {pc after : CutoverPc} {action : CutoverStep}
    (taken : cutoverStep (fun resource => !held cacheMode state resource) pc action = some after) :
    Moves cacheMode state (.cutover pc) (.cutover after) := by
  unfold cutoverStep at taken
  repeat' split at taken
  all_goals cases taken
  all_goals constructor <;> simp_all [Task.holds,Task.isChange]

theorem moves_rangeDrain (pc after : DrainPc) : Moves cacheMode state (.rangeDrain pc) (.rangeDrain after) := by
  constructor <;> simp [Task.holds,Task.isChange]

theorem moves_rehomeDrain {pc after : RehomePc} {action : RehomeStep}
    (taken : rehomeStep (fun resource => !held cacheMode state resource) pc action = some after) :
    Moves cacheMode state (.rehomeDrain pc) (.rehomeDrain after) := by
  unfold rehomeStep at taken
  repeat' split at taken
  all_goals cases taken
  all_goals constructor <;> simp_all [Task.holds,Task.isChange]

theorem Kept.step (kept : Kept cacheMode state) (label : Label) (apart : Apart cacheMode state label)
    (taken : step cacheMode state label = some next) : Kept cacheMode next := by
  cases label with
  | call caller =>
    cases taken
    apply kept.arrived
    · cases caller <;> rfl
    · rfl
  | moveCutover | drainRange | drainRehome =>
    cases taken
    exact kept.arrived rfl rfl
  | change index action =>
    simp only [LockOrder.step] at taken
    split at taken
    · next caller pc found =>
      obtain ⟨after,moved,rfl⟩ := Option.map_eq_some_iff.mp taken
      refine kept.moved found (moves_change ?_ moved)
      rintro rfl
      exact apart
    · cases taken
  | cutover index action =>
    simp only [LockOrder.step] at taken
    split at taken
    · next pc found =>
      obtain ⟨after,moved,rfl⟩ := Option.map_eq_some_iff.mp taken
      exact kept.moved found (moves_cutover moved)
    · cases taken
  | rangeDrain index action =>
    simp only [LockOrder.step] at taken
    split at taken
    · next pc found =>
      obtain ⟨after,moved,rfl⟩ := Option.map_eq_some_iff.mp taken
      exact kept.moved found (moves_rangeDrain pc after)
    · cases taken
  | rehomeDrain index action =>
    simp only [LockOrder.step] at taken
    split at taken
    · next pc found =>
      obtain ⟨after,moved,rfl⟩ := Option.map_eq_some_iff.mp taken
      exact kept.moved found (moves_rehomeDrain moved)
    · cases taken

end Steps

/-- No task is on a cycle of tasks each waiting for the next. -/
theorem never_deadlocked (cacheMode : Bool) (labels : List Label) (final : State)
    (apart : Guarded (step cacheMode) (Apart cacheMode) [] labels) (reached : run (step cacheMode) [] labels = some final)
    (task : Nat) : ¬ Deadlocked (wants cacheMode final) (holds cacheMode final) task := by
  have kept : Kept cacheMode final :=
    invariant (step cacheMode) (Apart cacheMode) (Kept cacheMode)
      (fun state label next kept met taken => kept.step label met taken) _ _ _
      (kept_idle cacheMode) apart reached
  apply not_deadlocked (fun index => level (held cacheMode final .progress) (wants cacheMode final index))
  intro first second resource wanted owned
  obtain ⟨waiter,here,wish⟩ := Option.bind_eq_some_iff.mp wanted
  obtain ⟨owner,there,owns⟩ := owned
  have falls := level_falls kept (List.mem_of_getElem? there) wish owns
  rw [wanted]
  simp only [wants,there]
  rwa [wish] at falls

def crowded : List Label :=
  [.call .writeIter,.change 0 .lockMutation,.change 0 .enter,.change 0 .queue,.drainRange,.rangeDrain 1 .lock,.moveCutover,
    .cutover 2 .lock,.cutover 2 .mark,.cutover 2 .unlock,.call .setattr,.drainRehome,.rehomeDrain 4 .lock,.cutover 2 .timeout,
    .call .fallocate,.change 5 .lockMutation]

theorem crowded_never_deadlocked : Guarded (step false) (Apart false) [] crowded ∧
    ∃ final, run (step false) [] crowded = some final ∧
      (List.range 6).map (wants false final) =
        [some .rangeStagingLock,none,some .rwsem,some .rwsem,none,none] ∧
      ∀ task, ¬ Deadlocked (wants false final) (holds false final) task := by
  have apart : Guarded (step false) (Apart false) [] crowded := by decide +kernel
  have shape : ∃ final, run (step false) [] crowded = some final ∧ (List.range 6).map (wants false final) =
      [some .rangeStagingLock,none,some .rwsem,some .rwsem,none,none] := reaches (by decide +kernel)
  obtain ⟨final,reached,waiting⟩ := shape
  exact ⟨apart,final,reached,waiting,never_deadlocked false crowded final apart reached⟩

def stuck : State := [.cutover .relocking,.change .setattr .parked]

/-- The setattr waits for the end of the cutover, which waits for the inode's lock. -/
theorem setattr_and_cutover_deadlocked :
    run (step false) [] [.moveCutover,.cutover 0 .lock,.cutover 0 .mark,.cutover 0 .unlock,.call .setattr,.change 1 .lock,
      .change 1 .lockMutation,.change 1 .enter,.cutover 0 .drained] = some stuck ∧
      Deadlocked (wants false stuck) (holds false stuck) 0 := by
  have relock : Waits (wants false stuck) (holds false stuck) 0 1 := ⟨.rwsem,rfl,.change .setattr .parked,rfl,rfl⟩
  have barrier : Waits (wants false stuck) (holds false stuck) 1 0 := ⟨.progress,rfl,.cutover .relocking,rfl,rfl⟩
  exact ⟨by decide +kernel,.tail (.single relock) barrier⟩

end Smoothfs.LockOrder
