import Smoothfs.CutoverSteps
import Smoothfs.Namespace
import Smoothfs.Library.Run

/-! QUIESCE and RECONCILE against the movement commands of a pool. `quiesced` is read
once, at the start of a command, and a cutover then sleeps while it drains the
writers; what keeps a command that is past its test from going on after QUIESCE has
returned is the way in which generic netlink calls the handlers of a family. -/
namespace Smoothfs.Quiesce

open Run Movement

/-- Unless `parallel_ops` is set, generic netlink holds one mutex around every handler. -/
structure GenlFamily where
  parallelOps : Bool
  deriving DecidableEq, Repr

def smoothfsGenlFamily : GenlFamily := ⟨false⟩

inductive Command
  | quiesce
  | reconcile
  | movePlan (oid : Oid) (destTier seq : Nat) (force : Bool)
  | moveCutover (oid : Oid) (seq : Nat) (expected : Option Nat)
  deriving DecidableEq, Repr

/-- Not called, at its first statement, past the test of `quiesced`, draining without the inode
lock, or done. -/
inductive HandlerPc
  | received
  | entered
  | admitted
  | draining
  | leaving (result : Except Errno Unit)
  | returned (result : Except Errno Unit)
  deriving DecidableEq

structure Handler where
  command : Command
  pc : HandlerPc
  deriving DecidableEq

def HandlerPc.inside : HandlerPc → Bool
  | .received | .returned _ => false
  | _ => true

/-- `barred` says that a QUIESCE has returned and no RECONCILE has begun since. -/
structure State where
  world : World
  handlers : List Handler
  barred : Bool

inductive Label
  | arrive (command : Command)
  | call (index : Nat)
  | run (index : Nat) (fault : CutoverFault)
  | user (action : Namespace.Action)
  deriving DecidableEq, Repr

def setQuiesced (world : World) (quiesced : Bool) : World :=
  {world with pool := {world.pool with quiesced := quiesced}}

def State.move (state : State) (index : Nat) (handler : Handler) (pc : HandlerPc) : State :=
  {state with handlers := state.handlers.set index {handler with pc := pc}}

def State.finish (state : State) (index : Nat) (handler : Handler) (done : World × Except Errno Unit) : State :=
  {state.move index handler (.leaving done.2) with world := done.1}

def State.test (state : State) (index : Nat) (handler : Handler) : State :=
  state.move index handler (if state.world.pool.quiesced then .leaving (.error .eagain) else .admitted)

def runHandler (state : State) (index : Nat) (handler : Handler) (fault : CutoverFault) : Option State :=
  match handler.command, handler.pc with
  | .quiesce, .entered => some (state.finish index handler (setQuiesced state.world true,.ok ()))
  | .reconcile, .entered => some (state.finish index handler (setQuiesced state.world false,.ok ()))
  | .movePlan _ _ _ _, .entered => some (state.test index handler)
  | .moveCutover _ _ _, .entered => some (state.test index handler)
  | .movePlan oid destTier seq force, .admitted =>
    some (state.finish index handler (planAdmitted state.world oid destTier seq force))
  | .moveCutover oid seq _, .admitted =>
    match cutoverBegin state.world oid seq with
    | (begun,.ok ()) => some {state.move index handler .draining with world := begun}
    | (same,.error errno) => some (state.finish index handler (same,.error errno))
  | .moveCutover oid _ expected, .draining =>
    some (state.finish index handler (cutoverFinish state.world oid expected fault))
  | command, .leaving result =>
    some {state.move index handler (.returned result) with barred := state.barred || command = .quiesce}
  | _, _ => none

def step (family : GenlFamily) (state : State) : Label → Option State
  | .arrive command => some {state with handlers := state.handlers ++ [⟨command,.received⟩]}
  | .call index =>
    match state.handlers[index]? with
    | some ⟨command,.received⟩ =>
      if family.parallelOps ∨ ¬ state.handlers.any (·.pc.inside) then
        some {state.move index ⟨command,.received⟩ .entered with barred := state.barred && command ≠ .reconcile}
      else none
    | _ => none
  | .run index fault => state.handlers[index]?.bind fun handler => runHandler state index handler fault
  | .user action => (Namespace.act state.world action).map fun world => {state with world := world}

def mounted (world : World) : State := ⟨world,[],false⟩

/-- No handler that runs now moves anything. -/
def Still (family : GenlFamily) (state : State) : Label → Prop
  | .run index fault => ∀ next, step family state (.run index fault) = some next →
      next.world.inodes = state.world.inodes ∧
        ∀ command result, next.handlers[index]? = some ⟨command,.leaving result⟩ → command ≠ .quiesce → ∃ errno, result = .error errno
  | _ => True

/-- Handlers run one at a time. While `barred`, no command is past its test and no RECONCILE is
about to clear the flag. -/
structure Invariant (state : State) : Prop where
  alone : ∀ (index other : Nat) (handler rival : Handler), state.handlers[index]? = some handler → state.handlers[other]? = some rival →
    handler.pc.inside = true → rival.pc.inside = true → index = other
  shut : state.barred = true → state.world.pool.quiesced = true
  idle : state.barred = true → ∀ handler ∈ state.handlers, handler.pc ≠ .admitted ∧ handler.pc ≠ .draining ∧
    handler ≠ ⟨.reconcile,.entered⟩
  closing : ∀ result, ⟨.quiesce,.leaving result⟩ ∈ state.handlers → state.world.pool.quiesced = true

theorem invariant_mounted (world : World) : Invariant (mounted world) where
  alone := by simp [mounted]
  shut := by simp [mounted]
  idle := by simp [mounted]
  closing := by simp [mounted]

theorem planAdmitted_pool (world : World) (oid : Oid) (destTier seq : Nat) (force : Bool) :
    (planAdmitted world oid destTier seq force).1.pool = world.pool := by
  rcases planAdmitted_spec world oid destTier seq force with ⟨errno,same⟩ | ⟨inode,_,_,_,_,_,same⟩
  · rw [same]
  · rw [same]
    rfl

theorem cutoverBegin_pool (world : World) (oid : Oid) (seq : Nat) : (cutoverBegin world oid seq).1.pool = world.pool := by
  obtain same | ⟨_,_,_,_,_,same⟩ := cutoverBegin_marked world oid seq <;> rw [same]
  rfl

theorem cutoverFinish_pool (world : World) (oid : Oid) (expected : Option Nat) (fault : CutoverFault) :
    (cutoverFinish world oid expected fault).1.pool = world.pool := by
  rcases cutoverFinish_spec world oid expected fault with ⟨after,errno,same,refused⟩ | ⟨inode,dest,_,_,_,same⟩
  · rw [same]
    rcases refused with rfl | ⟨inode,state,_,rfl | ⟨file,rfl⟩⟩ <;> rfl
  · rw [same]
    rfl

section Moves

variable {state next : State} {index : Nat} {handler : Handler} {pc : HandlerPc} {fault : CutoverFault}

theorem runHandler_cases (ran : runHandler state index handler fault = some next) :
    (∃ value, handler.pc = .entered ∧ (handler.command = .quiesce ∧ value = true ∨ handler.command = .reconcile) ∧
      next = state.finish index handler (setQuiesced state.world value,.ok ())) ∨
    (handler.pc = .entered ∧ handler.command ≠ .quiesce ∧ next = state.test index handler) ∨
    ((handler.pc = .admitted ∨ handler.pc = .draining) ∧ handler.command ≠ .quiesce ∧
      ∃ world pc, world.pool = state.world.pool ∧ next = {state.move index handler pc with world := world}) ∨
    ∃ result, handler.pc = .leaving result ∧
      next = {state.move index handler (.returned result) with barred := state.barred || handler.command = .quiesce} := by
  obtain ⟨command,pc⟩ := handler
  unfold runHandler at ran
  dsimp only at ran
  split at ran
  · cases ran
    exact .inl ⟨true,rfl,.inl ⟨rfl,rfl⟩,rfl⟩
  · cases ran
    exact .inl ⟨false,rfl,.inr rfl,rfl⟩
  · cases ran
    exact .inr (.inl ⟨rfl,by simp,rfl⟩)
  · cases ran
    exact .inr (.inl ⟨rfl,by simp,rfl⟩)
  · cases ran
    exact .inr (.inr (.inl ⟨.inl rfl,by simp,_,_,planAdmitted_pool ..,rfl⟩))
  · next oid seq expected =>
    have pool := cutoverBegin_pool state.world oid seq
    split at ran
    · next world begun =>
      rw [begun] at pool
      cases ran
      exact .inr (.inr (.inl ⟨.inl rfl,by simp,_,_,pool,rfl⟩))
    · next world errno begun =>
      rw [begun] at pool
      cases ran
      exact .inr (.inr (.inl ⟨.inl rfl,by simp,_,_,pool,rfl⟩))
  · cases ran
    exact .inr (.inr (.inl ⟨.inr rfl,by simp,_,_,cutoverFinish_pool ..,rfl⟩))
  · cases ran
    exact .inr (.inr (.inr ⟨_,rfl,rfl⟩))
  · cases ran

theorem mem_move {moved : Handler} (member : moved ∈ (state.move index handler pc).handlers) :
    moved = {handler with pc := pc} ∨ moved ∈ state.handlers := by
  exact (List.mem_or_eq_of_mem_set member).symm

theorem alone_move (others : ∀ (place : Nat) (entry : Handler), state.handlers[place]? = some entry →
    entry.pc.inside = true → place = index)
    (one other : Nat) (first second : Handler) (here : (state.move index handler pc).handlers[one]? = some first)
    (there : (state.move index handler pc).handlers[other]? = some second)
    (left : first.pc.inside = true) (right : second.pc.inside = true) : one = other := by
  have only (place : Nat) (entry : Handler) (entered : (state.move index handler pc).handlers[place]? = some entry)
      (busy : entry.pc.inside = true) : place = index := by
    by_contra elsewhere
    simp only [State.move] at entered
    rw [List.getElem?_set_ne (Ne.symm elsewhere)] at entered
    exact elsewhere (others place entry entered busy)
  rw [only one first here left,only other second there right]

theorem Invariant.others (invariant : Invariant state) (found : state.handlers[index]? = some handler)
    (inside : handler.pc.inside = true) (place : Nat) (entry : Handler) (there : state.handlers[place]? = some entry)
    (busy : entry.pc.inside = true) : place = index :=
  invariant.alone place index entry handler there found busy inside

theorem Invariant.run (invariant : Invariant state) (found : state.handlers[index]? = some handler)
    (ran : runHandler state index handler fault = some next) : Invariant next := by
  have member : handler ∈ state.handlers := List.mem_of_getElem? found
  have inside : handler.pc.inside = true := by
    rcases runHandler_cases ran with ⟨_,at_,_⟩ | ⟨at_,_⟩ | ⟨at_ | at_,_⟩ | ⟨_,at_,_⟩ <;> rw [at_] <;> rfl
  have others := invariant.others found inside
  rcases runHandler_cases ran with ⟨value,entered,writes,rfl⟩ | ⟨entered,moves,rfl⟩ | ⟨past,moves,world,pc,pool,rfl⟩ | ⟨result,leaves,rfl⟩
  · -- QUIESCE sets the flag; RECONCILE clears it, and not while `barred`.
    have set (barred : state.barred = true) : value = true := by
      rcases writes with ⟨_,same⟩ | reconcile
      · exact same
      · obtain ⟨_,_,absent⟩ := invariant.idle barred handler member
        exact absurd (by rw [← reconcile,← entered]) absent
    refine ⟨alone_move others,set,fun barred entry there => ?_,fun result there => ?_⟩
    · rcases mem_move there with rfl | old
      · exact ⟨by simp,by simp,by simp⟩
      · exact invariant.idle barred entry old
    · rcases mem_move there with same | old
      · rcases writes with ⟨_,set⟩ | reconcile
        · exact set
        · rw [Handler.mk.injEq,reconcile] at same
          cases same.1
      · obtain ⟨place,bound,entry⟩ := List.mem_iff_getElem.mp old
        have here := others place _ (List.getElem?_eq_some_iff.mpr ⟨bound,entry⟩) rfl
        subst here
        rw [List.getElem?_eq_some_iff.mpr ⟨bound,entry⟩] at found
        cases found
        cases entered
  · refine ⟨alone_move others,invariant.shut,fun barred entry there => ?_,fun result there => ?_⟩
    · rcases mem_move there with rfl | old
      · simp only [invariant.shut barred]
        exact ⟨by simp,by simp,by simp⟩
      · exact invariant.idle barred entry old
    · rcases mem_move there with same | old
      · exact absurd (congrArg Handler.command same).symm moves
      · exact invariant.closing result old
  · have open_ : ¬ state.barred = true := fun barred => by
      obtain ⟨tested,drained,_⟩ := invariant.idle barred handler member
      exact past.elim tested drained
    refine ⟨alone_move others,fun barred => absurd barred open_,fun barred => absurd barred open_,fun result there => ?_⟩
    rcases mem_move there with same | old
    · exact absurd (congrArg Handler.command same).symm moves
    · exact (congrArg Pool.quiesced pool).trans (invariant.closing result old)
  · -- A QUIESCE that returns is alone, so that no other command is past its test.
    have closed (barred : (state.barred || decide (handler.command = .quiesce)) = true) : state.world.pool.quiesced = true := by
      rcases Bool.or_eq_true_iff.mp barred with old | quiesce
      · exact invariant.shut old
      · refine invariant.closing result ?_
        rw [← of_decide_eq_true quiesce,← leaves]
        exact member
    refine ⟨alone_move others,closed,fun barred entry there => ?_,fun result there => ?_⟩
    · rcases mem_move there with rfl | old
      · exact ⟨by simp,by simp,by simp⟩
      · rcases Bool.or_eq_true_iff.mp barred with before | quiesce
        · exact invariant.idle before entry old
        · obtain ⟨place,bound,same⟩ := List.mem_iff_getElem.mp old
          have here (busy : entry.pc.inside = true) : entry.pc = .leaving result := by
            have there := List.getElem?_eq_some_iff.mpr ⟨bound,same⟩
            rw [others place entry there busy,found] at there
            rw [← Option.some.inj there,leaves]
          refine ⟨fun tested => ?_,fun drained => ?_,fun reconcile => ?_⟩
          · cases tested.symm.trans (here (by rw [tested]; rfl))
          · cases drained.symm.trans (here (by rw [drained]; rfl))
          · cases (congrArg Handler.pc reconcile).symm.trans (here (by rw [reconcile]; rfl))
    · rcases mem_move there with same | old
      · cases congrArg Handler.pc same
      · exact invariant.closing _ old

end Moves

theorem Invariant.step {state next : State} {label : Label} (invariant : Invariant state)
    (taken : step smoothfsGenlFamily state label = some next) : Invariant next := by
  cases label with
  | arrive command =>
    cases taken
    have old (place : Nat) (entry : Handler) (there : (state.handlers ++ [⟨command,.received⟩])[place]? = some entry)
        (busy : entry.pc.inside = true) : state.handlers[place]? = some entry := by
      by_cases bound : place < state.handlers.length
      · rwa [List.getElem?_append_left bound] at there
      rw [List.getElem?_append_right (Nat.le_of_not_lt bound)] at there
      have same := List.mem_singleton.mp (List.mem_of_getElem? there)
      rw [same] at busy
      cases busy
    refine ⟨fun one other first second here there left right => ?_,invariant.shut,fun barred entry there => ?_,fun result there => ?_⟩
    · exact invariant.alone one other first second (old one first here left) (old other second there right) left right
    · rcases List.mem_append.mp there with known | fresh
      · exact invariant.idle barred entry known
      · rw [List.mem_singleton.mp fresh]
        exact ⟨by simp,by simp,by simp⟩
    · rcases List.mem_append.mp there with known | fresh
      · exact invariant.closing result known
      · cases List.mem_singleton.mp fresh
  | call index =>
    simp only [Quiesce.step] at taken
    split at taken
    swap
    · cases taken
    split at taken
    swap
    · cases taken
    next free =>
    cases taken
    have none : ¬ state.handlers.any (·.pc.inside) = true := by simpa [smoothfsGenlFamily] using free
    have others (place : Nat) (entry : Handler) (there : state.handlers[place]? = some entry)
        (busy : entry.pc.inside = true) : place = index :=
      absurd (List.any_eq_true.mpr ⟨entry,List.mem_of_getElem? there,busy⟩) none
    refine ⟨alone_move others,fun barred => ?_,fun barred entry there => ?_,fun result there => ?_⟩
    · exact invariant.shut (Bool.and_eq_true_iff.mp barred).1
    · obtain ⟨before,other⟩ := Bool.and_eq_true_iff.mp barred
      rcases mem_move there with rfl | old
      · exact ⟨by simp,by simp,by simpa using of_decide_eq_true other⟩
      · exact invariant.idle before entry old
    · rcases mem_move there with same | old
      · cases congrArg Handler.pc same
      · exact invariant.closing result old
  | run index fault =>
    obtain ⟨handler,found,ran⟩ := Option.bind_eq_some_iff.mp taken
    exact invariant.run found ran
  | user action =>
    obtain ⟨world,acted,rfl⟩ := Option.map_eq_some_iff.mp taken
    have pool := congrArg Pool.quiesced (Namespace.act_effect _ _ action acted).fixed.1
    exact ⟨invariant.alone,fun barred => pool.trans (invariant.shut barred),invariant.idle,
      fun result there => pool.trans (invariant.closing result there)⟩

theorem Invariant.still {state : State} (invariant : Invariant state) (barred : state.barred = true) (label : Label) :
    Still smoothfsGenlFamily state label := by
  cases label with
  | run index fault =>
    intro next taken
    obtain ⟨handler,found,ran⟩ := Option.bind_eq_some_iff.mp taken
    obtain ⟨bound,_⟩ := List.getElem?_eq_some_iff.mp found
    obtain ⟨untested,undrained,unreconciled⟩ := invariant.idle barred handler (List.mem_of_getElem? found)
    have placed (pc : HandlerPc) : (state.move index handler pc).handlers[index]? = some {handler with pc := pc} :=
      List.getElem?_set_self bound
    rcases runHandler_cases ran with ⟨value,entered,writes,rfl⟩ | ⟨entered,_,rfl⟩ | ⟨past,_⟩ | ⟨result,leaves,rfl⟩
    · refine ⟨rfl,fun command result there other => ?_⟩
      rcases writes with ⟨quiesce,_⟩ | reconcile
      · have same := Option.some.inj ((placed _).symm.trans there)
        exact absurd ((congrArg Handler.command same).symm.trans quiesce) other
      · exact absurd (by rw [← reconcile,← entered]) unreconciled
    · refine ⟨rfl,fun command result there _ => ⟨.eagain,?_⟩⟩
      have same := Option.some.inj ((placed _).symm.trans there)
      simp only [invariant.shut barred] at same
      exact (HandlerPc.leaving.inj (congrArg Handler.pc same)).symm
    · exact past.elim (absurd · untested) (absurd · undrained)
    · refine ⟨rfl,fun command other there _ => ?_⟩
      have same := Option.some.inj ((placed _).symm.trans there)
      cases congrArg Handler.pc same
  | _ => trivial

/-- Between the return of a QUIESCE and the beginning of the next RECONCILE nothing is moved and no
plan is accepted. -/
theorem quiesce_stops_movement (world : World) (labels : List Label) :
    Guarded (step smoothfsGenlFamily) (fun state label => state.barred = true → Still smoothfsGenlFamily state label)
      (mounted world) labels := by
  have free : Guarded (step smoothfsGenlFamily) (fun _ _ => True) (mounted world) labels :=
    guarded_of_labels _ _ _ (fun _ _ _ => trivial)
  exact guarded_of_invariant _ Invariant (fun _ _ _ invariant _ taken => invariant.step taken)
    (fun _ label invariant _ barred => invariant.still barred label) (invariant_mounted world) free

-- Under `parallel_ops` a cutover that is past its test drains on and swaps after QUIESCE has returned.
example : ((run (step ⟨true⟩) (mounted copied)
    [.arrive (.movePlan 0 1 1 false),.arrive (.moveCutover 0 1 none),.arrive .quiesce,.call 0,.run 0 .none,.run 0 .none,
      .call 1,.run 1 .none,.run 1 .none,.call 2,.run 2 .none,.run 2 .none,.run 1 .none]).map
    fun state => (state.barred,(state.world.inodes 0).map (·.currentTier))) = some (true,some 1) := by
  decide

end Smoothfs.Quiesce
