import Smoothfs.Library.Run

/-! `smoothfs_open_lower` and `smoothfs_reissue_lower` of one inode, each read and
store of theirs a step of its own, against the three writers that replace
`lower_path` and then advance `cutover_gen`: the cutover, the truncate that
rehomes and the relower after a forget. All three run under the inode's `i_rwsem`. -/
namespace Smoothfs.OpenLower
open Run

def wrap : Nat := 0x100000000

inductive Writer
  | cutover | truncateRehome | relower
  deriving DecidableEq, Repr

inductive WriterPc
  | locked | swapped | published
  deriving DecidableEq, Repr

/-- What the writers own. `swaps` is the number of published swaps, of which
`cutoverGen` keeps the last 32 bits. -/
structure Backing where
  lowerPath : Nat
  cutoverGen : Nat
  swaps : Nat
  writer : Option (Writer × WriterPc)
  deriving DecidableEq, Repr

def Backing.halfDone (backing : Backing) : Bool :=
  backing.writer.any fun owner => owner.2 = .swapped

/-- `since` is the number of swaps at which `lowerGen` was read and `holder` the call that holds
`reissue_lock`. -/
structure Descriptor where
  lowerFile : Nat
  lowerGen : Nat
  since : Nat
  holder : Option Nat
  deriving DecidableEq, Repr

/-- Where a call stands: `taken` and `read` are the numbers of swaps at which it
took its path and read its generation. -/
inductive Call
  | openSnapped (path taken : Nat)
  | openOpened (file taken : Nat)
  | waiting (fd : Nat)
  | locked (fd : Nat)
  | stale (fd gen read : Nat)
  | snapped (fd gen read path : Nat)
  | opened (fd gen read file : Nat)
  | stored (fd gen read : Nat)
  | returned
  deriving DecidableEq, Repr

structure State where
  backing : Backing
  files : List Descriptor
  calls : List Call
  deriving DecidableEq, Repr

def fresh (path : Nat) : State := ⟨⟨path,0,0,none⟩,[],[]⟩

inductive WriterStep
  | lock (writer : Writer)
  | swap (path : Nat)
  | publish
  | unlock
  deriving DecidableEq, Repr

inductive CallStep
  | acquire | readGen | snapshot | dentryOpen | fail | storeFile | storeGen
  deriving DecidableEq, Repr

inductive Label
  | writer (action : WriterStep)
  | openLower
  | reissueLower (fd : Nat)
  | call (index : Nat) (action : CallStep)
  deriving DecidableEq, Repr

def writerStep (backing : Backing) (action : WriterStep) : Option Backing :=
  match action, backing.writer with
  | .lock writer, none => some {backing with writer := some (writer,.locked)}
  | .swap path, some (writer,.locked) => some {backing with lowerPath := path, writer := some (writer,.swapped)}
  | .publish, some (writer,.swapped) =>
    some {backing with cutoverGen := (backing.cutoverGen + 1) % wrap, swaps := backing.swaps + 1,
                       writer := some (writer,.published)}
  -- A writer may also give up before its swap, never after it.
  | .unlock, some (_,.locked) | .unlock, some (_,.published) => some {backing with writer := none}
  | _, _ => none

def State.setCall (state : State) (index : Nat) (call : Call) : State :=
  {state with calls := state.calls.set index call}

def State.setFile (state : State) (fd : Nat) (file : Descriptor) : State :=
  {state with files := state.files.set fd file}

/-- `fail` is a failing permission check or lower open. -/
def callStep (state : State) (index : Nat) (call : Call) (action : CallStep) : Option State :=
  match call, action with
  | .openSnapped path taken, .dentryOpen => some (state.setCall index (.openOpened path taken))
  | .openSnapped _ _, .fail => some (state.setCall index .returned)
  | .openOpened file _, .readGen =>
    some {state.setCall index .returned with
      files := state.files ++ [⟨file,state.backing.cutoverGen,state.backing.swaps,none⟩]}
  | .waiting fd, .acquire =>
    (state.files[fd]?.filter fun file => file.holder = none).map fun file =>
      (state.setFile fd {file with holder := some index}).setCall index (.locked fd)
  | .locked fd, .readGen =>
    state.files[fd]?.map fun file =>
      if file.lowerGen = state.backing.cutoverGen then
        (state.setFile fd {file with holder := none}).setCall index .returned
      else state.setCall index (.stale fd state.backing.cutoverGen state.backing.swaps)
  | .stale fd gen read, .snapshot => some (state.setCall index (.snapped fd gen read state.backing.lowerPath))
  | .snapped fd gen read path, .dentryOpen => some (state.setCall index (.opened fd gen read path))
  | .snapped fd _ _ _, .fail =>
    state.files[fd]?.map fun file => (state.setFile fd {file with holder := none}).setCall index .returned
  | .opened fd gen read path, .storeFile =>
    state.files[fd]?.map fun file => (state.setFile fd {file with lowerFile := path}).setCall index (.stored fd gen read)
  | .stored fd gen read, .storeGen =>
    state.files[fd]?.map fun file =>
      (state.setFile fd {file with lowerGen := gen, since := read, holder := none}).setCall index .returned
  | _, _ => none

def step (state : State) : Label → Option State
  | .writer action => (writerStep state.backing action).map fun backing => {state with backing := backing}
  | .openLower => some {state with calls := state.calls ++ [.openSnapped state.backing.lowerPath state.backing.swaps]}
  -- The first comparison of a reissue is made without the lock.
  | .reissueLower fd =>
    state.files[fd]?.map fun file =>
      if file.lowerGen = state.backing.cutoverGen then state else {state with calls := state.calls ++ [.waiting fd]}
  | .call index action => state.calls[index]?.bind fun call => callStep state index call action

def Call.readAt : Call → Option Nat
  | .stale _ _ read | .snapped _ _ read _ | .opened _ _ read _ | .stored _ _ read => some read
  | _ => none

def Call.openedAt : Call → Option Nat
  | .openOpened _ taken => some taken
  | _ => none

/-- No swap is published between an open's path and its generation, and none that would bring the
counter back to a generation in use. -/
def Undisturbed (state : State) : Label → Prop
  | .writer .publish =>
    (∀ file ∈ state.files, state.backing.swaps + 1 < file.since + wrap) ∧
      ∀ call ∈ state.calls, ∀ read ∈ call.readAt, state.backing.swaps + 1 < read + wrap
  | .call index .readGen => ∀ taken ∈ state.calls[index]?.bind Call.openedAt, taken = state.backing.swaps
  | _ => True

instance (state : State) (label : Label) : Decidable (Undisturbed state label) :=
  match label with
  | .writer .publish =>
    inferInstanceAs (Decidable ((∀ file ∈ state.files, state.backing.swaps + 1 < file.since + wrap) ∧
      ∀ call ∈ state.calls, ∀ read ∈ call.readAt, state.backing.swaps + 1 < read + wrap))
  | .call index .readGen =>
    inferInstanceAs (Decidable (∀ taken ∈ state.calls[index]?.bind Call.openedAt, taken = state.backing.swaps))
  | .writer (.lock _) | .writer (.swap _) | .writer .unlock | .openLower | .reissueLower _ | .call _ .acquire
  | .call _ .snapshot | .call _ .dentryOpen | .call _ .fail | .call _ .storeFile | .call _ .storeGen => isTrue trivial

/-- What was chosen after `count` swaps is the present backing, if that is still
the count and no swap is half done. -/
def Current (backing : Backing) (count path : Nat) : Prop :=
  count ≤ backing.swaps ∧ (backing.halfDone = false → count = backing.swaps → path = backing.lowerPath)

def Aged (backing : Backing) (gen count : Nat) : Prop :=
  gen = count % wrap ∧ count ≤ backing.swaps ∧ backing.swaps < count + wrap

def Descriptor.Good (backing : Backing) (file : Descriptor) : Prop :=
  Aged backing file.lowerGen file.since ∧ Current backing file.since file.lowerFile

def Owned (files : List Descriptor) (index fd : Nat) (fact : Descriptor → Prop) : Prop :=
  ∃ file, files[fd]? = some file ∧ file.holder = some index ∧ fact file

def Call.Good (backing : Backing) (files : List Descriptor) (index : Nat) : Call → Prop
  | .openSnapped path taken | .openOpened path taken => Current backing taken path
  | .locked fd => Owned files index fd (fun _ => True)
  | .stale fd gen read => Aged backing gen read ∧ Owned files index fd (fun file => file.since < read)
  | .snapped fd gen read path | .opened fd gen read path =>
    Aged backing gen read ∧ Current backing read path ∧ Owned files index fd (fun file => file.since < read)
  | .stored fd gen read =>
    Aged backing gen read ∧ Owned files index fd (fun file => file.since < read ∧ Current backing read file.lowerFile)
  | .waiting _ | .returned => True

structure Kept (state : State) : Prop where
  gen : state.backing.cutoverGen = state.backing.swaps % wrap
  files : ∀ file ∈ state.files, file.Good state.backing
  calls : ∀ (index : Nat) (call : Call), state.calls[index]? = some call → call.Good state.backing state.files index

theorem kept_fresh (path : Nat) : Kept (fresh path) := by
  constructor <;> simp [fresh]

section Writers

variable {backing after : Backing} {action : WriterStep}

theorem writerStep_cases (taken : writerStep backing action = some after) :
    after.lowerPath = backing.lowerPath ∧ after.cutoverGen = backing.cutoverGen ∧ after.swaps = backing.swaps ∧
        backing.halfDone = false ∨
      after.cutoverGen = backing.cutoverGen ∧ after.swaps = backing.swaps ∧ after.halfDone = true ∨
      action = .publish ∧ after.lowerPath = backing.lowerPath ∧ after.cutoverGen = (backing.cutoverGen + 1) % wrap ∧
        after.swaps = backing.swaps + 1 := by
  unfold writerStep at taken
  split at taken <;> cases taken
  next idle => exact .inl ⟨rfl,rfl,rfl,by simp [Backing.halfDone,idle]⟩
  next => exact .inr (.inl ⟨rfl,rfl,by simp [Backing.halfDone]⟩)
  next => exact .inr (.inr ⟨rfl,rfl,rfl,rfl⟩)
  next early => exact .inl ⟨rfl,rfl,rfl,by simp [Backing.halfDone,early]⟩
  next late => exact .inl ⟨rfl,rfl,rfl,by simp [Backing.halfDone,late]⟩

theorem Current.kept {count path : Nat} (current : Current backing count path) (taken : writerStep backing action = some after) :
    Current after count path := by
  obtain ⟨bound,same⟩ := current
  obtain ⟨here,_,swaps,whole⟩ | ⟨_,swaps,half⟩ | ⟨_,_,_,swaps⟩ := writerStep_cases taken
  · exact ⟨by omega,fun _ equal => by rw [here]; exact same whole (by omega)⟩
  · exact ⟨by omega,fun whole => by rw [half] at whole; cases whole⟩
  · exact ⟨by omega,fun _ equal => by omega⟩

theorem Aged.kept {gen count : Nat} (aged : Aged backing gen count) (taken : writerStep backing action = some after)
    (room : action = .publish → backing.swaps + 1 < count + wrap) : Aged after gen count := by
  obtain ⟨read,bound,near⟩ := aged
  obtain ⟨_,_,swaps,_⟩ | ⟨_,swaps,_⟩ | ⟨published,_,_,swaps⟩ := writerStep_cases taken
  · exact ⟨read,by omega,by omega⟩
  · exact ⟨read,by omega,by omega⟩
  · exact ⟨read,by omega,by have := room published; omega⟩

variable {files : List Descriptor} {index : Nat}

theorem Owned.imp {fd : Nat} {fact other : Descriptor → Prop} (owned : Owned files index fd fact)
    (implies : ∀ file, fact file → other file) : Owned files index fd other := by
  obtain ⟨file,found,held,known⟩ := owned
  exact ⟨file,found,held,implies file known⟩

theorem Call.Good.kept {call : Call} (good : call.Good backing files index) (taken : writerStep backing action = some after)
    (room : action = .publish → ∀ read ∈ call.readAt, backing.swaps + 1 < read + wrap) : call.Good after files index := by
  cases call with
  | openSnapped path count | openOpened path count => exact Current.kept good taken
  | waiting fd | locked fd | returned => exact good
  | stale fd gen read => exact ⟨good.1.kept taken (fun publish => room publish read rfl),good.2⟩
  | snapped fd gen read path | opened fd gen read path =>
    exact ⟨good.1.kept taken (fun publish => room publish read rfl),good.2.1.kept taken,good.2.2⟩
  | stored fd gen read =>
    exact ⟨good.1.kept taken (fun publish => room publish read rfl),
      good.2.imp (fun file known => ⟨known.1,known.2.kept taken⟩)⟩

theorem Kept.writer {state : State} (kept : Kept state) (undisturbed : Undisturbed state (.writer action))
    (taken : writerStep state.backing action = some after) : Kept {state with backing := after} := by
  constructor
  · show after.cutoverGen = after.swaps % wrap
    have before := kept.gen
    obtain ⟨_,gen,swaps,_⟩ | ⟨gen,swaps,_⟩ | ⟨_,_,gen,swaps⟩ := writerStep_cases taken
    · rw [gen,swaps,before]
    · rw [gen,swaps,before]
    · rw [gen,swaps,before,Nat.mod_add_mod]
  · intro file member
    refine ⟨(kept.files file member).1.kept taken ?_,(kept.files file member).2.kept taken⟩
    rintro rfl
    exact undisturbed.1 file member
  · intro index call found
    refine (kept.calls index call found).kept taken ?_
    rintro rfl
    exact undisturbed.2 call (List.mem_of_getElem? found)

end Writers

section Calls

variable {state next : State} {backing : Backing} {files : List Descriptor} {index fd : Nat}

variable {fact : Descriptor → Prop} {file : Descriptor}

theorem Owned.set {other : Nat} (owned : Owned files index fd fact)
    (found : files[other]? = some file) (apart : file.holder ≠ some index) (new : Descriptor) :
    Owned (files.set other new) index fd fact := by
  obtain ⟨mine,here,held,known⟩ := owned
  refine ⟨mine,?_,held,known⟩
  rw [List.getElem?_set_ne,here]
  rintro rfl
  rw [found] at here
  cases here
  exact apart held

theorem Owned.append (owned : Owned files index fd fact) (new : Descriptor) : Owned (files ++ [new]) index fd fact := by
  obtain ⟨mine,here,held,known⟩ := owned
  exact ⟨mine,List.getElem?_append_left (List.getElem?_eq_some_iff.mp here).1 ▸ here,held,known⟩

variable {new : Descriptor}

theorem owned_set (found : files[fd]? = some file)
    (held : new.holder = some index) (known : fact new) : Owned (files.set fd new) index fd fact :=
  ⟨new,by rw [List.getElem?_set_self (List.getElem?_eq_some_iff.mp found).1],held,known⟩

theorem Call.Good.transfer {call : Call} (good : call.Good backing files index) (others : List Descriptor)
    (owned : ∀ fd fact, Owned files index fd fact → Owned others index fd fact) : call.Good backing others index := by
  cases call with
  | openSnapped path count | openOpened path count | waiting fd | returned => exact good
  | locked fd => exact owned fd _ good
  | stale fd gen read | stored fd gen read => exact ⟨good.1,owned fd _ good.2⟩
  | snapped fd gen read path | opened fd gen read path => exact ⟨good.1,good.2.1,owned fd _ good.2.2⟩

variable (kept : Kept state)
include kept

theorem Kept.setCall {call : Call} (good : call.Good state.backing state.files index) : Kept (state.setCall index call) := by
  refine ⟨kept.gen,kept.files,fun other found there => ?_⟩
  obtain ⟨rfl,rfl⟩ | ⟨_,there⟩ := getElem?_moved there
  · exact good
  · exact kept.calls other found there

theorem Kept.setFile {call : Call} (found : state.files[fd]? = some file)
    (mine : file.holder = none ∨ file.holder = some index) (good : new.Good state.backing)
    (proceeds : call.Good state.backing (state.files.set fd new) index) : Kept ((state.setFile fd new).setCall index call) := by
  refine ⟨kept.gen,?_,fun other call there => ?_⟩
  · intro other member
    rcases List.mem_or_eq_of_mem_set member with member | rfl
    · exact kept.files other member
    · exact good
  obtain ⟨rfl,rfl⟩ | ⟨away,there⟩ := getElem?_moved there
  · exact proceeds
  refine (kept.calls other call there).transfer _ (fun _ _ owned => owned.set found ?_ new)
  rcases mine with free | held
  · simp [free]
  · simpa [held] using away.symm

theorem Kept.append (good : new.Good state.backing) : Kept {state with files := state.files ++ [new]} := by
  refine ⟨kept.gen,?_,fun index call there => ?_⟩
  · intro file member
    rcases List.mem_append.mp member with member | member
    · exact kept.files file member
    · rw [List.mem_singleton.mp member]
      exact good
  · exact (kept.calls index call there).transfer _ (fun _ _ owned => owned.append new)

theorem aged_now : Aged state.backing state.backing.cutoverGen state.backing.swaps :=
  ⟨kept.gen,Nat.le_refl _,by unfold wrap; omega⟩

theorem Kept.older (found : state.files[fd]? = some file)
    (differ : file.lowerGen ≠ state.backing.cutoverGen) : file.since < state.backing.swaps := by
  obtain ⟨⟨read,bound,_⟩,_⟩ := kept.files file (List.mem_of_getElem? found)
  refine Nat.lt_of_le_of_ne bound (fun same => differ ?_)
  rw [read,same,kept.gen]

theorem Kept.call {call : Call} {action : CallStep} (there : state.calls[index]? = some call)
    (undisturbed : Undisturbed state (.call index action)) (taken : callStep state index call action = some next) : Kept next := by
  have good := kept.calls index call there
  unfold callStep at taken
  split at taken
  case h_1 path count | h_7 fd gen read path =>
    cases taken
    exact kept.setCall good
  case h_2 =>
    cases taken
    exact kept.setCall trivial
  case h_3 file count =>
    cases taken
    have same : count = state.backing.swaps := undisturbed count (by simp [there,Call.openedAt])
    subst same
    have now := aged_now kept
    have returned : Kept (state.setCall index .returned) := kept.setCall trivial
    exact returned.append ⟨now,good⟩
  case h_4 fd =>
    obtain ⟨file,found,rfl⟩ := Option.map_eq_some_iff.mp taken
    obtain ⟨found,free⟩ := Option.filter_eq_some_iff.mp found
    have before := kept.files file (List.mem_of_getElem? found)
    exact kept.setFile found (.inl (of_decide_eq_true free)) before (owned_set found rfl trivial)
  case h_5 fd =>
    obtain ⟨file,found,held,_⟩ := good
    have before := kept.files file (List.mem_of_getElem? found)
    simp only [found,Option.map_some,Option.some.injEq] at taken
    split at taken
    · subst taken
      exact kept.setFile found (.inr held) before trivial
    next differ =>
    subst taken
    exact kept.setCall ⟨aged_now kept,file,found,held,kept.older found differ⟩
  case h_6 fd gen read =>
    cases taken
    exact kept.setCall ⟨good.1,⟨good.1.2.1,fun _ _ => rfl⟩,good.2⟩
  case h_8 fd gen read path =>
    obtain ⟨_,_,file,found,held,_⟩ := good
    have before := kept.files file (List.mem_of_getElem? found)
    simp only [found,Option.map_some,Option.some.injEq] at taken
    subst taken
    exact kept.setFile found (.inr held) before trivial
  case h_9 fd gen read path =>
    obtain ⟨aged,current,file,found,held,older⟩ := good
    have before := kept.files file (List.mem_of_getElem? found)
    simp only [found,Option.map_some,Option.some.injEq] at taken
    subst taken
    -- The descriptor has its new file under the old generation, which is not the present one.
    have apart : Current state.backing file.since path :=
      ⟨before.2.1,fun _ same => by have := aged.2.1; omega⟩
    exact kept.setFile found (.inr held) ⟨before.1,apart⟩ ⟨aged,owned_set found held ⟨older,current⟩⟩
  case h_10 fd gen read =>
    obtain ⟨aged,file,found,held,older,current⟩ := good
    simp only [found,Option.map_some,Option.some.injEq] at taken
    subst taken
    exact kept.setFile found (.inr held) ⟨aged,current⟩ trivial
  case h_11 => cases taken

omit kept

end Calls

variable {state : State}

theorem Kept.started (kept : Kept state) {call : Call}
    (good : call.Good state.backing state.files state.calls.length) : Kept {state with calls := state.calls ++ [call]} := by
  refine ⟨kept.gen,kept.files,fun index other there => ?_⟩
  rcases Nat.lt_or_ge index state.calls.length with bound | beyond
  · simp only [List.getElem?_append_left bound] at there
    exact kept.calls index other there
  simp only [List.getElem?_append_right beyond,List.getElem?_singleton] at there
  split at there
  · cases there
    have same : index = state.calls.length := by omega
    rw [same]
    exact good
  · cases there

theorem Kept.step {next : State} (kept : Kept state) (label : Label) (undisturbed : Undisturbed state label)
    (taken : step state label = some next) : Kept next := by
  cases label with
  | writer action =>
    obtain ⟨after,moved,rfl⟩ := Option.map_eq_some_iff.mp taken
    exact kept.writer undisturbed moved
  | openLower =>
    cases taken
    exact kept.started ⟨Nat.le_refl _,fun _ _ => rfl⟩
  | reissueLower fd =>
    obtain ⟨file,found,rfl⟩ := Option.map_eq_some_iff.mp taken
    split
    · exact kept
    · exact kept.started trivial
  | call index action =>
    obtain ⟨call,there,moved⟩ := Option.bind_eq_some_iff.mp taken
    exact kept.call there undisturbed moved

/-- A descriptor whose generation is the inode's is on the inode's `lower_path`. -/
theorem current_generation_current_backing (path : Nat) (labels : List Label) (final : State)
    (undisturbed : Guarded step Undisturbed (fresh path) labels) (reached : run step (fresh path) labels = some final) :
    ∀ file ∈ final.files, file.lowerGen = final.backing.cutoverGen → final.backing.halfDone = false →
      file.lowerFile = final.backing.lowerPath := by
  have kept : Kept final :=
    invariant step Undisturbed Kept (fun state label next kept met taken => kept.step label met taken) _ _ _
      (kept_fresh path) undisturbed reached
  intro file member same whole
  obtain ⟨⟨read,bound,near⟩,current⟩ := kept.files file member
  refine current.2 whole ?_
  rw [read,kept.gen] at same
  unfold wrap at same near
  omega

def reissued : List Label :=
  [.openLower,.call 0 .dentryOpen,.call 0 .readGen,.writer (.lock .cutover),.writer (.swap 1),.reissueLower 0,.writer .publish,
    .writer .unlock,.reissueLower 0,.call 1 .acquire,.call 1 .readGen,.call 1 .snapshot,.call 1 .dentryOpen,.call 1 .storeFile,
    .call 1 .storeGen]

theorem reissued_on_current_backing : Guarded step Undisturbed (fresh 0) reissued ∧
    ∃ final, run step (fresh 0) reissued = some final ∧ final.files = [⟨1,1,1,none⟩] ∧
      ∀ file ∈ final.files, file.lowerGen = final.backing.cutoverGen → final.backing.halfDone = false →
        file.lowerFile = final.backing.lowerPath := by
  have undisturbed : Guarded step Undisturbed (fresh 0) reissued := by decide
  have shape : ∃ final, run step (fresh 0) reissued = some final ∧ final.files = [⟨1,1,1,none⟩] := reaches (by decide)
  obtain ⟨final,reached,files⟩ := shape
  exact ⟨undisturbed,final,reached,files,current_generation_current_backing 0 reissued final undisturbed reached⟩

theorem open_across_cutover : ∃ final,
    run step (fresh 0) [.openLower,.call 0 .dentryOpen,.writer (.lock .cutover),.writer (.swap 1),.writer .publish,
      .writer .unlock,.call 0 .readGen] = some final ∧ final.backing.halfDone = false ∧
      ∃ file ∈ final.files, file.lowerGen = final.backing.cutoverGen ∧ file.lowerFile = 0 ∧ final.backing.lowerPath = 1 :=
  reaches (by decide)

end Smoothfs.OpenLower
