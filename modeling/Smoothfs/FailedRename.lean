import Smoothfs.Types

/-! `smoothfs_rename_inner` up to the lower rename, and what each of its error
exits has changed by then. -/
namespace Smoothfs.FailedRename

structure Lower where
  id : Nat
  tier : Nat
  positive : Bool
  isDir : Bool
  deriving DecidableEq, Repr

/-- `oldTier` is the tier of the source's lower dentry, `parentTier` that of the new parent, and
`target` what `d_fsdata` of the new dentry holds. The other fields are the answers of the steps. -/
structure Call where
  sameParent : Bool
  source : Lower
  oldTier : Nat
  parentTier : Nat
  target : Option Lower
  objects : Nat × Option Nat
  exchange : Bool
  whiteout : Bool
  noReplace : Bool
  knownTier : Bool
  relPath : Option Errno
  materialize : Option Errno
  startRename : Option Errno
  vfsRename : Option Errno

structure Prepared where
  stale : Bool
  parent : Bool
  cleared : Bool
  deriving DecidableEq, Repr

inductive Ref
  | stale | target | parent
  deriving DecidableEq, Repr

def Prepared.taken (prepared : Prepared) (target : Option Lower) : List Ref :=
  (if prepared.stale then [.stale] else []) ++ (if !prepared.cleared && target.isSome then [.target] else []) ++
    if prepared.parent then [.parent] else []

structure Outcome where
  err : Option Errno
  fsdata : Option Lower × Option Lower
  objects : Option Nat × Option Nat
  held : List Ref
  deriving DecidableEq, Repr

/-- Whether a target that is left behind is to be dropped later, or why it cannot be. -/
def stash (call : Call) (refused : Bool) (lower : Lower) : Except Errno Bool :=
  if !lower.positive then .ok false
  else if lower.isDir || refused then .error .exdev
  else if call.noReplace then .error .eexist
  else .ok true

def prepare (call : Call) : Except Errno Prepared :=
  if call.sameParent then
    match call.target with
    | none => .ok ⟨false,false,false⟩
    | some lower =>
      if lower.tier = call.oldTier then .ok ⟨false,false,false⟩
      else (stash call (call.exchange || call.whiteout) lower).map (⟨·,false,true⟩)
  else if call.oldTier ≠ call.parentTier then
    if call.exchange || call.whiteout || !call.knownTier then .error .exdev
    else match call.target.elim (.ok false) (stash call false), call.relPath, call.materialize with
      | .error errno, _, _ | .ok _, some errno, _ | .ok _, none, some errno => .error errno
      | .ok stale, none, none => .ok ⟨stale,true,true⟩
  else
    match call.target with
    | none => .ok ⟨false,false,false⟩
    | some lower => if lower.tier = call.oldTier then .ok ⟨false,false,false⟩ else .error .exdev

def rename (call : Call) : Outcome :=
  let before : Option Nat × Option Nat := (some call.objects.1,call.objects.2)
  match prepare call with
  | .error errno => ⟨some errno,(some call.source,call.target),before,[]⟩
  | .ok prepared =>
    let fsdata := (some call.source,if prepared.cleared then none else call.target)
    match call.startRename, call.vfsRename with
    | some errno, _ => ⟨some errno,fsdata,before,(prepared.taken call.target).removeAll [.target,.parent]⟩
    | none, some errno => ⟨some errno,fsdata,before,(prepared.taken call.target).removeAll [.target,.stale,.parent]⟩
    | none, none => ⟨none,fsdata,(if call.exchange then call.objects.2 else none,some call.objects.1),[]⟩

def Unchanged (call : Call) (outcome : Outcome) : Prop :=
  outcome.err ≠ none → outcome.fsdata = (some call.source,call.target) ∧
    outcome.objects = (some call.objects.1,call.objects.2) ∧ outcome.held = []

/-- The target may be left behind: it is negative, or no directory and may be replaced. -/
def Call.replaces (call : Call) (lower : Lower) : Prop :=
  lower.positive = true → lower.isDir = false ∧ call.noReplace = false

/-- What makes the call clear the mapping of its target: within a directory a target on another
tier than the source, across directories on two tiers any target. -/
structure Clears (call : Call) (lower : Lower) : Prop where
  target : call.target = some lower
  replaces : call.replaces lower
  reached : if call.sameParent then
      lower.tier ≠ call.oldTier ∧ (lower.positive = true → call.exchange = false ∧ call.whiteout = false)
    else call.oldTier ≠ call.parentTier ∧ call.exchange = false ∧ call.whiteout = false ∧ call.knownTier = true ∧
      call.relPath = none ∧ call.materialize = none

/-- Once the mapping of a target is cleared, nothing fails. -/
def ClearedLast (call : Call) : Prop :=
  ∀ lower, Clears call lower → call.startRename = none ∧ call.vfsRename = none

variable {call : Call} {prepared : Prepared}

theorem stash_ok (refused : Bool) (lower : Lower) :
    (∃ stale, stash call refused lower = .ok stale) ↔ call.replaces lower ∧ (lower.positive = true → refused = false) := by
  unfold stash Call.replaces
  cases lower.positive <;> cases lower.isDir <;> cases refused <;> cases call.noReplace <;> simp

theorem clears_iff {lower : Lower} (there : call.target = some lower) :
    Clears call lower ↔ ∃ prepared, prepare call = .ok prepared ∧ prepared.cleared = true := by
  have shape : Clears call lower ↔ call.replaces lower ∧ _ :=
    ⟨fun clears => ⟨clears.replaces,clears.reached⟩,fun met => ⟨there,met.1,met.2⟩⟩
  rw [shape]
  unfold prepare
  simp only [there]
  cases call.sameParent with
  | true =>
    by_cases same : lower.tier = call.oldTier
    · simp [same]
    have stashed := @stash_ok call (call.exchange || call.whiteout) lower
    cases given : stash call (call.exchange || call.whiteout) lower <;> simp_all [Except.map]
  | false =>
    by_cases same : call.oldTier = call.parentTier
    · by_cases beside : lower.tier = call.oldTier <;> simp_all
    have stashed := @stash_ok call false lower
    cases given : stash call false lower <;> cases call.exchange <;> cases call.whiteout <;> cases call.knownTier <;>
      cases call.relPath <;> cases call.materialize <;> simp_all

theorem prepare_stale (ready : prepare call = .ok prepared) (kept : prepared.stale = true) :
    prepared.cleared = true ∧ call.target ≠ none := by
  unfold prepare at ready
  split at ready
  · cases found : call.target <;> simp only [found] at ready
    · cases ready
      cases kept
    · split at ready
      · cases ready
        cases kept
      · next lower elsewhere =>
        cases stashed : stash call (call.exchange || call.whiteout) lower <;> simp only [stashed] at ready
        · cases ready
        · cases ready
          simp
  · grind

theorem taken_removeAll (target : Option Lower) :
    (prepared.taken target).removeAll [.target,.parent] = (if prepared.stale then [.stale] else []) ∧
      (prepared.taken target).removeAll [.target,.stale,.parent] = [] := by
  obtain ⟨stale,parent,cleared⟩ := prepared
  unfold Prepared.taken
  generalize target.isSome = there
  revert stale parent cleared there
  decide

/-- A failed rename changes nothing exactly when nothing fails behind the point
where the mapping of a target is cleared. -/
theorem failed_rename_unchanged_iff : Unchanged call (rename call) ↔ ClearedLast call := by
  have last : ClearedLast call ↔ ∀ prepared, prepare call = .ok prepared → prepared.cleared = true → call.target ≠ none →
      call.startRename = none ∧ call.vfsRename = none := by
    constructor
    · intro met prepared ready cleared there
      obtain ⟨lower,there⟩ := Option.ne_none_iff_exists'.mp there
      exact met lower ((clears_iff there).mpr ⟨prepared,ready,cleared⟩)
    · intro met lower clears
      obtain ⟨prepared,ready,cleared⟩ := (clears_iff clears.target).mp clears
      exact met prepared ready cleared (by simp [clears.target])
  rw [last]
  unfold rename
  cases ready : prepare call with
  | error errno => simp [Unchanged]
  | ok prepared =>
    have kept := prepare_stale ready
    have mapped : (if prepared.cleared then none else call.target) = call.target ↔ (prepared.cleared = true → call.target = none) := by
      cases prepared.cleared <;> simp [eq_comm]
    simp only [Unchanged,taken_removeAll]
    cases first : call.startRename with
    | some errno =>
      grind
    | none =>
      cases second : call.vfsRename with
      | some errno => simp [mapped]
      | none => simp

def onto (startRename vfsRename : Option Errno) : Call :=
  ⟨true,⟨1,0,true,false⟩,0,0,some ⟨2,1,true,false⟩,(7,some 8),false,false,false,true,none,none,startRename,vfsRename⟩

/-- The target has lost its lower dentry, and its reference is kept when the parents cannot be
locked. -/
theorem failed_rename_clears_target :
    rename (onto none (some .eio)) = ⟨some .eio,(some ⟨1,0,true,false⟩,none),(some 7,some 8),[]⟩ ∧
    rename (onto (some .estale) none) = ⟨some .estale,(some ⟨1,0,true,false⟩,none),(some 7,some 8),[.stale]⟩ := by
  decide

end Smoothfs.FailedRename
