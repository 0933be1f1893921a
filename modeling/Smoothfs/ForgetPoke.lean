import Mathlib.Logic.Function.Basic

/-! The poke `forget_lower`: a tier and a lower inode number, from which the module
finds an inode that it takes for dead or for moved. -/
namespace Smoothfs.ForgetPoke

open Function

structure Backing where
  tier : Nat
  file : Nat
  deriving DecidableEq, Repr

structure Inode where
  oid : Nat
  lower : Backing
  relPath : Option (List String)
  nlink : Nat
  replayPinned : Bool

/-- `ino`, `oid` and `linked` are what the lower file systems say of a file. -/
structure State where
  ntiers : Nat
  activeTiers : List Nat
  files : Nat → List String → Option Nat
  ino : Nat → Nat
  oid : Nat → Option Nat
  linked : Nat → Bool
  inodes : Nat → Option Inode
  lowerInoMap : Nat × Nat → Option Nat

def lookupRelAcrossTiers (state : State) (exclude : Nat) (rel : List String) : Option Backing :=
  if rel = [] then none
  else (state.activeTiers.filter (· ≠ exclude)).findSome? fun tier => (state.files tier rel).map (⟨tier,·⟩)

def survivor (state : State) (inode : Inode) (tier : Nat) : Option Backing :=
  inode.relPath.bind (lookupRelAcrossTiers state tier)

def mapInsert (map : Nat × Nat → Option Nat) (key : Nat × Nat) (number : Nat) : Nat × Nat → Option Nat :=
  if map key = none then update map key (some number) else map

/-- Once the object was found on another tier. -/
def relowerAfterForget (state : State) (tier lowerIno number : Nat) (inode : Inode) (found : Backing) : State :=
  let purged := update state.lowerInoMap (tier,lowerIno) none
  if inode.lower.tier ≠ tier then {state with lowerInoMap := purged}
  else {state with inodes := update state.inodes number (some {inode with lower := found}),
                   lowerInoMap := mapInsert purged (found.tier,state.ino found.file) number}

/-- The references that are put last may evict the inode. -/
def forgetTierCopy (state : State) (tier lowerIno : Nat) : State :=
  match state.lowerInoMap (tier,lowerIno) with
  | none => state
  | some number =>
    match state.inodes number with
    | none => state
    | some inode =>
      match survivor state inode tier with
      | some found => relowerAfterForget state tier lowerIno number inode found
      | none => {state with inodes := update state.inodes number (some {inode with nlink := 0, replayPinned := false})}

def forgetLowerStore (state : State) (tier lowerIno : Nat) : State :=
  if state.ntiers ≤ tier then state else forgetTierCopy state tier lowerIno

/-- Inodes whose file on the tier is linked stay as they are, and a new backing
carries the inode's identity. -/
structure Harmless (before after : State) (tier : Nat) : Prop where
  frame : ∀ number inode later, before.inodes number = some inode → after.inodes number = some later →
    inode.lower.tier = tier → before.linked inode.lower.file = true →
      later.lower = inode.lower ∧ later.nlink = inode.nlink ∧ later.replayPinned = inode.replayPinned
  same : ∀ number inode later, before.inodes number = some inode → after.inodes number = some later →
    later.lower ≠ inode.lower → before.oid later.lower.file = some inode.oid

/-- The inode that the map has for the number is not on the tier, or its file is
not linked there; and what another tier has at its path is the same object. -/
def Dead (state : State) (tier lowerIno : Nat) : Prop :=
  tier < state.ntiers → ∀ number, state.lowerInoMap (tier,lowerIno) = some number → ∀ inode, state.inodes number = some inode →
    inode.lower.tier = tier →
      match survivor state inode tier with
      | some found => state.linked inode.lower.file = false ∧ state.oid found.file = some inode.oid
      | none => state.linked inode.lower.file = false ∨ inode.nlink = 0 ∧ inode.replayPinned = false

variable {state : State} {tier lowerIno number : Nat} {inode : Inode}

theorem survivor_elsewhere {found : Backing} (there : survivor state inode tier = some found) : found.tier ≠ tier := by
  obtain ⟨rel,_,looked⟩ := Option.bind_eq_some_iff.mp there
  unfold lookupRelAcrossTiers at looked
  split at looked
  · cases looked
  · obtain ⟨other,member,resolved⟩ := List.exists_of_findSome?_eq_some looked
    obtain ⟨file,_,rfl⟩ := Option.map_eq_some_iff.mp resolved
    simpa using (List.mem_filter.mp member).2

theorem harmless_update (later : Inode) (known : state.inodes number = some inode) (map : Nat × Nat → Option Nat) :
    Harmless state {state with inodes := update state.inodes number (some later), lowerInoMap := map} tier ↔
      (inode.lower.tier = tier → state.linked inode.lower.file = true →
        later.lower = inode.lower ∧ later.nlink = inode.nlink ∧ later.replayPinned = inode.replayPinned) ∧
      (later.lower ≠ inode.lower → state.oid later.lower.file = some inode.oid) := by
  constructor
  · intro harmless
    exact ⟨harmless.frame number inode later known (update_self ..),
      harmless.same number inode later known (update_self ..)⟩
  · rintro ⟨frame,same⟩
    constructor <;> intro other before after present found <;> by_cases equal : other = number
    · subst equal
      simp_all
    · simp_all
    · subst equal
      simp_all
    · simp_all

theorem harmless_same {map : Nat × Nat → Option Nat} : Harmless state {state with lowerInoMap := map} tier := by
  constructor <;> intro number inode later present found <;> simp_all

/-- A poke is harmless exactly when it is for a dead copy of the object that
stands at its path elsewhere. -/
theorem forget_harmless_iff : Harmless state (forgetLowerStore state tier lowerIno) tier ↔ Dead state tier lowerIno := by
  unfold forgetLowerStore
  split
  · next outside => exact iff_of_true harmless_same fun inside => absurd inside (Nat.not_lt.mpr outside)
  next inside =>
  unfold forgetTierCopy
  simp only [Dead,Nat.lt_of_not_le inside,forall_const]
  cases mapped : state.lowerInoMap (tier,lowerIno) with
  | none => exact iff_of_true harmless_same (by simp)
  | some number =>
    simp only [Option.some.injEq,forall_eq']
    cases known : state.inodes number with
    | none => exact iff_of_true harmless_same (by simp)
    | some inode =>
      simp only [Option.some.injEq,forall_eq']
      cases there : survivor state inode tier with
      | none =>
        refine (harmless_update {inode with nlink := 0, replayPinned := false} known state.lowerInoMap).trans ?_
        cases state.linked inode.lower.file <;> simp [@eq_comm _ 0]
      | some found =>
        simp only [relowerAfterForget]
        split
        · next moved => exact iff_of_true harmless_same fun here => absurd here moved
        next here =>
        have other : found ≠ inode.lower := by
          rintro rfl
          exact here (survivor_elsewhere there)
        refine (harmless_update {inode with lower := found} known _).trans ?_
        cases state.linked inode.lower.file <;> simp_all

def live : Inode := ⟨7,⟨0,3⟩,some ["a"],1,true⟩

def pool (files : Nat → Option Nat) (oid : Nat) : State :=
  ⟨2,[0,1],fun tier _ => files tier,id,fun _ => some oid,fun _ => true,fun number => if number = 5 then some live else none,
    fun key => if key = (0,3) then some 5 else none⟩

/-- A linked file loses its links and its pin; and another object's file at the path takes its
place. -/
theorem poke_of_live_file :
    (forgetLowerStore (pool (fun tier => if tier = 0 then some 3 else none) 7) 0 3).inodes 5 =
      some {live with nlink := 0, replayPinned := false} ∧
    (forgetLowerStore (pool some 8) 0 3).inodes 5 = some {live with lower := ⟨1,1⟩} := by
  constructor <;> rfl

end Smoothfs.ForgetPoke
