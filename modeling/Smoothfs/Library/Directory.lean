import Mathlib.Data.List.Infix
import Mathlib.Logic.Function.Basic

/-! Directory entries of a file system that keeps them in memory until the
directory is fsynced. A path is read upwards, from its last component to the
root, so that its tail is the directory it stands in. -/
namespace Smoothfs.Directory

open Function

/-- Which paths there are, and at which of them the disk agrees. -/
structure Entries (κ : Type) where
  present : List κ → Bool
  durable : List κ → Bool

variable {κ : Type}

namespace Entries

section Resolution

def resolves (entries : Entries κ) : List κ → Bool
  | [] => true
  | name::up => entries.present (name::up) && resolves entries up

/-- What a crash leaves when it keeps these of the entries that are not durable. -/
def crash (entries : Entries κ) (kept : List κ → Bool) : Entries κ :=
  ⟨fun path => entries.present path && (entries.durable path || kept path),fun _ => true⟩

variable {entries later : Entries κ} {path part : List κ}

theorem resolves_mono (keeps : ∀ part, part <:+ path → part ≠ [] → entries.present part = true → later.present part = true)
    (resolved : entries.resolves path = true) : later.resolves path = true := by
  induction path with
  | nil => rfl
  | cons name up ih =>
    simp only [resolves,Bool.and_eq_true] at resolved ⊢
    exact ⟨keeps _ List.suffix_rfl (List.cons_ne_nil _ _) resolved.1,
      ih (fun part above => keeps part (above.trans (List.suffix_cons _ _))) resolved.2⟩

theorem resolves_above (resolved : entries.resolves path = true) (above : part <:+ path) : entries.resolves part = true := by
  induction path with
  | nil => rw [List.suffix_nil.mp above]; rfl
  | cons name up ih =>
    rcases List.suffix_cons_iff.mp above with rfl | above
    · exact resolved
    · simp only [resolves,Bool.and_eq_true] at resolved
      exact ih resolved.2 above

theorem present_of_resolves (resolved : entries.resolves path = true) (below : path ≠ []) : entries.present path = true := by
  cases path with
  | nil => exact absurd rfl below
  | cons name up =>
    simp only [resolves,Bool.and_eq_true] at resolved
    exact resolved.1

theorem resolves_crash (kept : List κ → Bool) (resolved : entries.resolves path = true)
    (durable : ∀ part, part <:+ path → part ≠ [] → entries.durable part = true) : (entries.crash kept).resolves path = true :=
  resolves_mono (fun part above below there => by simp [crash,there,durable part above below]) resolved

theorem present_of_crash {kept : List κ → Bool} (there : (entries.crash kept).present path = true) : entries.present path = true := by
  simp only [crash,Bool.and_eq_true] at there
  exact there.1

end Resolution

variable [DecidableEq κ]

/-- Make or remove an entry; the disk does not have the change yet. -/
def set (entries : Entries κ) (path : List κ) (there : Bool) : Entries κ :=
  ⟨update entries.present path there,update entries.durable path false⟩

def fsync (entries : Entries κ) (dir : List κ) : Entries κ :=
  {entries with durable := fun path => entries.durable path || path.tail = dir}

def mkdirAll (entries : Entries κ) : List κ → Entries κ
  | [] => entries
  | name::up => if entries.present (name::up) then entries else (mkdirAll entries up).set (name::up) true

/-- With an fsync of the parent of each directory that is made. -/
def mkdirAllSync (entries : Entries κ) : List κ → Entries κ
  | [] => entries
  | name::up =>
    if entries.present (name::up) then entries else ((mkdirAllSync entries up).set (name::up) true).fsync up

variable {entries start : Entries κ} {path dir : List κ}

theorem set_present (other : List κ) (there : entries.present path = true) : (entries.set other true).present path = true := by
  by_cases same : path = other
  · simp [set,same]
  · simp [set,update_of_ne same,there]

theorem resolves_set (resolved : entries.resolves path = true) (other : List κ) : (entries.set other true).resolves path = true :=
  resolves_mono (fun _ _ _ there => set_present other there) resolved

theorem resolves_made (name : κ) (resolved : entries.resolves path = true) :
    (entries.set (name::path) true).resolves (name::path) = true := by
  rw [resolves,resolves_set resolved,Bool.and_true]
  exact update_self ..

theorem fsync_durable (durable : entries.durable path = true) : (entries.fsync dir).durable path = true := by
  simp [fsync,durable]

theorem fsync_inside (inside : path.tail = dir) : (entries.fsync dir).durable path = true := by
  simp [fsync,inside]

theorem mkdirAll_present (there : dir = [] ∨ entries.present dir = true) : entries.mkdirAll dir = entries := by
  cases dir with
  | nil => rfl
  | cons name up => simp_all [mkdirAll]

theorem mkdirAllSync_old {entries : Entries κ} (dir : List κ) (there : entries.present path = true) :
    (entries.mkdirAllSync dir).present path = true ∧
      (entries.durable path = true → (entries.mkdirAllSync dir).durable path = true) := by
  induction dir with
  | nil => exact ⟨there,id⟩
  | cons name up ih =>
    unfold mkdirAllSync
    split
    · exact ⟨there,id⟩
    next missing =>
    have different : path ≠ name::up := fun same => missing (same ▸ there)
    refine ⟨(update_of_ne different _ _).trans ih.1,fun durable => fsync_durable ?_⟩
    exact (update_of_ne different _ _).trans (ih.2 durable)

theorem mkdirAllSync_new {entries : Entries κ} {dir : List κ} (missing : entries.present path = false)
    (made : (entries.mkdirAllSync dir).present path = true) : (entries.mkdirAllSync dir).durable path = true := by
  induction dir with
  | nil => exact absurd (missing.symm.trans made) Bool.false_ne_true
  | cons name up ih =>
    unfold mkdirAllSync at made ⊢
    split at made
    · exact absurd (missing.symm.trans made) Bool.false_ne_true
    next absent =>
    rw [if_neg absent]
    by_cases same : path = name::up
    · exact fsync_inside (by rw [same]; rfl)
    · refine fsync_durable ((update_of_ne same _ _).trans (ih ?_))
      exact (update_of_ne same _ _).symm.trans made

/-- What is there and was not there at the start is on the disk. -/
def Grown (start entries : Entries κ) (path : List κ) : Prop :=
  start.present path = false → entries.present path = true → entries.durable path = true

variable (grown : Grown start entries path)
include grown

theorem Grown.fsync (dir : List κ) : Grown start (entries.fsync dir) path :=
  fun missing there => fsync_durable (grown missing there)

theorem Grown.mkdirAllSync (dir : List κ) : Grown start (entries.mkdirAllSync dir) path := by
  intro missing made
  by_cases there : entries.present path = true
  · exact (mkdirAllSync_old dir there).2 (grown missing there)
  · exact mkdirAllSync_new (by simpa using there) made

theorem Grown.set {other : List κ} (different : path ≠ other) (there : Bool) : Grown start (entries.set other there) path := by
  simpa [Grown,Entries.set,update_of_ne different] using grown

theorem Grown.unset (other : List κ) : Grown start (entries.set other false) path := by
  by_cases same : path = other
  · intro _ there
    simp [Entries.set,same] at there
  · exact grown.set same false

omit grown

end Entries

end Smoothfs.Directory
