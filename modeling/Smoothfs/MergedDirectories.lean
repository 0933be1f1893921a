import Smoothfs.Listing

/-! Directories whose entries are spread over the tiers. rmdir and rename change the
copy that the dentry holds and then, as far as that goes, the copies on the other
tiers; a directory is what all of its copies hold together. -/
namespace Smoothfs.MergedDirectories

open Listing
open ColdLookup (resolveRelPath)
open Lookup (activeTiers)

inductive Failure where
  | enoent
  | exdev
  | eexist
  | lower (error : Tree.Error)
  deriving DecidableEq, Repr

structure Lower where
  tier : Nat
  ino : Nat
  deriving DecidableEq, Repr

def AllActive (tiers : Tiers) : Prop := activeTiers tiers.pool tiers.mask = List.range tiers.pool.ntiers

instance (tiers : Tiers) : Decidable (AllActive tiers) :=
  inferInstanceAs (Decidable (activeTiers tiers.pool tiers.mask = List.range tiers.pool.ntiers))

def setTree (tiers : Tiers) (tier : Nat) (tree : TierTree) : Tiers :=
  {tiers with trees := Function.update tiers.trees tier tree}

def onActive (tiers : Tiers) (change : TierTree → TierTree) : Tiers :=
  {tiers with trees := fun tier =>
    if tier ∈ activeTiers tiers.pool tiers.mask then change (tiers.trees tier) else tiers.trees tier}

/-- The lower entry at the path while it still is the one that the dentry holds. -/
def startRemoving (tiers : Tiers) (lower : Lower) (path : List String) : Option LowerEntry :=
  ((tiers.trees lower.tier).get path).filter fun entry => entry.value.ino = lower.ino

section Rmdir

/-- The directory that is removed; `relPath` is the path recorded in its inode. -/
structure RmdirCall where
  path : List String
  lower : Option Lower
  relPath : Option (List String)
  deriving DecidableEq, Repr

def rmdirRelPathOnTier (tree : TierTree) : List String → TierTree
  | [] => tree
  | name::up =>
    match resolveRelPath tree up with
    | .ok parent => if tree.isDir (name::parent) then (tree.remove (name::parent)).toOption.getD tree else tree
    | .error _ => tree

def purgeDirTiers (tiers : Tiers) (call : RmdirCall) : Tiers :=
  onActive tiers fun tree => rmdirRelPathOnTier tree (call.relPath.getD call.path)

/-- A lower directory that is gone is no failure. -/
def rmdir (tiers : Tiers) (call : RmdirCall) : Except Failure Tiers :=
  match call.lower with
  | none => .error .enoent
  | some lower =>
    match startRemoving tiers lower call.path with
    | none => .ok (purgeDirTiers tiers call)
    | some entry =>
      if entry.isDir then
        match (tiers.trees lower.tier).remove call.path with
        | .ok tree => .ok (purgeDirTiers (setTree tiers lower.tier tree) call)
        | .error error => .error (.lower error)
      else .error (.lower .notDirectory)

end Rmdir

section Rename

/-- The tiers of the renamed entry and of the new parent's lower directory, and what a positive
target dentry holds. -/
structure RenameCall where
  old : List String
  new : List String
  oldTier : Nat
  newParentTier : Nat
  target : Option Lower
  noreplace : Bool
  deriving DecidableEq, Repr

def isDirectory (tiers : Tiers) (call : RenameCall) : Bool := (tiers.trees call.oldTier).isDir call.old

def staleTarget (tiers : Tiers) (call : RenameCall) : Except Failure (Option Lower) :=
  match call.target with
  | none => .ok none
  | some lower =>
    if (tiers.trees lower.tier).isDir call.new then .error .exdev
    else if call.noreplace then .error .eexist
    else .ok (some lower)

variable (fresh : Nat → List String → LowerInode)

def materializeParentOnTier (tiers : Tiers) (call : RenameCall) (tier : Nat) : Except Tree.Error TierTree :=
  (tiers.trees tier).mkdirAll (fresh tier) call.new.tail

def materializeParents (tiers : Tiers) (call : RenameCall) : Tiers :=
  {tiers with trees := fun tier =>
    if tier = call.oldTier ∨ isDirectory tiers call = true ∧ tier ∈ activeTiers tiers.pool tiers.mask then
      (materializeParentOnTier fresh tiers call tier).toOption.getD (tiers.trees tier)
    else tiers.trees tier}

/-- Before the lower rename. -/
def prepareRename (tiers : Tiers) (call : RenameCall) : Except Failure (Tiers × Option Lower) :=
  if call.old.tail = call.new.tail then
    if call.target.all (fun lower => lower.tier = call.oldTier) then .ok (tiers,none)
    else (staleTarget tiers call).map (Prod.mk tiers)
  else if call.oldTier ≠ call.newParentTier then
    staleTarget tiers call >>= fun stale =>
      match materializeParentOnTier fresh tiers call call.oldTier with
      | .ok _ => .ok (materializeParents fresh tiers call,stale)
      | .error error => .error (.lower error)
  else if call.target.all (fun lower => lower.tier = call.oldTier) then .ok (tiers,none)
  else .error .exdev

def dropStaleRenameTarget (tiers : Tiers) (path : List String) : Option Lower → Tiers
  | none => tiers
  | some lower =>
    match startRemoving tiers lower path with
    | some _ => setTree tiers lower.tier (((tiers.trees lower.tier).remove path).toOption.getD (tiers.trees lower.tier))
    | none => tiers

def renameRelPathOnTier (tree : TierTree) : List String → List String → TierTree
  | oldName::oldUp, newName::newUp =>
    match resolveRelPath tree oldUp, resolveRelPath tree newUp with
    | .ok oldParent, .ok newParent => (tree.rename (oldName::oldParent) (newName::newParent)).toOption.getD tree
    | _, _ => tree
  | _, _ => tree

def renameSpillTiers (tiers : Tiers) (old new : List String) : Tiers :=
  onActive tiers fun tree => renameRelPathOnTier tree old new

/-- From the lower rename on. -/
def finishRename (tiers ready : Tiers) (call : RenameCall) (stale : Option Lower) : Except Failure Tiers :=
  if call.noreplace && ((ready.trees call.oldTier).get call.new).isSome then .error .eexist
  else
    match (ready.trees call.oldTier).rename call.old call.new with
    | .error error => .error (.lower error)
    | .ok moved =>
      let placed := dropStaleRenameTarget (setTree ready call.oldTier moved) call.new stale
      .ok (if isDirectory tiers call then renameSpillTiers placed call.old call.new else placed)

def rename (tiers : Tiers) (call : RenameCall) : Except Failure Tiers :=
  prepareRename fresh tiers call >>= fun ready => finishRename tiers ready.1 call ready.2

end Rename

section Views

def tierListing (tree : TierTree) (dir : List String) : List (String × LowerEntry) :=
  match resolveRelPath tree dir with
  | .ok path => tree.children path
  | .error _ => []

def mergedListing (tiers : Tiers) (dir : List String) : List (String × LowerEntry) :=
  (List.range tiers.pool.ntiers).flatMap fun tier => tierListing (tiers.trees tier) dir

/-- The path `rest` below a directory on the tier `home`: the tier of the parent first, then all
tiers in order. -/
def view (tiers : Tiers) (home : Nat) (base : List String) : List String → Option Backing
  | [] => ((tiers.trees home).get base).map (Backing.mk home)
  | name::up =>
    match view tiers home base up with
    | none => none
    | some parent =>
      if parent.entry.isDir then
        (parent.tier::List.range tiers.pool.ntiers).findSome? fun tier =>
          ((tiers.trees tier).get (name::up ++ base)).map (Backing.mk tier)
      else none

end Views

/-- Another name that is not below the renamed directory or above it, with a directory as the target
if there is one. -/
structure RenamesDirectory (tiers : Tiers) (call : RenameCall) : Prop where
  source : isDirectory tiers call = true
  proper : call.old ≠ [] ∧ call.new ≠ []
  apart : ¬call.old <:+ call.new ∧ ¬call.new <:+ call.old
  target : ∀ lower ∈ call.target, (tiers.trees lower.tier).isDir call.new = true

def Crosses (call : RenameCall) : Prop := call.old.tail ≠ call.new.tail ∧ call.oldTier ≠ call.newParentTier

instance (call : RenameCall) : Decidable (Crosses call) := inferInstanceAs (Decidable (_ ∧ _))

/-- The tier has the new parent or gets it, and has nothing at the new name, or an empty directory for
a directory, or a file for a file. -/
structure Goes (fresh : Nat → List String → LowerInode) (tiers : Tiers) (call : RenameCall) (tier : Nat) : Prop where
  parent : (tiers.trees tier).isDir call.new.tail = true ∨
    Crosses call ∧ (materializeParentOnTier fresh tiers call tier).isOk = true
  room : (tiers.trees tier).get call.new = none ∨ (tiers.trees tier).isDir call.old = (tiers.trees tier).isDir call.new ∧
    (tiers.trees tier).children call.new = []

/-- What the tier has below the new name is not come to by the lookups that came to the directory's
own content: its parent is no directory there, or a tier that is searched before has the name. -/
def Hidden (tiers : Tiers) (call : RenameCall) (tier : Nat) : Prop :=
  ∀ name up parent, (tiers.trees tier).get (name::up ++ call.new) ≠ none → view tiers call.oldTier call.old up = some parent →
    parent.entry.isDir = true → ∃ found, view tiers call.oldTier call.old (name::up) = some found ∧
      (found.tier = parent.tier ∨ found.tier < tier)

structure Clear (fresh : Nat → List String → LowerInode) (tiers : Tiers) (call : RenameCall) : Prop where
  goes : ∀ tier < tiers.pool.ntiers, (tiers.trees tier).get call.old ≠ none → Goes fresh tiers call tier
  hidden : ∀ tier < tiers.pool.ntiers, (tiers.trees tier).get call.old = none → Hidden tiers call tier

/-- No link stands above the old or the new name. -/
def Unlinked (tree : TierTree) (call : RenameCall) : Prop := tree.Straight call.old.tail ∧ tree.Straight call.new.tail

instance (tree : TierTree) (call : RenameCall) : Decidable (Unlinked tree call) := inferInstanceAs (Decidable (_ ∧ _))

/-- On tiers without links above the names the walks to the two parents are of no account. -/
theorem renameRelPathOnTier_eq {tree : TierTree} {call : RenameCall} (plain : Unlinked tree call)
    (proper : call.old ≠ [] ∧ call.new ≠ []) (apart : ¬call.old <:+ call.new) :
    renameRelPathOnTier tree call.old call.new = (tree.rename call.old call.new).toOption.getD tree := by
  obtain ⟨old,new,_⟩ := call
  dsimp only at plain proper apart ⊢
  cases old with
  | nil => exact absurd rfl proper.1
  | cons oldName oldUp =>
    cases new with
    | nil => exact absurd rfl proper.2
    | cons newName newUp =>
      simp only [renameRelPathOnTier]
      split
      next oldParent newParent source target =>
        rw [show oldParent = oldUp from Tree.follow_straight plain.1 source,
          show newParent = newUp from Tree.follow_straight plain.2 target]
      next failed =>
      cases renamed : tree.rename (oldName::oldUp) (newName::newUp) with
      | error error => rfl
      | ok later =>
        have other : oldName::oldUp ≠ newName::newUp := fun same => apart (by rw [same])
        obtain ⟨entry,there⟩ := Option.ne_none_iff_exists'.mp (Tree.rename_spec renamed other).1
        have parent := ((Tree.rename_ok_iff there apart (List.cons_ne_nil _ _)).mp ⟨later,renamed⟩).1
        exact absurd (Tree.follow_downwards _ parent) (failed oldUp newUp (Tree.follow_downwards _ (Tree.isDir_of_get there)))

section Prepared

variable {fresh : Nat → List String → LowerInode} {tiers ready later : Tiers} {call : RenameCall} {stale : Option Lower}

theorem staleTarget_directory (valid : RenamesDirectory tiers call) (found : staleTarget tiers call = .ok stale) :
    call.target = none ∧ stale = none := by
  unfold staleTarget at found
  split at found
  next none => cases found; exact ⟨none,rfl⟩
  next lower some =>
  rw [valid.target lower some] at found
  cases found

theorem prepareRename_cases (valid : RenamesDirectory tiers call) (prepared : prepareRename fresh tiers call = .ok (ready,stale)) :
    stale = none ∧ ((¬Crosses call ∧ ready = tiers ∧ ∀ lower ∈ call.target, lower.tier = call.oldTier) ∨
      Crosses call ∧ ready = materializeParents fresh tiers call ∧ call.target = none) := by
  unfold prepareRename at prepared
  split at prepared
  next same =>
    have within : ¬Crosses call := fun crosses => crosses.1 same
    split at prepared
    next own =>
      cases prepared
      refine ⟨rfl,.inl ⟨within,rfl,?_⟩⟩
      simpa [Option.all_eq_true] using own
    next other =>
    cases found : staleTarget tiers call with
    | error error => rw [found] at prepared; cases prepared
    | ok stale =>
      obtain ⟨none,rfl⟩ := staleTarget_directory valid found
      simp [none] at other
  next apart =>
  split at prepared
  next crosses =>
    cases found : staleTarget tiers call with
    | error error => rw [found] at prepared; cases prepared
    | ok stale =>
      obtain ⟨none,rfl⟩ := staleTarget_directory valid found
      rw [found] at prepared
      split at prepared
      · cases prepared
        exact ⟨rfl,.inr ⟨⟨apart,crosses⟩,rfl,none⟩⟩
      · cases prepared
  next together =>
  have within : ¬Crosses call := fun crosses => together crosses.2
  split at prepared
  next own =>
    cases prepared
    refine ⟨rfl,.inl ⟨within,rfl,?_⟩⟩
    simpa [Option.all_eq_true] using own
  · cases prepared

theorem rename_cases (valid : RenamesDirectory tiers call) (renamed : rename fresh tiers call = .ok later) :
    ∃ ready moved, prepareRename fresh tiers call = .ok (ready,none) ∧
      (ready.trees call.oldTier).rename call.old call.new = .ok moved ∧
      later = renameSpillTiers (setTree ready call.oldTier moved) call.old call.new := by
  cases prepared : prepareRename fresh tiers call with
  | error error =>
    rw [rename,prepared] at renamed
    cases renamed
  | ok found =>
    obtain ⟨ready,stale⟩ := found
    obtain ⟨rfl,_⟩ := prepareRename_cases valid prepared
    simp only [rename,prepared,bind,Except.bind,finishRename,valid.source,dropStaleRenameTarget] at renamed
    split at renamed
    · cases renamed
    split at renamed
    · cases renamed
    next moved done =>
    cases renamed
    exact ⟨ready,moved,rfl,done,rfl⟩

/-- The prepared tree of a tier: only directories above the new name have been added. -/
structure Ready (fresh : Nat → List String → LowerInode) (tiers : Tiers) (ready : TierTree) (call : RenameCall) (tier : Nat) : Prop where
  same : ∀ path, ¬path <:+ call.new.tail → ready.get path = (tiers.trees tier).get path
  plain : Unlinked ready call
  parent : ready.isDir call.new.tail = true ↔ (tiers.trees tier).isDir call.new.tail = true ∨
    Crosses call ∧ (materializeParentOnTier fresh tiers call tier).isOk = true

theorem straight_extended {tree ready : TierTree} {values : List String → LowerInode} {path above : List String}
    (straight : tree.Straight path) (extended : Tree.Extended values tree ready above) : ready.Straight path := by
  intro part within
  by_cases made : part <:+ above
  · exact Tree.not_symlink_of_isDir (Tree.isDir_suffix extended.made made)
  · rw [extended.only part made]
    exact straight part within

theorem prepareRename_ready (valid : RenamesDirectory tiers call) (active : AllActive tiers)
    (prepared : prepareRename fresh tiers call = .ok (ready,stale)) {tier : Nat} (bound : tier < tiers.pool.ntiers)
    (plain : Unlinked (tiers.trees tier) call) : Ready fresh tiers (ready.trees tier) call tier := by
  obtain ⟨_,⟨within,rfl,_⟩ | ⟨crosses,rfl,_⟩⟩ := prepareRename_cases valid prepared
  · exact ⟨fun _ _ => rfl,plain,by simp [within]⟩
  have member : tier ∈ activeTiers tiers.pool tiers.mask := by rw [active]; exact List.mem_range.mpr bound
  simp only [materializeParents,valid.source,member,and_self,or_true]
  cases made : materializeParentOnTier fresh tiers call tier with
  | ok tree =>
    have extended := Tree.mkdirAll_spec made
    refine ⟨extended.only,⟨straight_extended plain.1 extended,straight_extended plain.2 extended⟩,?_⟩
    simp [made,crosses,Except.isOk,Except.toBool,Except.toOption,extended.made]
  | error error => exact ⟨fun _ _ => rfl,plain,by simp [made,Except.isOk,Except.toBool,Except.toOption]⟩

end Prepared

section Moving

variable {fresh : Nat → List String → LowerInode} {tiers later : Tiers} {call : RenameCall} {ready moved : TierTree} {tier : Nat}

theorem not_above_tail (valid : RenamesDirectory tiers call) (rest : List String) : ¬rest ++ call.old <:+ call.new.tail := by
  intro above
  have below : call.old <:+ rest ++ call.old := List.suffix_append rest call.old
  exact valid.apart.1 ((below.trans above).trans (List.tail_suffix _))

theorem not_suffix_tail {path : List String} (proper : path ≠ []) (rest : List String) : ¬rest ++ path <:+ path.tail := by
  intro above
  have shorter := above.length_le
  have positive := List.length_pos_of_ne_nil proper
  simp only [List.length_append,List.length_tail] at shorter
  omega

theorem Ready.old (valid : RenamesDirectory tiers call) (prepared : Ready fresh tiers ready call tier) (rest : List String) :
    ready.get (rest ++ call.old) = (tiers.trees tier).get (rest ++ call.old) :=
  prepared.same _ (not_above_tail valid rest)

theorem Ready.new (valid : RenamesDirectory tiers call) (prepared : Ready fresh tiers ready call tier) (rest : List String) :
    ready.get (rest ++ call.new) = (tiers.trees tier).get (rest ++ call.new) :=
  prepared.same _ (not_suffix_tail valid.proper.2 rest)

theorem Ready.rename_iff (valid : RenamesDirectory tiers call) (prepared : Ready fresh tiers ready call tier)
    (there : (tiers.trees tier).get call.old ≠ none) :
    (∃ moved, ready.rename call.old call.new = .ok moved) ↔ Goes fresh tiers call tier := by
  obtain ⟨source,found⟩ := Option.ne_none_iff_exists'.mp there
  have atOld : ready.get call.old = some source := (prepared.old valid []).trans found
  have atNew : ready.get call.new = (tiers.trees tier).get call.new := prepared.new valid []
  have kind : (tiers.trees tier).isDir call.old = source.isDir := by simp [Tree.isDir,valid.proper.1,found]
  have target : ready.isDir call.new = (tiers.trees tier).isDir call.new := by rw [Tree.isDir,Tree.isDir,atNew]
  have empty : ready.children call.new = [] ↔ (tiers.trees tier).children call.new = [] := by
    rw [Tree.children_eq_nil,Tree.children_eq_nil]
    exact forall_congr' fun name => by rw [show ready.get (name::call.new) = _ from prepared.new valid [name]]; rfl
  rw [Tree.rename_ok_iff atOld valid.apart.1 valid.proper.2,prepared.parent,atNew,target,empty,← kind]
  exact ⟨fun met => ⟨met.1,met.2⟩,fun goes => ⟨goes.parent,goes.room⟩⟩

/-- What the whole call makes of one tier: it carries the directory along or leaves it, and what it
has at the new name where it has none. -/
structure Outcome (fresh : Nat → List String → LowerInode) (tiers : Tiers) (later : TierTree) (call : RenameCall) (tier : Nat) : Prop where
  carried : (tiers.trees tier).get call.old ≠ none → Goes fresh tiers call tier → ∀ rest,
    later.get (rest ++ call.new) = (tiers.trees tier).get (rest ++ call.old) ∧ later.get (rest ++ call.old) = none
  stuck : (tiers.trees tier).get call.old ≠ none → ¬Goes fresh tiers call tier → later.get call.old ≠ none
  kept : (tiers.trees tier).get call.old = none → ∀ rest,
    later.get (rest ++ call.new) = (tiers.trees tier).get (rest ++ call.new) ∧ later.get (rest ++ call.old) = none

theorem outcome_moved (valid : RenamesDirectory tiers call) (prepared : Ready fresh tiers ready call tier)
    (renamed : ready.rename call.old call.new = .ok moved) : Outcome fresh tiers moved call tier := by
  have other : call.old ≠ call.new := fun same => valid.apart.1 (by rw [same])
  obtain ⟨there,_,moves⟩ := Tree.rename_spec renamed other
  have atOld : ready.get call.old = (tiers.trees tier).get call.old := prepared.old valid []
  rw [atOld] at there
  refine ⟨fun _ _ rest => ⟨?_,moves.left rest⟩,fun _ fails => ?_,fun absent => absurd absent there⟩
  · rw [moves.arrived,prepared.old valid]
  · exact absurd ((prepared.rename_iff valid there).mp ⟨moved,renamed⟩) fails

/-- On the tier of the call the spill rename finds the old name gone. -/
theorem outcome_first (valid : RenamesDirectory tiers call) (prepared : Ready fresh tiers ready call tier)
    (renamed : ready.rename call.old call.new = .ok moved) :
    Outcome fresh tiers (renameRelPathOnTier moved call.old call.new) call tier := by
  have other : call.old ≠ call.new := fun same => valid.apart.1 (by rw [same])
  obtain ⟨_,_,moves⟩ := Tree.rename_spec renamed other
  have above (path : List String) (short : path <:+ call.old.tail ∨ path <:+ call.new.tail) : moved.get path = ready.get path := by
    apply moves.kept path
    · intro below
      rcases short with short | short
      · exact not_suffix_tail valid.proper.1 [] (below.trans short)
      · exact valid.apart.1 ((below.trans short).trans (List.tail_suffix _))
    · intro below
      rcases short with short | short
      · exact valid.apart.2 ((below.trans short).trans (List.tail_suffix _))
      · exact not_suffix_tail valid.proper.2 [] (below.trans short)
  have plain : Unlinked moved call := by
    refine ⟨fun part within => ?_,fun part within => ?_⟩
    · rw [above part (.inl ((List.mem_tails _ _).mp within))]
      exact prepared.plain.1 part within
    · rw [above part (.inr ((List.mem_tails _ _).mp within))]
      exact prepared.plain.2 part within
  have still : renameRelPathOnTier moved call.old call.new = moved := by
    rw [renameRelPathOnTier_eq plain valid.proper valid.apart.1]
    simp [Tree.rename,show moved.get call.old = none from moves.left [],Except.toOption]
  rw [still]
  exact outcome_moved valid prepared renamed

theorem outcome_spill (valid : RenamesDirectory tiers call) (prepared : Ready fresh tiers ready call tier) :
    Outcome fresh tiers (renameRelPathOnTier ready call.old call.new) call tier := by
  have atOld : ready.get call.old = (tiers.trees tier).get call.old := prepared.old valid []
  rw [renameRelPathOnTier_eq prepared.plain valid.proper valid.apart.1]
  cases renamed : ready.rename call.old call.new with
  | ok moved => exact outcome_moved valid prepared renamed
  | error error =>
    refine ⟨fun there goes => ?_,fun there _ => ?_,fun absent rest => ⟨prepared.new valid rest,?_⟩⟩
    · obtain ⟨moved,done⟩ := (prepared.rename_iff valid there).mpr goes
      rw [renamed] at done
      cases done
    · exact atOld.symm ▸ there
    · exact (prepared.old valid rest).trans (Tree.get_below absent valid.proper.1)

theorem rename_outcome (valid : RenamesDirectory tiers call) (active : AllActive tiers)
    (renamed : rename fresh tiers call = .ok later) (bound : tier < tiers.pool.ntiers) (plain : Unlinked (tiers.trees tier) call) :
    Outcome fresh tiers (later.trees tier) call tier := by
  obtain ⟨ready,moved,prepared,first,rfl⟩ := rename_cases valid renamed
  have stands := prepareRename_ready valid active prepared bound plain
  have shared : ready.pool = tiers.pool ∧ ready.mask = tiers.mask := by
    obtain ⟨_,⟨_,rfl,_⟩ | ⟨_,rfl,_⟩⟩ := prepareRename_cases valid prepared
    · exact ⟨rfl,rfl⟩
    · exact ⟨rfl,rfl⟩
  have member : tier ∈ activeTiers ready.pool ready.mask := by
    rw [shared.1,shared.2,active]
    exact List.mem_range.mpr bound
  simp only [renameSpillTiers,onActive,setTree,member]
  by_cases own : tier = call.oldTier
  · subst own
    rw [Function.update_self]
    exact outcome_first valid stands first
  · rw [Function.update_of_ne own]
    exact outcome_spill valid stands

end Moving

section Viewing

variable {tiers later : Tiers} {call : RenameCall}

/-- The tier that a shown entry is on has the directory. -/
theorem view_spec (inside : call.oldTier < tiers.pool.ntiers) {rest : List String} {found : Backing}
    (seen : view tiers call.oldTier call.old rest = some found) :
    found.tier < tiers.pool.ntiers ∧ (tiers.trees found.tier).get (rest ++ call.old) = some found.entry := by
  induction rest generalizing found with
  | nil =>
    obtain ⟨entry,there,rfl⟩ := Option.map_eq_some_iff.mp seen
    exact ⟨inside,there⟩
  | cons name up ih =>
    unfold view at seen
    split at seen
    · cases seen
    next parent above =>
    split at seen
    · obtain ⟨tier,member,here⟩ := List.exists_of_findSome?_eq_some seen
      obtain ⟨entry,there,rfl⟩ := Option.map_eq_some_iff.mp here
      refine ⟨?_,there⟩
      rcases List.mem_cons.mp member with same | member
      · rw [same]
        exact (@ih parent above).1
      · exact List.mem_range.mp member
    · cases seen

theorem view_had (inside : call.oldTier < tiers.pool.ntiers) (proper : call.old ≠ []) {rest : List String} {found : Backing}
    (seen : view tiers call.oldTier call.old rest = some found) : (tiers.trees found.tier).get call.old ≠ none := by
  intro absent
  have there := (view_spec inside seen).2
  rw [Tree.get_below absent proper] at there
  cases there

/-- Searched one after the other, the parent's tier comes first and then a lower number before a higher one. -/
theorem searched_before {first count tier : Nat} {before after : List Nat} {other : Nat}
    (order : first::List.range count = before ++ tier::after) :
    (other ∈ before → other = first ∨ other < tier) ∧ (other ∈ after → tier = first ∨ tier < other) := by
  cases before with
  | nil =>
    cases order
    exact ⟨nofun,fun _ => .inl rfl⟩
  | cons head before =>
    obtain ⟨rfl,rest⟩ := List.cons.inj order
    have sorted := @List.pairwise_lt_range count
    rw [show List.range count = before ++ tier::after from rest,List.pairwise_append,List.pairwise_cons] at sorted
    constructor
    · intro member
      exact (List.mem_cons.mp member).imp_right fun member => sorted.2.2 other member tier List.mem_cons_self
    · intro member
      exact .inr (sorted.2.1.1 other member)

variable (pool : later.pool = tiers.pool) (inside : call.oldTier < tiers.pool.ntiers) (proper : call.old ≠ [])
  (kept : ∀ tier < tiers.pool.ntiers, (tiers.trees tier).get call.old = none → ∀ rest,
    (later.trees tier).get (rest ++ call.new) = (tiers.trees tier).get (rest ++ call.new))
include pool inside proper kept

theorem view_of_hidden
    (carried : ∀ tier < tiers.pool.ntiers, (tiers.trees tier).get call.old ≠ none → ∀ rest,
      (later.trees tier).get (rest ++ call.new) = (tiers.trees tier).get (rest ++ call.old))
    (hidden : ∀ tier < tiers.pool.ntiers, (tiers.trees tier).get call.old = none → Hidden tiers call tier)
    (home : (tiers.trees call.oldTier).get call.old ≠ none) (rest : List String) :
    view later call.oldTier call.new rest = view tiers call.oldTier call.old rest := by
  induction rest with
  | nil =>
    have arrived := carried call.oldTier inside home []
    simp only [List.nil_append] at arrived
    simp only [view,arrived]
  | cons name up ih =>
    rw [view,ih]
    cases above : view tiers call.oldTier call.old up with
    | none => simp only [view,above]
    | some parent =>
      by_cases directory : parent.entry.isDir = true
      swap
      · simp only [view,above,directory,Bool.false_eq_true,if_false]
      have within (tier : Nat) (member : tier ∈ parent.tier::List.range tiers.pool.ntiers) : tier < tiers.pool.ntiers :=
        (List.mem_cons.mp member).elim (fun same => same ▸ (view_spec inside above).1) List.mem_range.mp
      have searched : view tiers call.oldTier call.old (name::up) =
          (parent.tier::List.range tiers.pool.ntiers).findSome? fun tier =>
            ((tiers.trees tier).get (name::up ++ call.old)).map (Backing.mk tier) := by
        simp only [view,above,directory,if_true]
      -- A tier without the directory may have something of its own there, but then it is not come to.
      have passed (tier : Nat) (bound : tier < tiers.pool.ntiers)
          (lacks : (tiers.trees tier).get (name::up ++ call.old) = none)
          (early : (tiers.trees tier).get call.old = none → ∀ found,
            view tiers call.oldTier call.old (name::up) = some found → ¬(found.tier = parent.tier ∨ found.tier < tier)) :
          (later.trees tier).get (name::up ++ call.new) = none := by
        by_cases there : (tiers.trees tier).get call.old = none
        · rw [kept tier bound there]
          by_contra stray
          obtain ⟨found,seen,before⟩ := hidden tier bound there name up parent stray above directory
          exact early there found seen before
        · rw [carried tier bound there,lacks]
      simp only [directory,if_true,pool]
      cases seen : view tiers call.oldTier call.old (name::up) with
      | none =>
        rw [searched,List.findSome?_eq_none_iff] at seen
        rw [List.findSome?_eq_none_iff]
        intro tier member
        have none : (later.trees tier).get (name::up ++ call.new) = none := by
          refine passed tier (within tier member) (Option.map_eq_none_iff.mp (seen tier member)) fun _ found other => ?_
          rw [searched,List.findSome?_eq_none_iff.mpr seen] at other
          cases other
        rw [none,Option.map_none]
      | some found =>
        have had := view_had inside proper seen
        have shown := seen
        rw [searched] at seen
        obtain ⟨before,tier,after,order,here,earlier⟩ := List.findSome?_eq_some_iff.mp seen
        have own : found.tier = tier := by
          obtain ⟨entry,_,rfl⟩ := Option.map_eq_some_iff.mp here
          rfl
        subst own
        rw [List.findSome?_eq_some_iff]
        refine ⟨before,found.tier,after,order,?_,fun other member => ?_⟩
        · rw [carried _ (view_spec inside shown).1 had]
          exact here
        have none := Option.map_eq_none_iff.mp (earlier other member)
        have bound := within other (order ▸ List.mem_append_left _ member)
        rw [passed other bound none ?_,Option.map_none]
        intro absent same seen
        rw [shown] at seen
        cases seen
        rintro (first | less)
        · cases before with
          | nil => cases member
          | cons head rest =>
            have start := (List.cons.inj order).1
            have missing := Option.map_eq_none_iff.mp (earlier head List.mem_cons_self)
            rw [← start,← first,(view_spec inside shown).2] at missing
            cases missing
        · rcases (searched_before order).1 member with start | more
          · rw [start] at absent
            exact view_had inside proper above absent
          · exact absurd less (Nat.lt_asymm more)

theorem hidden_of_view (same : ∀ rest, view later call.oldTier call.new rest = view tiers call.oldTier call.old rest)
    {tier : Nat} (bound : tier < tiers.pool.ntiers) (absent : (tiers.trees tier).get call.old = none) : Hidden tiers call tier := by
  intro name up parent stray above directory
  have shown := same (name::up)
  rw [view,same up,above] at shown
  simp only [directory,if_true,pool] at shown
  have has : ((later.trees tier).get (name::up ++ call.new)).map (Backing.mk tier) ≠ none := by
    rw [kept tier bound absent]
    simpa using stray
  have member : tier ∈ parent.tier::List.range tiers.pool.ntiers := List.mem_cons_of_mem _ (List.mem_range.mpr bound)
  cases seen : view tiers call.oldTier call.old (name::up) with
  | none =>
    rw [seen,List.findSome?_eq_none_iff] at shown
    exact absurd (shown tier member) has
  | some found =>
    have had := view_had inside proper seen
    rw [seen] at shown
    obtain ⟨before,first,after,order,here,earlier⟩ := List.findSome?_eq_some_iff.mp shown
    have own : found.tier = first := by
      obtain ⟨entry,_,rfl⟩ := Option.map_eq_some_iff.mp here
      rfl
    subst own
    refine ⟨found,rfl,?_⟩
    rw [order,List.mem_append,List.mem_cons] at member
    rcases member with prior | rfl | later
    · exact absurd (earlier tier prior) has
    · exact absurd absent had
    · exact (searched_before order).2 later

end Viewing

/-- Each path below the new name shows what the same path below the old one showed, and nothing is
left below the old name. -/
theorem directory_rename_moves_everything (fresh : Nat → List String → LowerInode) (tiers later : Tiers) (call : RenameCall)
    (active : AllActive tiers) (inside : call.oldTier < tiers.pool.ntiers) (valid : RenamesDirectory tiers call)
    (plain : ∀ tier < tiers.pool.ntiers, Unlinked (tiers.trees tier) call) (renamed : rename fresh tiers call = .ok later) :
    ((∀ rest, view later call.oldTier call.new rest = view tiers call.oldTier call.old rest) ∧
      ∀ tier < tiers.pool.ntiers, ∀ rest, (later.trees tier).get (rest ++ call.old) = none) ↔ Clear fresh tiers call := by
  have outcome (tier : Nat) (bound : tier < tiers.pool.ntiers) := rename_outcome valid active renamed bound (plain tier bound)
  have pool : later.pool = tiers.pool := by
    obtain ⟨ready,moved,prepared,_,rfl⟩ := rename_cases valid renamed
    obtain ⟨_,⟨_,rfl,_⟩ | ⟨_,rfl,_⟩⟩ := prepareRename_cases valid prepared
    · rfl
    · rfl
  have home : (tiers.trees call.oldTier).get call.old ≠ none := by
    rcases Tree.isDir_iff.mp valid.source with root | ⟨entry,there,_⟩
    · exact absurd root valid.proper.1
    · rw [there]
      exact Option.some_ne_none _
  have kept (tier : Nat) (bound : tier < tiers.pool.ntiers) (absent : (tiers.trees tier).get call.old = none) (rest : List String) :=
    ((outcome tier bound).kept absent rest).1
  constructor
  · rintro ⟨same,left⟩
    have goes (tier : Nat) (bound : tier < tiers.pool.ntiers) (there : (tiers.trees tier).get call.old ≠ none) :
        Goes fresh tiers call tier := by
      by_contra fails
      exact (outcome tier bound).stuck there fails (left tier bound [])
    exact ⟨goes,fun tier bound absent => hidden_of_view pool inside valid.proper.1 kept same bound absent⟩
  · rintro ⟨goes,hidden⟩
    have carried (tier : Nat) (bound : tier < tiers.pool.ntiers) (there : (tiers.trees tier).get call.old ≠ none) (rest : List String) :=
      ((outcome tier bound).carried there (goes tier bound there) rest).1
    refine ⟨view_of_hidden pool inside valid.proper.1 kept carried hidden home,fun tier bound rest => ?_⟩
    by_cases there : (tiers.trees tier).get call.old = none
    · exact ((outcome tier bound).kept there rest).2
    · exact ((outcome tier bound).carried there (goes tier bound there) rest).2

private def numbered (tier : Nat) (path : List String) : LowerInode := ⟨100 + 10 * tier + path.length,none⟩

private def twoTiers (first second : TierTree) : Tiers :=
  ⟨⟨2,0,false,false,false,false⟩,3,fun tier => ⟨tier,none⟩,fun tier => if tier = 0 then first else second⟩

private def emptyDirs : TierTree := ⟨[(["d"],⟨.dir,⟨2,none⟩⟩),(["e"],⟨.dir,⟨3,none⟩⟩)],by decide,by decide,by decide⟩

private def fileInDir : TierTree := ⟨[(["d"],⟨.dir,⟨2,none⟩⟩),(["f","d"],⟨.leaf,⟨4,none⟩⟩)],by decide,by decide,by decide⟩

private def fileAndDir : TierTree :=
  ⟨[(["d"],⟨.dir,⟨2,none⟩⟩),(["f","d"],⟨.leaf,⟨4,none⟩⟩),(["e"],⟨.dir,⟨5,none⟩⟩)],by decide,by decide,by decide⟩

private def intoDir : RenameCall := ⟨["d"],["d","e"],0,0,none,false⟩

theorem spread_directory_moves :
    let tiers := twoTiers emptyDirs fileAndDir
    ∃ later, rename numbered tiers intoDir = .ok later ∧ view tiers 0 ["d"] ["f"] = some ⟨1,⟨.leaf,⟨4,none⟩⟩⟩ ∧
      (∀ rest, view later 0 ["d","e"] rest = view tiers 0 ["d"] rest) ∧
        ∀ tier < 2, ∀ rest, (later.trees tier).get (rest ++ ["d"]) = none := by
  obtain ⟨later,renamed⟩ : ∃ later, rename numbered (twoTiers emptyDirs fileAndDir) intoDir = .ok later := ⟨_,rfl⟩
  have valid : RenamesDirectory (twoTiers emptyDirs fileAndDir) intoDir :=
    ⟨by decide +kernel,by decide,by decide,by simp [intoDir]⟩
  have everywhere : ∀ tier < 2, ((twoTiers emptyDirs fileAndDir).trees tier).get ["d"] ≠ none ∧
      ((twoTiers emptyDirs fileAndDir).trees tier).isDir ["e"] = true ∧
      ((twoTiers emptyDirs fileAndDir).trees tier).get ["d","e"] = none := by decide +kernel
  have clear : Clear numbered (twoTiers emptyDirs fileAndDir) intoDir :=
    ⟨fun tier bound _ => ⟨.inl (everywhere tier bound).2.1,.inl (everywhere tier bound).2.2⟩,
      fun tier bound absent => absurd absent (everywhere tier bound).1⟩
  exact ⟨later,renamed,by decide +kernel,(directory_rename_moves_everything numbered _ later intoDir (by decide +kernel)
    (by decide) valid (by decide +kernel) renamed).mpr clear⟩

/-- Without the new parent on the second tier the file stays under the old name. -/
theorem spread_directory_torn :
    let tiers := twoTiers emptyDirs fileInDir
    AllActive tiers ∧ RenamesDirectory tiers intoDir ∧ ∃ later, rename numbered tiers intoDir = .ok later ∧
      view tiers 0 ["d"] ["f"] = some ⟨1,⟨.leaf,⟨4,none⟩⟩⟩ ∧ view later 0 ["d","e"] ["f"] = none ∧
        (later.trees 1).get ["f","d"] = some ⟨.leaf,⟨4,none⟩⟩ :=
  ⟨by decide +kernel,⟨by decide +kernel,by decide,by decide,by simp [intoDir]⟩,_,rfl,
    by decide +kernel,by decide +kernel,by decide +kernel⟩

section Emptiness

variable {fresh : Nat → List String → LowerInode} {tiers later : Tiers} {tier : Nat} {dir : List String}

def OthersEmpty (tiers : Tiers) (tier : Nat) (dir : List String) : Prop :=
  ∀ other < tiers.pool.ntiers, other ≠ tier → tierListing (tiers.trees other) dir = []

instance (tiers : Tiers) (tier : Nat) (dir : List String) : Decidable (OthersEmpty tiers tier dir) :=
  inferInstanceAs (Decidable (∀ other < tiers.pool.ntiers, _ → _))

theorem mergedListing_eq_nil : mergedListing tiers dir = [] ↔ ∀ tier < tiers.pool.ntiers, tierListing (tiers.trees tier) dir = [] := by
  simp [mergedListing]

theorem mergedListing_of_own (directory : (tiers.trees tier).isDir dir = true) (own : (tiers.trees tier).children dir = []) :
    mergedListing tiers dir = [] ↔ OthersEmpty tiers tier dir := by
  rw [mergedListing_eq_nil]
  constructor
  · intro all other bound _
    exact all other bound
  · intro others other bound
    by_cases same : other = tier
    · have reached : resolveRelPath (tiers.trees tier) dir = .ok dir := Tree.follow_downwards _ directory
      rw [same]
      simp [tierListing,reached,own]
    · exact others other bound same

/-- The directory removed is empty on its own tier only if it is so on the others; one that is not
where its dentry has it is empty everywhere. -/
def RmdirSees (tiers : Tiers) (lower : Lower) (path : List String) : Prop :=
  if startRemoving tiers lower path = none then ∀ tier < tiers.pool.ntiers, tierListing (tiers.trees tier) path = []
  else (tiers.trees lower.tier).isDir path = true → (tiers.trees lower.tier).children path = [] → OthersEmpty tiers lower.tier path

theorem rmdir_ok_iff {call : RmdirCall} {lower : Lower} (own : call.lower = some lower) :
    (∃ later, rmdir tiers call = .ok later) ↔ startRemoving tiers lower call.path = none ∨
      (tiers.trees lower.tier).isDir call.path = true ∧ (tiers.trees lower.tier).children call.path = [] := by
  simp only [rmdir,own]
  cases there : startRemoving tiers lower call.path with
  | none => simp
  | some entry =>
    have found := (Option.filter_eq_some_iff.mp there).1
    have proper : call.path ≠ [] := by
      intro root
      rw [root,Tree.get_root] at found
      cases found
    have kind : (tiers.trees lower.tier).isDir call.path = entry.isDir := by simp [Tree.isDir,proper,found]
    simp only [kind,reduceCtorEq,false_or]
    cases directory : entry.isDir with
    | false => simp
    | true =>
      simp only [if_true,true_and]
      constructor
      · rintro ⟨later,removed⟩
        split at removed
        next tree taken => exact Tree.children_of_remove taken
        · cases removed
      · intro empty
        obtain ⟨tree,taken⟩ := Tree.remove_ok empty
        exact ⟨_,by rw [taken]⟩

/-- The rename is carried out on the target's tier. -/
structure Replaces (call : RenameCall) (lower : Lower) : Prop where
  together : lower.tier = call.oldTier
  within : ¬Crosses call
  plain : call.noreplace = false

theorem rename_ok_iff {call : RenameCall} {lower : Lower} (valid : RenamesDirectory tiers call) (target : call.target = some lower) :
    (∃ later, rename fresh tiers call = .ok later) ↔
      Replaces call lower ∧ (tiers.trees lower.tier).children call.new = [] := by
  have directory := valid.target lower target
  obtain ⟨entry,there,kind⟩ := (Tree.isDir_iff.mp directory).resolve_left valid.proper.2
  have other : call.old ≠ call.new := fun same => valid.apart.1 (by rw [same])
  constructor
  · rintro ⟨later,renamed⟩
    obtain ⟨ready,moved,prepared,first,_⟩ := rename_cases valid renamed
    obtain ⟨_,⟨within,rfl,own⟩ | ⟨_,_,none⟩⟩ := prepareRename_cases valid prepared
    · refine ⟨⟨own lower target,within,?_⟩,?_⟩
      · by_contra noreplace
        have together := own lower target
        rw [together] at there
        simp [rename,prepared,bind,Except.bind,finishRename,noreplace,there] at renamed
      · rw [own lower target,Tree.children_eq_nil]
        exact fun name => (Tree.rename_spec first other).2.1 [name] (List.cons_ne_nil _ _)
    · rw [none] at target
      cases target
  · rintro ⟨⟨together,within,plain⟩,empty⟩
    rw [together] at there empty directory
    have prepared : prepareRename fresh tiers call = .ok (tiers,none) := by
      unfold prepareRename
      simp only [target,Option.all_some,together,decide_true,if_true]
      split
      · rfl
      · next apart =>
        rw [if_neg fun crosses => within ⟨apart,crosses⟩]
    obtain ⟨source,found,sourceDir⟩ := (Tree.isDir_iff.mp valid.source).resolve_left valid.proper.1
    have parent : (tiers.trees call.oldTier).isDir call.new.tail = true := Tree.isDir_tail directory
    obtain ⟨moved,renamed⟩ := (Tree.rename_ok_iff found valid.apart.1 valid.proper.2).mpr
      ⟨parent,.inr ⟨by rw [sourceDir,directory],empty⟩⟩
    exact ⟨_,by simp [rename,prepared,bind,Except.bind,finishRename,plain,renamed]; rfl⟩

def RenameSees (tiers : Tiers) (call : RenameCall) (lower : Lower) : Prop :=
  Replaces call lower → (tiers.trees lower.tier).children call.new = [] → OthersEmpty tiers lower.tier call.new

end Emptiness

/-- A directory is removed or replaced only when its merged listing is empty. -/
theorem removed_or_replaced_empty (fresh : Nat → List String → LowerInode) (tiers : Tiers) :
    (∀ call lower, call.lower = some lower →
      ((∀ later, rmdir tiers call = .ok later → mergedListing tiers call.path = []) ↔ RmdirSees tiers lower call.path)) ∧
    ∀ call lower, RenamesDirectory tiers call → call.target = some lower →
      ((∀ later, rename fresh tiers call = .ok later → mergedListing tiers call.new = []) ↔ RenameSees tiers call lower) := by
  constructor
  · intro call lower own
    rw [← exists_imp,rmdir_ok_iff own,RmdirSees]
    split
    next gone =>
      simp only [gone,true_or,forall_const]
      exact mergedListing_eq_nil
    next there =>
      simp only [there,false_or,and_imp]
      exact forall_congr' fun directory => forall_congr' fun empty => mergedListing_of_own directory empty
  · intro call lower valid target
    rw [← exists_imp,rename_ok_iff valid target,RenameSees,and_imp]
    exact forall_congr' fun _ => forall_congr' fun empty => mergedListing_of_own (valid.target lower target) empty

private def removesDir : RmdirCall := ⟨["d"],some ⟨0,2⟩,none⟩

private def ontoDir : RenameCall := ⟨["e"],["d"],0,0,some ⟨0,2⟩,false⟩

theorem empty_directory_removed :
    let tiers := twoTiers emptyDirs emptyDirs
    (rmdir tiers removesDir).isOk = true ∧ (rename numbered tiers ontoDir).isOk = true ∧ mergedListing tiers ["d"] = [] := by
  obtain ⟨later,removed⟩ : ∃ later, rmdir (twoTiers emptyDirs emptyDirs) removesDir = .ok later := ⟨_,rfl⟩
  have there : startRemoving (twoTiers emptyDirs emptyDirs) ⟨0,2⟩ ["d"] ≠ none := by decide +kernel
  have others : OthersEmpty (twoTiers emptyDirs emptyDirs) 0 ["d"] := by decide +kernel
  have sees : RmdirSees (twoTiers emptyDirs emptyDirs) ⟨0,2⟩ ["d"] := by
    rw [RmdirSees,if_neg there]
    exact fun _ _ => others
  exact ⟨by rw [removed]; rfl,rfl,
    ((removed_or_replaced_empty numbered (twoTiers emptyDirs emptyDirs)).1 removesDir ⟨0,2⟩ rfl).mpr sees later removed⟩

theorem full_directory_removed_and_replaced :
    let tiers := twoTiers emptyDirs fileInDir
    AllActive tiers ∧ (rmdir tiers removesDir).isOk = true ∧
      RenamesDirectory tiers ontoDir ∧ (rename numbered tiers ontoDir).isOk = true ∧
        mergedListing tiers ["d"] = [("f",⟨.leaf,⟨4,none⟩⟩)] :=
  ⟨by decide +kernel,rfl,⟨by decide +kernel,by decide,by decide,by decide +kernel⟩,rfl,by decide +kernel⟩

end Smoothfs.MergedDirectories
