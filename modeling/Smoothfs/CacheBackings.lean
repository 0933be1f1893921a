import Smoothfs.Types
import Smoothfs.Library.Walk

/-! The check that the control plane makes before it creates a pool in cache mode:
every tier above the base is walked, and what it has must stand on the base too. -/
namespace Smoothfs.CacheBackings
open Smoothfs.Tree (Entry Kind Reaches)

inductive Special
  | fifo | socket | blockDevice | charDevice
  deriving DecidableEq, Repr

structure File where
  special : Option Special
  content : Bytes
  deriving DecidableEq, Repr

inductive FileType
  | regular | directory | symlink | special (kind : Special)
  deriving DecidableEq, Repr

def fileType (entry : Entry String File) : FileType :=
  match entry.kind with
  | .dir => .directory
  | .symlink _ _ => .symlink
  | .leaf =>
    match entry.value.special with
    | none => .regular
    | some kind => .special kind

/-- A tier: its tree, and whether its path is that of a symbolic link. -/
structure Backing where
  tree : Tree String File
  linked : Bool

def Backing.root (backing : Backing) : Entry String File :=
  ⟨if backing.linked then .symlink false [] else .dir,⟨none,[]⟩⟩

inductive Failure
  | noBase
  | withoutCopy (rel : List String)
  | otherType (rel : List String)
  deriving DecidableEq, Repr

def reserved : List String := [".smoothfs",".tierd-meta","lost+found"]

def visit (base : Tree String File) (rel : List String) (entry : Entry String File) : Except Failure Bool :=
  match rel with
  | [] => .ok false
  | name::up =>
    if entry.isDir = true ∧ up = [] ∧ name ∈ reserved then .ok true
    else
      match base.get (name::up) with
      | none => .error (.withoutCopy (name::up))
      | some copy => if fileType entry = fileType copy then .ok false else .error (.otherType (name::up))

def validateCacheBackings (tiers : List Backing) : Except Failure Unit :=
  if tiers.length < 2 then .error .noBase
  else
    match tiers.getLast? with
    | none => .error .noBase
    | some base => forM tiers.dropLast fun cache => cache.tree.walkDir (· ≤ ·) (visit base.tree) cache.root

def Outside (tree : Tree String File) (path : List String) : Prop :=
  ∀ top, path.getLast? = some top → top ∈ reserved → tree.isDir [top] = false

def Copied (base : Tree String File) (path : List String) (entry : Entry String File) : Prop :=
  ∃ copy, base.get path = some copy ∧ fileType entry = fileType copy

variable {base tree : Tree String File} {path : List String} {entry : Entry String File}

variable {name : String}

theorem Outside.parent (outside : Outside tree (name::path)) : Outside tree path := by
  intro top last
  cases path with
  | nil => cases last
  | cons next up => exact outside top (by rw [List.getLast?_cons_cons]; exact last)

theorem visit_outside (found : tree.get path = some entry) (outside : Outside tree path) {skipped : Bool}
    (seen : visit base path entry = .ok skipped) : skipped = false ∧ Copied base path entry := by
  cases path with
  | nil => rw [Tree.get_root] at found; cases found
  | cons name up =>
    have checked : ¬ (entry.isDir = true ∧ up = [] ∧ name ∈ reserved) := by
      rintro ⟨directory,rfl,listed⟩
      have flat := outside name rfl listed
      rw [Tree.isDir_iff.mpr (.inr ⟨entry,found,directory⟩)] at flat
      cases flat
    unfold visit at seen
    dsimp only at seen
    rw [if_neg checked] at seen
    cases there : base.get (name::up) with
    | none => rw [there] at seen; cases seen
    | some copy =>
      rw [there] at seen
      dsimp only at seen
      split at seen
      · next same =>
        cases seen
        exact ⟨rfl,copy,there,same⟩
      · cases seen

theorem visit_copied (copied : Copied base path entry) : ∃ skipped, visit base path entry = .ok skipped := by
  obtain ⟨copy,there,same⟩ := copied
  cases path with
  | nil => exact ⟨false,rfl⟩
  | cons name up =>
    unfold visit
    dsimp only
    split
    · exact ⟨true,rfl⟩
    · rw [there]
      exact ⟨false,if_pos same⟩

variable {root : Entry String File}

theorem reaches_outside (directory : root.isDir = true)
    (quiet : ∀ path entry, Reaches tree (visit base) [] root path entry → ∃ skipped, visit base path entry = .ok skipped)
    (found : tree.get path = some entry) (outside : Outside tree path) : Reaches tree (visit base) [] root path entry := by
  induction path generalizing entry with
  | nil => rw [Tree.get_root] at found; cases found
  | cons name up ih =>
    rcases Tree.isDir_iff.mp (Tree.isDir_of_get found) with rfl | ⟨parent,there,inside⟩
    · exact .inside .here directory rfl found
    have reached := ih there outside.parent
    obtain ⟨skipped,seen⟩ := quiet up parent reached
    obtain ⟨rfl,_⟩ := visit_outside there outside.parent seen
    exact .inside reached inside seen found

theorem Outside.child (proper : path ≠ []) (outside : Outside tree path) (name : String) : Outside tree (name::path) := by
  intro top last
  obtain ⟨next,up,rfl⟩ := List.exists_cons_of_ne_nil proper
  exact outside top last

theorem outside_top (found : tree.get [name] = some entry) (kept : ¬ (entry.isDir = true ∧ name ∈ reserved)) :
    Outside tree [name] := by
  intro top last listed
  cases last
  cases flat : entry.isDir with
  | true => exact absurd ⟨flat,listed⟩ kept
  | false => simp [Tree.isDir,found,flat]

theorem outside_of_entered (reaches : Reaches tree (visit base) [] root path entry)
    (directory : entry.isDir = true) (entered : visit base path entry = .ok false) (proper : path ≠ []) : Outside tree path := by
  induction reaches with
  | here => exact absurd rfl proper
  | @inside up parent name child above inside opened found ih =>
    by_cases top : up = []
    · subst top
      refine outside_top found fun skipped => ?_
      have seen : visit base [name] child = .ok true := if_pos ⟨skipped.1,rfl,skipped.2⟩
      rw [seen] at entered
      cases entered
    · exact (ih inside opened top).child top name

theorem outside_of_reaches (reaches : Reaches tree (visit base) [] root path entry) :
    (∃ skipped, visit base path entry = .ok skipped) ∨ tree.get path = some entry ∧ Outside tree path := by
  cases reaches with
  | here => exact .inl ⟨false,rfl⟩
  | @inside up parent name _ above inside opened found =>
    by_cases top : up = []
    · subst top
      by_cases skipped : entry.isDir = true ∧ name ∈ reserved
      · exact .inl ⟨true,if_pos ⟨skipped.1,rfl,skipped.2⟩⟩
      · exact .inr ⟨found,outside_top found skipped⟩
    · exact .inr ⟨found,(outside_of_entered above inside opened top).child top name⟩

theorem walkDir_iff (directory : root.isDir = true) : tree.walkDir (· ≤ ·) (visit base) root = .ok () ↔
      ∀ path entry, tree.get path = some entry → Outside tree path → Copied base path entry := by
  rw [Tree.walkDir_ok_iff]
  constructor
  · intro quiet path entry found outside
    obtain ⟨skipped,seen⟩ := quiet path entry (reaches_outside directory quiet found outside)
    exact (visit_outside found outside seen).2
  · intro copied path entry reaches
    rcases outside_of_reaches reaches with seen | ⟨found,outside⟩
    · exact seen
    · exact visit_copied (copied path entry found outside)

theorem walkDir_linked (link : root.isDir = false) : tree.walkDir (· ≤ ·) (visit base) root = .ok () := by
  rw [Tree.walkDir_ok_iff]
  intro path entry reaches
  cases reaches.front with
  | inl here => exact ⟨false,by rw [here.1]; rfl⟩
  | inr inside => rw [link] at inside; cases inside

theorem validateCacheBackings_iff {tiers : List Backing} {base : Backing} (last : tiers.getLast? = some base) :
    validateCacheBackings tiers = .ok () ↔ 2 ≤ tiers.length ∧ ∀ cache ∈ tiers.dropLast, cache.linked = false →
      ∀ path entry, cache.tree.get path = some entry → Outside cache.tree path → Copied base.tree path entry := by
  unfold validateCacheBackings
  rw [last]
  split
  · next few =>
    constructor
    · intro failed
      cases failed
    · exact fun met => absurd met.1 (Nat.not_le.mpr few)
  · next enough =>
    rw [Tree.forM_ok]
    have each : ∀ cache : Backing, cache.tree.walkDir (· ≤ ·) (visit base.tree) cache.root = .ok () ↔ (cache.linked = false →
        ∀ path entry, cache.tree.get path = some entry → Outside cache.tree path → Copied base.tree path entry) := by
      intro cache
      cases linked : cache.linked with
      | true =>
        have link : cache.root.isDir = false := by simp [Backing.root,linked,Entry.isDir]
        exact ⟨fun _ direct => Bool.noConfusion direct,fun _ => walkDir_linked link⟩
      | false =>
        have directory : cache.root.isDir = true := by simp [Backing.root,linked,Entry.isDir]
        rw [walkDir_iff directory]
        exact ⟨fun copied _ => copied,fun copied => copied rfl⟩
    exact ⟨fun all => ⟨Nat.not_lt.mp enough,fun cache member => (each cache).mp (all cache member)⟩,
      fun met cache member => (each cache).mpr (met.2 cache member)⟩

/-- Every regular file and directory outside the reserved directories stands on the base. -/
def HidesNothing (tiers : List Backing) (base : Backing) : Prop :=
  ∀ cache ∈ tiers.dropLast, ∀ path entry, cache.tree.get path = some entry → Outside cache.tree path →
    fileType entry = .regular ∨ fileType entry = .directory →
    ∃ copy, base.tree.get path = some copy ∧ fileType copy = fileType entry ∧
      (fileType entry = .regular → copy.value.content = entry.value.content)

/-- What the walk of an accepted list leaves open: the entries of a tier given by a link, which it
does not visit, and the contents. -/
def Faithful (tiers : List Backing) (base : Backing) : Prop :=
  ∀ cache ∈ tiers.dropLast, ∀ path entry, cache.tree.get path = some entry → Outside cache.tree path →
    fileType entry = .regular ∨ fileType entry = .directory →
    (cache.linked = true → ∃ skipped, visit base.tree path entry = .ok skipped) ∧
      ∀ copy, base.tree.get path = some copy → fileType entry = .regular → fileType copy = .regular →
        entry.value.content = copy.value.content

theorem cache_hides_no_unique_data (tiers : List Backing) (base : Backing) (last : tiers.getLast? = some base)
    (accepted : validateCacheBackings tiers = .ok ()) : HidesNothing tiers base ↔ Faithful tiers base := by
  obtain ⟨_,copied⟩ := (validateCacheBackings_iff last).mp accepted
  constructor
  · intro hides cache member path entry found outside kept
    obtain ⟨copy,there,same,content⟩ := hides cache member path entry found outside kept
    refine ⟨fun _ => visit_copied ⟨copy,there,same.symm⟩,fun other stands regular _ => ?_⟩
    cases there.symm.trans stands
    exact (content regular).symm
  · intro faithful cache member path entry found outside kept
    obtain ⟨visited,content⟩ := faithful cache member path entry found outside kept
    obtain ⟨copy,there,same⟩ : Copied base.tree path entry := by
      cases linked : cache.linked with
      | false => exact copied cache member linked path entry found outside
      | true =>
        obtain ⟨skipped,seen⟩ := visited linked
        exact (visit_outside found outside seen).2
    exact ⟨copy,there,same.symm,fun regular => (content copy there regular (same.symm.trans regular)).symm⟩

def replica (content : Bytes) : Tree String File where
  entries := [(["d"],⟨.dir,⟨none,[]⟩⟩),(["f","d"],⟨.leaf,⟨none,content⟩⟩),([".smoothfs"],⟨.dir,⟨none,[]⟩⟩)]
  distinct := by simp
  rooted := by simp
  closed := by simp [Entry.isDir]

theorem clean_cache_hides_nothing :
    validateCacheBackings [⟨replica [1,2],false⟩,⟨replica [1,2],false⟩] = .ok () ∧
      HidesNothing [⟨replica [1,2],false⟩,⟨replica [1,2],false⟩] ⟨replica [1,2],false⟩ := by
  have accepted : validateCacheBackings [⟨replica [1,2],false⟩,⟨replica [1,2],false⟩] = .ok () := by decide +kernel
  refine ⟨accepted,(cache_hides_no_unique_data _ _ rfl accepted).mpr ?_⟩
  intro cache member path entry found _ _
  cases List.mem_singleton.mp member
  refine ⟨nofun,fun copy there _ _ => ?_⟩
  cases found.symm.trans there
  rfl

/-- A newer copy above the base, and a tier given by a link. -/
theorem accepted_cache_hides_data :
    (validateCacheBackings [⟨replica [1,2],false⟩,⟨replica [],false⟩] = .ok () ∧
      ¬HidesNothing [⟨replica [1,2],false⟩,⟨replica [],false⟩] ⟨replica [],false⟩) ∧
      validateCacheBackings [⟨replica [1,2],true⟩,⟨.empty,false⟩] = .ok () ∧
      ¬HidesNothing [⟨replica [1,2],true⟩,⟨.empty,false⟩] ⟨.empty,false⟩ := by
  have outside : Outside (replica [1,2]) ["f","d"] := by
    intro top last listed
    cases last
    exact absurd listed (by decide)
  refine ⟨⟨by decide +kernel,fun hides => ?_⟩,by decide +kernel,fun hides => ?_⟩
  · obtain ⟨copy,there,_,content⟩ := hides _ List.mem_cons_self ["f","d"] ⟨.leaf,⟨none,[1,2]⟩⟩ (by decide +kernel) outside (.inl rfl)
    have empty : (replica []).get ["f","d"] = some ⟨.leaf,⟨none,[]⟩⟩ := by decide +kernel
    cases empty.symm.trans there
    cases content rfl
  · obtain ⟨copy,there,_⟩ := hides _ List.mem_cons_self ["f","d"] ⟨.leaf,⟨none,[1,2]⟩⟩ (by decide +kernel) outside (.inl rfl)
    cases there

end Smoothfs.CacheBackings
