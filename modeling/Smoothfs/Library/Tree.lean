import Mathlib.Data.List.Infix
import Mathlib.Data.List.Nodup

/-! The names of a file system: directories, symbolic links and leaves, the calls
that change them, and the walk that follows links. A path is read upwards, from its
last component to the root, so that its tail is the directory it stands in and what
is below a directory ends in the path of that directory. -/
namespace Smoothfs

namespace Tree

/-- A link's target starts at the root or where the link stands; `none` is `..`. -/
inductive Kind (κ : Type) where
  | dir
  | leaf
  | symlink (absolute : Bool) (target : List (Option κ))
  deriving DecidableEq, Repr

structure Entry (κ α : Type) where
  kind : Kind κ
  value : α
  deriving DecidableEq, Repr

inductive Error where
  | missing
  | exists
  | notDirectory
  | isDirectory
  | notEmpty
  | invalid
  | loop
  deriving DecidableEq, Repr

def Entry.isDir {κ α : Type} (entry : Entry κ α) : Bool :=
  match entry.kind with
  | .dir => true
  | _ => false

def Entry.isSymlink {κ α : Type} (entry : Entry κ α) : Bool :=
  match entry.kind with
  | .symlink _ _ => true
  | _ => false

end Tree

/-- Every path has one entry and stands in a directory. The root is a directory
and is not listed. -/
structure Tree (κ α : Type) where
  entries : List (List κ × Tree.Entry κ α)
  distinct : (entries.map Prod.fst).Nodup
  rooted : ∀ item ∈ entries, item.1 ≠ []
  closed : ∀ item ∈ entries, item.1.tail = [] ∨ ∃ parent ∈ entries, parent.1 = item.1.tail ∧ parent.2.isDir = true

namespace Tree

variable {κ α : Type}

def empty : Tree κ α := ⟨[],List.nodup_nil,by simp,by simp⟩

variable [DecidableEq κ]

def get (tree : Tree κ α) (path : List κ) : Option (Entry κ α) :=
  (tree.entries.find? fun item => item.1 = path).map Prod.snd

def isDir (tree : Tree κ α) (path : List κ) : Bool :=
  path = [] ∨ (tree.get path).any Entry.isDir

def child? (dir : List κ) (item : List κ × Entry κ α) : Option (κ × Entry κ α) :=
  match item.1 with
  | [] => none
  | name::up => if up = dir then some (name,item.2) else none

def children (tree : Tree κ α) (dir : List κ) : List (κ × Entry κ α) :=
  tree.entries.filterMap (child? dir)

section Reading

variable {tree : Tree κ α} {path up rest : List κ} {name : κ} {entry : Entry κ α}

theorem mem_of_find_key {β : Type} {items : List (κ × β)} {key : κ} {value : β}
    (found : (items.find? fun item => item.1 = key).map Prod.snd = some value) : (key,value) ∈ items := by
  obtain ⟨item,chosen,rfl⟩ := Option.map_eq_some_iff.mp found
  have same : item.1 = key := by simpa using List.find?_some chosen
  rw [← same]
  exact List.mem_of_find?_eq_some chosen

theorem get_eq_some : tree.get path = some entry ↔ (path,entry) ∈ tree.entries := by
  constructor
  · exact mem_of_find_key
  intro member
  unfold get
  cases chosen : tree.entries.find? (fun item => decide (item.1 = path)) with
  | none =>
    have other := List.find?_eq_none.mp chosen _ member
    simp at other
  | some item =>
    have same : item.1 = path := by simpa using List.find?_some chosen
    have one := List.inj_on_of_nodup_map tree.distinct (List.mem_of_find?_eq_some chosen) member same
    rw [one]
    rfl

theorem get_eq_none : tree.get path = none ↔ ∀ entry, (path,entry) ∉ tree.entries := by
  rw [Option.eq_none_iff_forall_ne_some]
  exact forall_congr' fun entry => not_congr get_eq_some

theorem get_root : tree.get [] = none :=
  get_eq_none.mpr fun _ member => tree.rooted _ member rfl

@[simp] theorem isDir_root : tree.isDir [] = true := by simp [isDir]

theorem isDir_iff : tree.isDir path = true ↔ path = [] ∨ ∃ entry, tree.get path = some entry ∧ entry.isDir = true := by
  simp [isDir,Option.any_eq_true]

theorem isDir_of_get (found : tree.get (name::up) = some entry) : tree.isDir up = true := by
  rw [isDir_iff]
  rcases tree.closed _ (get_eq_some.mp found) with root | ⟨⟨path,parent⟩,member,rfl,directory⟩
  · exact .inl root
  · exact .inr ⟨parent,get_eq_some.mpr member,directory⟩

theorem isDir_tail (directory : tree.isDir path = true) : tree.isDir path.tail = true := by
  rcases isDir_iff.mp directory with rfl | ⟨entry,found,_⟩
  · exact isDir_root
  · cases path with
    | nil => exact isDir_root
    | cons name up => exact isDir_of_get found

theorem isDir_suffix {part : List κ} (directory : tree.isDir path = true) (above : part <:+ path) : tree.isDir part = true := by
  induction path with
  | nil => rwa [List.suffix_nil.mp above]
  | cons name up ih =>
    rcases List.suffix_cons_iff.mp above with rfl | above
    · exact directory
    · exact ih (isDir_tail directory) above

theorem not_symlink_of_isDir (directory : tree.isDir path = true) : (tree.get path).any Entry.isSymlink = false := by
  rcases isDir_iff.mp directory with rfl | ⟨entry,found,isDir⟩
  · rw [get_root]
    rfl
  · rw [found]
    cases kind : entry.kind <;> simp_all [Entry.isDir,Entry.isSymlink]

theorem isDir_above (below : rest ≠ []) (found : tree.get (rest ++ up) ≠ none) : tree.isDir up = true := by
  induction rest with
  | nil => exact absurd rfl below
  | cons name rest ih =>
    obtain ⟨entry,found⟩ := Option.ne_none_iff_exists'.mp found
    have parent : tree.isDir (rest ++ up) = true := isDir_of_get found
    cases rest with
    | nil => exact parent
    | cons next rest =>
      rcases isDir_iff.mp parent with none | ⟨above,there,_⟩
      · cases none
      · exact ih (List.cons_ne_nil _ _) (by rw [there]; exact Option.some_ne_none _)

theorem get_below (absent : tree.get up = none) (proper : up ≠ []) : tree.get (rest ++ up) = none := by
  by_contra found
  cases rest with
  | nil => exact found absent
  | cons name rest =>
    rcases isDir_iff.mp (isDir_above (List.cons_ne_nil _ _) found) with root | ⟨entry,there,_⟩
    · exact proper root
    · rw [absent] at there
      cases there

theorem mem_children : (name,entry) ∈ tree.children up ↔ tree.get (name::up) = some entry := by
  rw [get_eq_some]
  unfold children
  rw [List.mem_filterMap]
  constructor
  · rintro ⟨⟨path,value⟩,member,found⟩
    cases path with
    | nil => simp [child?] at found
    | cons first above =>
      simp only [child?,Option.ite_none_right_eq_some] at found
      obtain ⟨rfl,rfl,rfl⟩ := found
      exact member
  · intro member
    exact ⟨_,member,by simp [child?]⟩

theorem children_eq_nil : tree.children up = [] ↔ ∀ name, tree.get (name::up) = none := by
  rw [List.eq_nil_iff_forall_not_mem]
  constructor
  · intro empty name
    by_contra found
    obtain ⟨entry,found⟩ := Option.ne_none_iff_exists'.mp found
    exact empty (name,entry) (mem_children.mpr found)
  · intro none item member
    have found := mem_children.mp (show (item.1,item.2) ∈ _ from member)
    rw [none] at found
    cases found

theorem get_of_children (none : tree.children up = []) (below : rest ≠ []) : tree.get (rest ++ up) = Option.none := by
  have last : rest = rest.dropLast ++ [rest.getLast below] := (List.dropLast_append_getLast below).symm
  rw [last,List.append_assoc]
  exact get_below (children_eq_nil.mp none _) (List.cons_ne_nil _ _)

end Reading

section Changing

def insert (tree : Tree κ α) (path : List κ) (entry : Entry κ α) : Except Error (Tree κ α) :=
  if absent : path ≠ [] ∧ tree.get path = none then
    if parent : tree.isDir path.tail = true then
      .ok ⟨(path,entry)::tree.entries,
        List.nodup_cons.mpr ⟨fun member => by
          obtain ⟨⟨same,value⟩,listed,rfl⟩ := List.mem_map.mp member
          exact get_eq_none.mp absent.2 value listed,tree.distinct⟩,
        fun item member => (List.mem_cons.mp member).elim (fun same => by rw [same]; exact absent.1) (tree.rooted item),
        fun item member => by
          rcases List.mem_cons.mp member with rfl | member
          · rcases isDir_iff.mp parent with root | ⟨above,found,directory⟩
            · exact .inl root
            · exact .inr ⟨_,List.mem_cons_of_mem _ (get_eq_some.mp found),rfl,directory⟩
          · rcases tree.closed item member with root | ⟨above,listed,same⟩
            · exact .inl root
            · exact .inr ⟨above,List.mem_cons_of_mem _ listed,same⟩⟩
    else .error .missing
  else .error .exists

def remove (tree : Tree κ α) (path : List κ) : Except Error (Tree κ α) :=
  if vacant : tree.children path = [] then
    .ok ⟨tree.entries.filter (fun item => item.1 ≠ path),
      (List.filter_sublist.map _).nodup tree.distinct,
      fun item member => tree.rooted item (List.mem_filter.mp member).1,
      fun item member => by
        obtain ⟨listed,_⟩ := List.mem_filter.mp member
        rcases tree.closed item listed with root | ⟨above,there,same,directory⟩
        · exact .inl root
        refine .inr ⟨above,List.mem_filter.mpr ⟨there,?_⟩,same,directory⟩
        -- The parent is not what is removed, since that lists nothing.
        rw [decide_eq_true_eq]
        intro gone
        obtain ⟨full,entry⟩ := item
        cases full with
        | nil => exact tree.rooted _ listed rfl
        | cons name up =>
          have found := get_eq_some.mpr listed
          rw [show up = path from same.symm.trans gone,children_eq_nil.mp vacant] at found
          cases found⟩
  else .error .notEmpty

def rebase (old new path : List κ) : List κ :=
  if old <:+ path then path.take (path.length - old.length) ++ new else path

theorem rebase_below (old new rest : List κ) : rebase old new (rest ++ old) = rest ++ new := by
  simp [rebase]

theorem rebase_self (old new : List κ) : rebase old new old = new := rebase_below old new []

theorem rebase_other {old new path : List κ} (apart : ¬old <:+ path) : rebase old new path = path := by
  simp [rebase,apart]

/-- Nothing is at `new` yet, which stands in a directory and not below `old`. -/
structure Fits (tree : Tree κ α) (old new : List κ) : Prop where
  proper : new ≠ []
  vacant : tree.get new = none
  parent : tree.isDir new.tail = true
  apart : ¬old <:+ new

instance (tree : Tree κ α) (old new : List κ) : Decidable (tree.Fits old new) :=
  decidable_of_iff (new ≠ [] ∧ tree.get new = none ∧ tree.isDir new.tail = true ∧ ¬old <:+ new)
    ⟨fun ⟨proper,vacant,parent,apart⟩ => ⟨proper,vacant,parent,apart⟩,
      fun fits => ⟨fits.proper,fits.vacant,fits.parent,fits.apart⟩⟩

section Fits

variable {tree : Tree κ α} {old new : List κ} (fits : tree.Fits old new)
include fits

variable {path : List κ} {entry : Entry κ α}

theorem Fits.free (listed : (path,entry) ∈ tree.entries) : ¬new <:+ path := by
  rintro ⟨rest,rfl⟩
  have found := get_eq_some.mpr listed
  rw [get_below fits.vacant fits.proper] at found
  cases found

theorem Fits.source : old ≠ [] := by
  rintro rfl
  exact fits.apart (List.nil_suffix)

theorem Fits.not_below (above : new <:+ path) : ¬old <:+ path ∨ tree.get old = none := by
  by_contra both
  simp only [not_or,not_not] at both
  obtain ⟨below,there⟩ := both
  obtain ⟨entry,there⟩ := Option.ne_none_iff_exists'.mp there
  rcases List.suffix_or_suffix_of_suffix above below with under | under
  · exact fits.free (get_eq_some.mp there) under
  · exact fits.apart under

theorem Fits.rebase_inj {one two : List κ × Entry κ α} (first : one ∈ tree.entries) (second : two ∈ tree.entries)
    (same : rebase old new one.1 = rebase old new two.1) : one.1 = two.1 := by
  by_cases under : old <:+ one.1 <;> by_cases below : old <:+ two.1
  · obtain ⟨rest,under⟩ := under
    obtain ⟨other,below⟩ := below
    rw [← under,← below,rebase_below,rebase_below] at same
    rw [← under,← below,List.append_cancel_right same]
  · obtain ⟨rest,under⟩ := under
    rw [← under,rebase_below,rebase_other below] at same
    exact absurd ⟨rest,same⟩ (fits.free second)
  · obtain ⟨rest,below⟩ := below
    rw [← below,rebase_below,rebase_other under] at same
    exact absurd ⟨rest,same.symm⟩ (fits.free first)
  · rwa [rebase_other under,rebase_other below] at same

theorem Fits.rebase_ne_nil (proper : path ≠ []) : rebase old new path ≠ [] := by
  by_cases under : old <:+ path
  · obtain ⟨rest,rfl⟩ := under
    rw [rebase_below]
    exact fun none => fits.proper (List.append_eq_nil_iff.mp none).2
  · rwa [rebase_other under]

theorem Fits.rebase_tail (found : tree.get path = some entry) :
    ∃ up, tree.isDir up = true ∧ (rebase old new path).tail = rebase old new up := by
  cases path with
  | nil => rw [get_root] at found; cases found
  | cons name up =>
    by_cases under : old <:+ name::up
    · rcases List.suffix_cons_iff.mp under with same | ⟨rest,rfl⟩
      · have above : ¬old <:+ new.tail := fun above => fits.apart (above.trans (List.tail_suffix new))
        exact ⟨new.tail,fits.parent,by rw [← same,rebase_self,rebase_other above]⟩
      · exact ⟨_,isDir_of_get found,by rw [rebase_below,← List.cons_append,rebase_below]; rfl⟩
    · have above : ¬old <:+ up := fun above => under (above.trans (List.suffix_cons name up))
      exact ⟨up,isDir_of_get found,by rw [rebase_other under,rebase_other above]; rfl⟩

theorem Fits.rebase_closed (found : tree.get path = some entry) :
    (rebase old new path).tail = [] ∨ ∃ parent ∈ tree.entries.map (fun item => (rebase old new item.1,item.2)),
      parent.1 = (rebase old new path).tail ∧ parent.2.isDir = true := by
  obtain ⟨up,directory,same⟩ := fits.rebase_tail found
  rw [same]
  rcases isDir_iff.mp directory with rfl | ⟨above,there,directory⟩
  · left
    exact rebase_other fun below => fits.source (List.suffix_nil.mp below)
  · exact .inr ⟨_,List.mem_map.mpr ⟨_,get_eq_some.mp there,rfl⟩,rfl,directory⟩

end Fits

/-- Take what is at `old`, with everything below it, to a path where nothing is. -/
def move (tree : Tree κ α) (old new : List κ) : Except Error (Tree κ α) :=
  if fits : tree.Fits old new then
    .ok ⟨tree.entries.map fun item => (rebase old new item.1,item.2),
      by
        rw [List.map_map]
        exact tree.distinct.of_map.map_on fun one first two second same =>
          List.inj_on_of_nodup_map tree.distinct first second (fits.rebase_inj first second same),
      fun item member => by
        obtain ⟨found,listed,rfl⟩ := List.mem_map.mp member
        exact fits.rebase_ne_nil (tree.rooted _ listed),
      fun item member => by
        obtain ⟨found,listed,rfl⟩ := List.mem_map.mp member
        exact fits.rebase_closed (get_eq_some.mpr listed)⟩
  else .error .invalid

def setValue (tree : Tree κ α) (path : List κ) (value : α) : Tree κ α :=
  let change (item : List κ × Entry κ α) := if item.1 = path then (item.1,⟨item.2.kind,value⟩) else item
  have name (item : List κ × Entry κ α) : (change item).1 = item.1 := by
    by_cases same : item.1 = path <;> simp [change,same]
  have kind (item : List κ × Entry κ α) : (change item).2.isDir = item.2.isDir := by
    by_cases same : item.1 = path <;> simp [change,same,Entry.isDir]
  ⟨tree.entries.map change,by rw [List.map_map,show Prod.fst ∘ change = Prod.fst from funext name]; exact tree.distinct,
    fun item member => by
      obtain ⟨before,listed,rfl⟩ := List.mem_map.mp member
      rw [name]
      exact tree.rooted before listed,
    fun item member => by
      obtain ⟨before,listed,rfl⟩ := List.mem_map.mp member
      rw [name]
      refine (tree.closed before listed).imp id fun ⟨parent,there,same,directory⟩ => ?_
      exact ⟨change parent,List.mem_map.mpr ⟨parent,there,rfl⟩,by rw [name,same],by rw [kind,directory]⟩⟩

/-- `rename`: a leaf may replace a leaf or a link, a directory an empty directory. -/
def rename (tree : Tree κ α) (old new : List κ) : Except Error (Tree κ α) :=
  match tree.get old with
  | none => .error .missing
  | some source =>
    if old = new then .ok tree
    else if old <:+ new then .error .invalid
    else
      match tree.get new with
      | none => if tree.isDir new.tail then tree.move old new else .error .missing
      | some target =>
        if source.isDir && !target.isDir then .error .notDirectory
        else if target.isDir && !source.isDir then .error .isDirectory
        else tree.remove new >>= fun vacated => vacated.move old new

def mkdirAll (tree : Tree κ α) (fresh : List κ → α) : List κ → Except Error (Tree κ α)
  | [] => .ok tree
  | name::up => tree.mkdirAll fresh up >>= fun above =>
    match above.get (name::up) with
    | none => above.insert (name::up) ⟨.dir,fresh (name::up)⟩
    | some entry => if entry.isDir then .ok above else .error .notDirectory

end Changing

section Changed

variable {tree later : Tree κ α} {path old new : List κ} {entry : Entry κ α}

theorem get_insert (made : tree.insert path entry = .ok later) (other : List κ) :
    later.get other = if other = path then some entry else tree.get other := by
  unfold insert at made
  split at made
  next absent =>
    split at made
    · cases made
      by_cases same : other = path
      · rw [if_pos same,get_eq_some,same]
        exact List.mem_cons_self
      · rw [if_neg same]
        simp [get,Ne.symm same]
    · cases made
  · cases made

theorem absent_of_insert (made : tree.insert path entry = .ok later) : tree.get path = none := by
  unfold insert at made
  split at made
  next absent => exact absent.2
  · cases made

theorem get_remove (removed : tree.remove path = .ok later) (other : List κ) :
    later.get other = if other = path then none else tree.get other := by
  unfold remove at removed
  split at removed
  · cases removed
    split
    next same =>
      rw [get_eq_none]
      intro entry member
      exact (of_decide_eq_true (List.mem_filter.mp member).2) same
    next apart =>
    apply Option.ext
    intro entry
    rw [get_eq_some,get_eq_some]
    simp [apart]
  · cases removed

theorem get_setValue (tree : Tree κ α) (path : List κ) (value : α) (other : List κ) : (tree.setValue path value).get other =
    if other = path then (tree.get other).map fun entry => ⟨entry.kind,value⟩ else tree.get other := by
  apply Option.ext
  intro entry
  split
  next same =>
    simp only [setValue,List.mem_map,Option.map_eq_some_iff,get_eq_some,same]
    constructor
    · rintro ⟨⟨before,found⟩,listed,change⟩
      by_cases here : before = path
      · simp only [here,if_true,Prod.mk.injEq,true_and] at change
        exact ⟨found,by rwa [here] at listed,change⟩
      · simp [here] at change
    · rintro ⟨found,listed,rfl⟩
      exact ⟨_,listed,by simp⟩
  next apart =>
  simp only [setValue,List.mem_map,get_eq_some]
  constructor
  · rintro ⟨⟨before,found⟩,listed,change⟩
    by_cases here : before = path
    · simp only [here,if_true,Prod.mk.injEq] at change
      exact absurd change.1.symm apart
    · simp only [here] at change
      obtain ⟨rfl,rfl⟩ := change
      exact listed
  · intro listed
    exact ⟨_,listed,by simp [apart]⟩

theorem children_of_remove (removed : tree.remove path = .ok later) : tree.children path = [] := by
  unfold remove at removed
  split at removed
  next none => exact none
  · cases removed

theorem remove_ok (none : tree.children path = []) : ∃ later, tree.remove path = .ok later := by
  unfold remove
  rw [dif_pos none]
  exact ⟨_,rfl⟩

/-- What was at `old` and below it is at `new` and below it; the rest stays. -/
structure Moved (tree later : Tree κ α) (old new : List κ) : Prop where
  arrived : ∀ rest, later.get (rest ++ new) = tree.get (rest ++ old)
  left : ∀ rest, later.get (rest ++ old) = none
  kept : ∀ path, ¬old <:+ path → ¬new <:+ path → later.get path = tree.get path

variable (moved : tree.move old new = .ok later)
include moved

theorem mem_move : (path,entry) ∈ later.entries ↔ ∃ source, (source,entry) ∈ tree.entries ∧ rebase old new source = path := by
  unfold move at moved
  split at moved
  · cases moved
    simp
  · cases moved

/-- An entry of the changed tree came along or was never below `old`. -/
theorem mem_move_cases (member : (path,entry) ∈ later.entries) :
    (∃ rest, path = rest ++ new ∧ (rest ++ old,entry) ∈ tree.entries) ∨ ¬old <:+ path ∧ (path,entry) ∈ tree.entries := by
  obtain ⟨source,listed,same⟩ := (mem_move moved).mp member
  by_cases under : old <:+ source
  · obtain ⟨rest,rfl⟩ := under
    exact .inl ⟨rest,by rw [← same,rebase_below],listed⟩
  · rw [rebase_other under] at same
    subst same
    exact .inr ⟨under,listed⟩

theorem fits_of_move : tree.Fits old new := by
  unfold move at moved
  split at moved
  next fits => exact fits
  · cases moved

omit moved

theorem move_ok (fits : tree.Fits old new) : ∃ later, tree.move old new = .ok later := by
  unfold move
  rw [dif_pos fits]
  exact ⟨_,rfl⟩

theorem move_spec (moved : tree.move old new = .ok later) (there : tree.get old ≠ none) : Moved tree later old new := by
  have fits := fits_of_move moved
  have apart {path : List κ} (below : new <:+ path) : ¬old <:+ path := (fits.not_below below).resolve_right there
  constructor
  · intro rest
    apply Option.ext
    intro entry
    rw [get_eq_some,get_eq_some]
    constructor
    · intro member
      obtain ⟨above,same,listed⟩ | ⟨_,listed⟩ := mem_move_cases moved member
      · rwa [List.append_cancel_right same]
      · exact absurd (List.suffix_append rest new) (fits.free listed)
    · intro listed
      exact (mem_move moved).mpr ⟨_,listed,rebase_below old new rest⟩
  · intro rest
    rw [get_eq_none]
    intro entry member
    obtain ⟨above,same,_⟩ | ⟨outside,_⟩ := mem_move_cases moved member
    · exact apart ⟨above,same.symm⟩ (List.suffix_append rest old)
    · exact outside (List.suffix_append rest old)
  · intro path outside away
    apply Option.ext
    intro entry
    rw [get_eq_some,get_eq_some]
    constructor
    · intro member
      obtain ⟨above,same,_⟩ | ⟨_,listed⟩ := mem_move_cases moved member
      · exact absurd ⟨above,same.symm⟩ away
      · exact listed
    · intro listed
      exact (mem_move moved).mpr ⟨path,listed,rebase_other outside⟩

theorem rename_spec (renamed : tree.rename old new = .ok later) (other : old ≠ new) :
    tree.get old ≠ none ∧ (∀ rest ≠ [], tree.get (rest ++ new) = none) ∧ Moved tree later old new := by
  unfold rename at renamed
  split at renamed
  · cases renamed
  next source there =>
  have there : tree.get old ≠ none := by rw [there]; exact Option.some_ne_none _
  refine ⟨there,?_⟩
  rw [if_neg other] at renamed
  split at renamed
  · cases renamed
  next apart =>
  split at renamed
  next vacant =>
    split at renamed
    · have fits := fits_of_move renamed
      exact ⟨fun rest _ => get_below vacant fits.proper,move_spec renamed there⟩
    · cases renamed
  next target found =>
  split at renamed
  · cases renamed
  split at renamed
  · cases renamed
  cases vacated : tree.remove new with
  | error error =>
    rw [vacated] at renamed
    cases renamed
  | ok between =>
    rw [vacated] at renamed
    have same (path : List κ) (away : path ≠ new) : between.get path = tree.get path := by
      rw [get_remove vacated,if_neg away]
    have below (rest : List κ) : rest ++ old ≠ new := fun equal => apart ⟨rest,equal⟩
    have moved := move_spec renamed (by rw [same old other]; exact there)
    refine ⟨fun rest proper => get_of_children (children_of_remove vacated) proper,?_,moved.left,?_⟩
    · intro rest
      rw [moved.arrived,same _ (below rest)]
    · intro path outside away
      rw [moved.kept path outside away,same path fun equal => away (by rw [equal])]

theorem rename_ok_iff {source : Entry κ α} (there : tree.get old = some source) (apart : ¬old <:+ new) (proper : new ≠ []) :
    (∃ later, tree.rename old new = .ok later) ↔
      tree.isDir new.tail = true ∧ (tree.get new = none ∨ source.isDir = tree.isDir new ∧ tree.children new = []) := by
  have other : old ≠ new := fun same => apart (by rw [same])
  unfold rename
  rw [there]
  simp only [if_neg other,if_neg apart]
  cases found : tree.get new with
  | none =>
    simp only [true_or,and_true]
    constructor
    · rintro ⟨later,moved⟩
      by_contra missing
      rw [if_neg missing] at moved
      cases moved
    · intro parent
      rw [if_pos parent]
      exact move_ok ⟨proper,found,parent,apart⟩
  | some target =>
    have parent : tree.isDir new.tail = true := by
      cases new with
      | nil => exact isDir_root
      | cons name up => exact isDir_of_get found
    have kind : tree.isDir new = target.isDir := by simp [isDir,proper,found]
    simp only [parent,true_and,reduceCtorEq,false_or,kind]
    constructor
    · rintro ⟨later,moved⟩
      split at moved
      · cases moved
      next first =>
      split at moved
      · cases moved
      next second =>
      refine ⟨by revert first second; cases source.isDir <;> cases target.isDir <;> decide,?_⟩
      cases vacated : tree.remove new with
      | error error =>
        rw [vacated] at moved
        cases moved
      | ok between => exact children_of_remove vacated
    · rintro ⟨same,none⟩
      obtain ⟨vacated,removed⟩ := remove_ok none
      simp only [same,removed,Bool.and_not_self,Bool.false_eq_true,if_false]
      apply move_ok
      refine ⟨proper,by rw [get_remove removed,if_pos rfl],?_,apart⟩
      rcases isDir_iff.mp parent with root | ⟨above,standing,directory⟩
      · rw [root]
        exact isDir_root
      rw [isDir_iff]
      refine .inr ⟨above,?_,directory⟩
      rw [get_remove removed,if_neg ?_,standing]
      cases new with
      | nil => exact absurd rfl proper
      | cons name up => exact (List.cons_ne_self name up).symm

structure Extended (fresh : List κ → α) (tree later : Tree κ α) (path : List κ) : Prop where
  made : later.isDir path = true
  kept : ∀ other entry, tree.get other = some entry → later.get other = some entry
  new : ∀ other entry, later.get other = some entry → tree.get other = none → other <:+ path ∧ entry = ⟨.dir,fresh other⟩

variable {fresh : List κ → α}

theorem Extended.only (extended : Extended fresh tree later path) (other : List κ)
    (away : ¬other <:+ path) : later.get other = tree.get other := by
  cases before : tree.get other with
  | some entry => exact extended.kept other entry before
  | none =>
    by_contra there
    obtain ⟨entry,there⟩ := Option.ne_none_iff_exists'.mp there
    exact away (extended.new other entry there before).1

theorem mkdirAll_spec (made : tree.mkdirAll fresh path = .ok later) : Extended fresh tree later path := by
  induction path generalizing later with
  | nil =>
    cases made
    exact ⟨isDir_root,fun _ _ found => found,fun other entry found absent => by rw [absent] at found; cases found⟩
  | cons name up ih =>
    cases above : tree.mkdirAll fresh up with
    | error error =>
      simp only [mkdirAll,above] at made
      cases made
    | ok between =>
      simp only [mkdirAll,above,bind,Except.bind] at made
      have extended := ih above
      have new (other : List κ) (entry : Entry κ α) (found : between.get other = some entry) (absent : tree.get other = none) :
          other <:+ name::up ∧ entry = ⟨.dir,fresh other⟩ := by
        obtain ⟨within,same⟩ := extended.new other entry found absent
        exact ⟨within.trans (List.suffix_cons name up),same⟩
      split at made
      next absent =>
        refine ⟨?_,?_,?_⟩
        · rw [isDir_iff]
          exact .inr ⟨_,by rw [get_insert made,if_pos rfl],rfl⟩
        · intro other entry found
          have before := extended.kept other entry found
          rw [get_insert made,if_neg ?_,before]
          rintro rfl
          rw [absent] at before
          cases before
        · intro other entry found before
          rw [get_insert made] at found
          split at found
          next same =>
            cases found
            rw [same]
            exact ⟨List.suffix_rfl,rfl⟩
          · exact new other entry found before
      next entry found =>
      split at made
      next directory =>
        cases made
        exact ⟨isDir_iff.mpr (.inr ⟨entry,found,directory⟩),extended.kept,new⟩
      · cases made

end Changed

section Walking

/-- Where a walk comes to without following a link. -/
inductive Walk (κ : Type) where
  | reached (path : List κ)
  | link (dir : List κ) (absolute : Bool) (target rest : List (Option κ))
  | failed (error : Error)

def descend (tree : Tree κ α) : List κ → List (Option κ) → Walk κ
  | dir, [] => .reached dir
  | dir, none::rest => tree.descend dir.tail rest
  | dir, some name::rest =>
    match tree.get (name::dir) with
    | none => .failed (if tree.isDir dir then .missing else .notDirectory)
    | some entry =>
      match entry.kind with
      | .dir => tree.descend (name::dir) rest
      | .symlink absolute target => .link dir absolute target rest
      | .leaf => if rest.isEmpty then .reached (name::dir) else .failed .notDirectory

/-- Walk and follow at most `links` links, the last component's too. -/
def follow (tree : Tree κ α) : Nat → List κ → List (Option κ) → Except Error (List κ)
  | 0, dir, path =>
    match tree.descend dir path with
    | .reached found => .ok found
    | .link _ _ _ _ => .error .loop
    | .failed error => .error error
  | links+1, dir, path =>
    match tree.descend dir path with
    | .reached found => .ok found
    | .link here absolute target rest => tree.follow links (if absolute then [] else here) (target ++ rest)
    | .failed error => .error error

def downwards (path : List κ) : List (Option κ) := path.reverse.map some

omit [DecidableEq κ] in
theorem downwards_cons (name : κ) (up : List κ) : downwards (name::up) = downwards up ++ [some name] := by
  simp [downwards]

variable {tree : Tree κ α} {dir found : List κ} {path : List (Option κ)} {links : Nat} {name : κ}

theorem descend_snoc (dir : List κ) (path : List (Option κ)) (name : κ) : tree.descend dir (path ++ [some name]) =
    match tree.descend dir path with
    | .reached found => tree.descend found [some name]
    | .link here absolute target rest => .link here absolute target (rest ++ [some name])
    | .failed error => .failed error := by
  fun_induction tree.descend dir path with
  | case1 dir => rfl
  | case2 dir rest ih => exact ih
  | case3 dir first rest absent => simp [descend,absent]
  | case4 dir first rest entry there directory ih => simpa [descend,there,directory] using ih
  | case5 dir first rest entry there absolute target link => simp [descend,there,link]
  | case6 dir first rest entry there leaf done =>
    have flat : tree.isDir (first::dir) = false := by simp [isDir,there,Entry.isDir,leaf]
    have absent : tree.get (name::first::dir) = none := by
      by_contra below
      obtain ⟨entry,below⟩ := Option.ne_none_iff_exists'.mp below
      rw [isDir_of_get below] at flat
      cases flat
    simp [descend,there,leaf,absent,flat]
  | case7 dir first rest entry there leaf more => simp [descend,there,leaf]

theorem follow_of_descend (walk : tree.descend dir path = .reached found) : tree.follow links dir path = .ok found := by
  cases links <;> simp [follow,walk]

theorem follow_cases (reached : tree.follow links dir path = .ok found) : tree.descend dir path = .reached found ∨
    ∃ fewer here absolute target rest, links = fewer + 1 ∧ tree.descend dir path = .link here absolute target rest ∧
      tree.follow fewer (if absolute then [] else here) (target ++ rest) = .ok found := by
  cases walk : tree.descend dir path with
  | reached ended =>
    rw [follow_of_descend walk] at reached
    cases reached
    exact .inl rfl
  | failed error => cases links <;> simp [follow,walk] at reached
  | link here absolute target rest =>
    cases links with
    | zero => simp [follow,walk] at reached
    | succ fewer =>
      simp only [follow,walk] at reached
      exact .inr ⟨fewer,here,absolute,target,rest,rfl,rfl,reached⟩

theorem follow_link {here : List κ} {absolute : Bool} {target rest : List (Option κ)}
    (walk : tree.descend dir path = .link here absolute target rest) :
    tree.follow (links + 1) dir path = tree.follow links (if absolute then [] else here) (target ++ rest) := by
  simp [follow,walk]

theorem follow_snoc (reached : tree.follow links dir (path ++ [some name]) = .ok found) :
    ∃ parent, tree.follow links dir path = .ok parent ∧ tree.get (name::parent) ≠ none := by
  -- Each link that the walk follows leaves one less to follow.
  induction links using Nat.strong_induction_on generalizing dir path with
  | h links ih =>
    have after := follow_cases reached
    rw [descend_snoc] at after
    cases walk : tree.descend dir path with
    | reached parent =>
      refine ⟨parent,follow_of_descend walk,?_⟩
      intro absent
      simp [walk,descend,absent] at after
    | failed error => simp [walk] at after
    | link here absolute target rest =>
      simp only [walk,reduceCtorEq,false_or] at after
      obtain ⟨fewer,_,_,_,_,rfl,⟨rfl,rfl,rfl,rfl⟩,further⟩ := after
      rw [← List.append_assoc] at further
      rw [follow_link walk]
      exact ih fewer (Nat.lt_succ_self fewer) further

theorem follow_child {parent : List κ} {entry : Entry κ α} (reached : tree.follow links dir path = .ok parent)
    (there : tree.get (name::parent) = some entry) (plain : entry.isSymlink = false) :
    tree.follow links dir (path ++ [some name]) = .ok (name::parent) := by
  have last : tree.descend parent [some name] = .reached (name::parent) := by
    cases kind : entry.kind with
    | dir | leaf => simp [descend,there,kind]
    | symlink absolute target => simp [Entry.isSymlink,kind] at plain
  induction links using Nat.strong_induction_on generalizing dir path with
  | h links ih =>
    rcases follow_cases reached with walk | ⟨fewer,here,absolute,target,rest,rfl,walk,further⟩
    · apply follow_of_descend
      rw [descend_snoc,walk]
      exact last
    have onward := ih fewer (Nat.lt_succ_self fewer) further
    rw [List.append_assoc] at onward
    rw [follow_link (by rw [descend_snoc,walk])]
    exact onward

/-- A walk ends at a directory or a leaf, never at a link. -/
theorem follow_not_symlink (start : tree.isDir dir = true) (reached : tree.follow links dir path = .ok found) :
    (tree.get found).any Entry.isSymlink = false := by
  have walks (dir : List κ) (path : List (Option κ)) (start : tree.isDir dir = true) :
      (∀ found, tree.descend dir path = .reached found → (tree.get found).any Entry.isSymlink = false) ∧
        ∀ here absolute target rest, tree.descend dir path = .link here absolute target rest → tree.isDir here = true := by
    fun_induction tree.descend dir path with
    | case1 dir =>
      refine ⟨fun found same => ?_,nofun⟩
      cases same
      exact not_symlink_of_isDir start
    | case2 dir rest ih => exact ih (isDir_tail start)
    | case3 dir first rest absent => exact ⟨nofun,nofun⟩
    | case4 dir first rest entry there directory ih =>
      exact ih (isDir_iff.mpr (.inr ⟨entry,there,by simp [Entry.isDir,directory]⟩))
    | case5 dir first rest entry there absolute target link =>
      refine ⟨nofun,fun here _ _ _ same => ?_⟩
      cases same
      exact start
    | case6 dir first rest entry there leaf done =>
      refine ⟨fun found same => ?_,nofun⟩
      cases same
      simp [there,Entry.isSymlink,leaf]
    | case7 dir first rest entry there leaf more => exact ⟨nofun,nofun⟩
  induction links using Nat.strong_induction_on generalizing dir path with
  | h links ih =>
    rcases follow_cases reached with walk | ⟨fewer,here,absolute,target,rest,rfl,walk,further⟩
    · exact (walks dir path start).1 found walk
    · refine ih fewer (Nat.lt_succ_self fewer) ?_ further
      split
      · exact isDir_root
      · exact (walks dir path start).2 here absolute target rest walk

/-- No link stands at the path or above it. -/
def Straight (tree : Tree κ α) (path : List κ) : Prop :=
  ∀ part ∈ path.tails, (tree.get part).any Entry.isSymlink = false

instance (tree : Tree κ α) (path : List κ) : Decidable (tree.Straight path) :=
  inferInstanceAs (Decidable (∀ part ∈ path.tails, (tree.get part).any Entry.isSymlink = false))

theorem follow_straight {path : List κ} (straight : tree.Straight path)
    (reached : tree.follow links [] (downwards path) = .ok found) : found = path := by
  induction path generalizing found with
  | nil =>
    have here : tree.follow links [] (downwards []) = .ok [] := by cases links <;> rfl
    rw [here] at reached
    exact (Except.ok.inj reached).symm
  | cons name up ih =>
    rw [downwards_cons] at reached
    obtain ⟨parent,above,there⟩ := follow_snoc reached
    have same := ih (fun part within => straight part (List.mem_cons_of_mem _ within)) above
    subst same
    obtain ⟨entry,there⟩ := Option.ne_none_iff_exists'.mp there
    have plain := straight (name::parent) List.mem_cons_self
    rw [there] at plain
    have ended := follow_child above there plain
    rw [ended] at reached
    exact (Except.ok.inj reached).symm

theorem follow_downwards (links : Nat) {path : List κ} (directory : tree.isDir path = true) :
    tree.follow links [] (downwards path) = .ok path := by
  induction path with
  | nil => cases links <;> rfl
  | cons name up ih =>
    rcases isDir_iff.mp directory with none | ⟨entry,there,isDir⟩
    · cases none
    have parent := ih (isDir_of_get there)
    have plain : (tree.get (name::up)).any Entry.isSymlink = false := not_symlink_of_isDir directory
    rw [there] at plain
    rw [downwards_cons]
    exact follow_child parent there plain

end Walking

end Tree

end Smoothfs
