import Smoothfs.Library.Tree
import Smoothfs.Lookup

/-! Which copy of a path a lookup comes to when nothing is in memory. The tiers have
trees of any entries. -/
namespace Smoothfs.ColdLookup

open Smoothfs.Tree

open Lookup (activeTiers search)

structure Tiers (α : Type) where
  pool : Pool
  mask : Nat
  trees : Nat → Tree String α

structure Place where
  tier : Nat
  path : List String
  deriving DecidableEq, Repr

variable {α : Type}

section Lookup

def maxSymlinks : Nat := 40

def baseTier (pool : Pool) : Nat := pool.ntiers - 1

def rootTier (pool : Pool) : Nat := if pool.cacheMode then baseTier pool else pool.fastestTier

/-- Below the root of the tier, with `LOOKUP_FOLLOW`. -/
def resolveRelPath (tree : Tree String α) (rel : List String) : Except Error (List String) :=
  tree.follow maxSymlinks [] (downwards rel)

def resolveRelPathOnTier (tiers : Tiers α) (rel : List String) (tier : Nat) : Option Place :=
  match resolveRelPath (tiers.trees tier) rel with
  | .ok path => some ⟨tier,path⟩
  | .error _ => none

def lookupRelAcrossTiers (tiers : Tiers α) (rel : List String) : Option Place :=
  (activeTiers tiers.pool tiers.mask).findSome? (resolveRelPathOnTier tiers rel)

/-- Without a path map. -/
def lookupInner (tiers : Tiers α) (dir : Place) (name : String) (rel : List String) : Option Place :=
  (search tiers.pool.cacheMode (resolveRelPathOnTier tiers rel (baseTier tiers.pool))
    (((tiers.trees dir.tier).get (name::dir.path)).map fun _ => ⟨dir.tier,name::dir.path⟩) (none : Option Empty)
    (lookupRelAcrossTiers tiers rel)).map fun
    | .lower place _ => place

def lookupCold (tiers : Tiers α) : List String → Option Place
  | [] => some ⟨rootTier tiers.pool,[]⟩
  | name::up => (lookupCold tiers up).bind fun dir =>
    if (tiers.trees dir.tier).isDir dir.path then lookupInner tiers dir name (name::up) else none

end Lookup

def order (tiers : Tiers α) : List Nat :=
  rootTier tiers.pool::if tiers.pool.cacheMode then [] else activeTiers tiers.pool tiers.mask

def has (tiers : Tiers α) (path : List String) (tier : Nat) : Bool :=
  path = [] ∨ ((tiers.trees tier).get path).isSome

def firstTier (tiers : Tiers α) (path : List String) : Option Nat := (order tiers).find? (has tiers path)

/-- No tier has anything but a directory above the path, nor a link at the path. -/
def Plain (tiers : Tiers α) (path : List String) : Prop :=
  ∀ tier ∈ order tiers, (∀ part ∈ path.tail.tails, ((tiers.trees tier).get part).all Entry.isDir = true) ∧
    ((tiers.trees tier).get path).any Entry.isSymlink = false

instance (tiers : Tiers α) (path : List String) : Decidable (Plain tiers path) :=
  inferInstanceAs (Decidable (∀ tier ∈ order tiers,
    (∀ part ∈ path.tail.tails, ((tiers.trees tier).get part).all Entry.isDir = true) ∧
      ((tiers.trees tier).get path).any Entry.isSymlink = false))

variable {tiers : Tiers α} {path : List String} {name : String} {up : List String} {tier : Nat}

section Has

theorem has_cons (tiers : Tiers α) (name : String) (up : List String) (tier : Nat) :
    has tiers (name::up) tier = ((tiers.trees tier).get (name::up)).isSome := by
  simp [has]

theorem has_up (there : has tiers (name::up) tier = true) : has tiers up tier = true := by
  rw [has_cons] at there
  obtain ⟨entry,found⟩ := Option.isSome_iff_exists.mp there
  rcases isDir_iff.mp (isDir_of_get found) with root | ⟨parent,above,_⟩
  · simp [has,root]
  · simp [has,above]

theorem not_symlink_of_all {found : Option (Entry String α)} (dirs : found.all Entry.isDir = true) :
    found.any Entry.isSymlink = false := by
  cases found with
  | none => rfl
  | some entry =>
    obtain ⟨kind,value⟩ := entry
    cases kind <;> simp_all [Entry.isDir,Entry.isSymlink]

theorem Plain.parent (plain : Plain tiers (name::up)) : Plain tiers up := by
  intro tier member
  obtain ⟨dirs,_⟩ := plain tier member
  have parts (part : List String) (above : part <:+ up) : ((tiers.trees tier).get part).all Entry.isDir = true :=
    dirs part ((List.mem_tails _ _).mpr above)
  constructor
  · intro part above
    exact parts part (((List.mem_tails _ _).mp above).trans (List.tail_suffix up))
  · exact not_symlink_of_all (parts up List.suffix_rfl)

theorem isDir_of_has (plain : Plain tiers (name::up)) (member : tier ∈ order tiers) (there : has tiers up tier = true) :
    (tiers.trees tier).isDir up = true := by
  obtain ⟨dirs,_⟩ := plain tier member
  rw [isDir_iff]
  rcases of_decide_eq_true there with root | present
  · exact .inl root
  obtain ⟨entry,found⟩ := Option.isSome_iff_exists.mp present
  have directory := dirs up ((List.mem_tails _ _).mpr List.suffix_rfl)
  rw [found] at directory
  exact .inr ⟨entry,found,directory⟩

end Has

section First

theorem firstTier_mem (first : firstTier tiers path = some tier) : tier ∈ order tiers ∧ has tiers path tier = true :=
  ⟨List.mem_of_find?_eq_some first,List.find?_some first⟩

theorem firstTier_none (first : firstTier tiers up = none) : firstTier tiers (name::up) = none := by
  unfold firstTier at first ⊢
  rw [List.find?_eq_none] at first ⊢
  exact fun tier member there => first tier member (has_up there)

theorem firstTier_own (first : firstTier tiers up = some tier) (there : has tiers (name::up) tier = true) :
    firstTier tiers (name::up) = some tier := by
  obtain ⟨_,before,after,split,passed⟩ := List.find?_eq_some_iff_append.mp first
  unfold firstTier
  rw [List.find?_eq_some_iff_append]
  refine ⟨there,before,after,split,fun item member => ?_⟩
  have lacks := passed item member
  cases kept : has tiers (name::up) item with
  | false => rfl
  | true =>
    rw [has_up kept] at lacks
    cases lacks

def Unlinked (tiers : Tiers α) (path : List String) : Prop :=
  ∀ tier ∈ order tiers, (tiers.trees tier).Straight path

instance (tiers : Tiers α) (path : List String) : Decidable (Unlinked tiers path) :=
  inferInstanceAs (Decidable (∀ tier ∈ order tiers, (tiers.trees tier).Straight path))

theorem Unlinked.above {rel : List String} (unlinked : Unlinked tiers path) (within : rel <:+ path) : Unlinked tiers rel :=
  fun tier member part above =>
    unlinked tier member part ((List.mem_tails _ _).mpr (((List.mem_tails _ _).mp above).trans within))

theorem Plain.unlinked (plain : Plain tiers (name::up)) : Unlinked tiers (name::up) := by
  intro tier member part within
  obtain ⟨dirs,last⟩ := plain tier member
  rcases List.mem_cons.mp within with rfl | above
  · exact last
  · exact not_symlink_of_all (dirs part above)

theorem resolveRelPathOnTier_straight (straight : (tiers.trees tier).Straight (name::up)) :
    resolveRelPathOnTier tiers (name::up) tier = if has tiers (name::up) tier then some ⟨tier,name::up⟩ else none := by
  unfold resolveRelPathOnTier resolveRelPath
  cases found : (tiers.trees tier).get (name::up) with
  | some entry =>
    have above := follow_downwards maxSymlinks (isDir_of_get found)
    have last := straight (name::up) List.mem_cons_self
    rw [found] at last
    rw [downwards_cons,follow_child above found last]
    simp [has,found]
  | none =>
    split
    next reached ended =>
      rw [downwards_cons] at ended
      obtain ⟨parent,above,there⟩ := follow_snoc ended
      rw [follow_straight (fun part within => straight part (List.mem_cons_of_mem _ within)) above,found] at there
      exact absurd rfl there
    · simp [has,found]

theorem base_first (unlinked : Unlinked tiers (name::up)) (cached : tiers.pool.cacheMode = true) :
    resolveRelPathOnTier tiers (name::up) (baseTier tiers.pool) = (firstTier tiers (name::up)).map (Place.mk · (name::up)) := by
  have only : order tiers = [baseTier tiers.pool] := by simp [order,rootTier,cached]
  rw [resolveRelPathOnTier_straight (unlinked _ (by rw [only]; exact List.mem_cons_self)),firstTier,only,List.find?_singleton]
  cases has tiers (name::up) (baseTier tiers.pool) <;> rfl

theorem findSome_resolve {list : List Nat}
    (known : ∀ tier ∈ list, resolveRelPathOnTier tiers path tier = if has tiers path tier then some ⟨tier,path⟩ else none) :
    list.findSome? (resolveRelPathOnTier tiers path) = (list.find? (has tiers path)).map (Place.mk · path) := by
  induction list with
  | nil => rfl
  | cons tier rest ih =>
    have onward := ih fun other member => known other (List.mem_cons_of_mem _ member)
    rw [List.findSome?_cons,List.find?_cons,known tier List.mem_cons_self,onward]
    cases has tiers path tier <;> rfl

theorem firstTier_across (tiered : tiers.pool.cacheMode = false) (first : firstTier tiers up = some tier)
    (lacks : has tiers (name::up) tier = false) :
    firstTier tiers (name::up) = (activeTiers tiers.pool tiers.mask).find? (has tiers (name::up)) := by
  have listed : order tiers = rootTier tiers.pool::activeTiers tiers.pool tiers.mask := by simp [order,tiered]
  have absent : has tiers (name::up) (rootTier tiers.pool) = false := by
    by_contra there
    rw [Bool.not_eq_false] at there
    have head : firstTier tiers up = some (rootTier tiers.pool) := by
      rw [firstTier,listed,List.find?_cons,has_up there]
    rw [first] at head
    rw [Option.some.inj head,there] at lacks
    cases lacks
  rw [firstTier,listed,List.find?_cons,absent]

theorem across_first (unlinked : Unlinked tiers (name::up)) (tiered : tiers.pool.cacheMode = false)
    (first : firstTier tiers up = some tier) (lacks : has tiers (name::up) tier = false) :
    lookupRelAcrossTiers tiers (name::up) = (firstTier tiers (name::up)).map (Place.mk · (name::up)) := by
  have listed : order tiers = rootTier tiers.pool::activeTiers tiers.pool tiers.mask := by simp [order,tiered]
  rw [firstTier_across tiered first lacks]
  apply findSome_resolve
  intro other active
  exact resolveRelPathOnTier_straight (unlinked other (by rw [listed]; exact List.mem_cons_of_mem _ active))

theorem lookupInner_first (unlinked : Unlinked tiers (name::up)) (first : firstTier tiers up = some tier) :
    lookupInner tiers ⟨tier,up⟩ name (name::up) = (firstTier tiers (name::up)).map (Place.mk · (name::up)) := by
  unfold lookupInner search
  split
  next cached =>
    simpa [Function.comp_def] using base_first unlinked cached
  next tiered =>
  rw [Bool.not_eq_true] at tiered
  cases found : (tiers.trees tier).get (name::up) with
  | some entry =>
    rw [firstTier_own first (by rw [has_cons,found]; rfl)]
    rfl
  | none =>
    simpa [Function.comp_def] using across_first unlinked tiered first (by rw [has_cons,found]; rfl)

theorem lookupCold_first (plain : Plain tiers path) : lookupCold tiers path = (firstTier tiers path).map (Place.mk · path) := by
  induction path with
  | nil => rfl
  | cons name up ih =>
    rw [lookupCold,ih plain.parent]
    cases first : firstTier tiers up with
    | none =>
      rw [firstTier_none first]
      rfl
    | some tier =>
      obtain ⟨member,there⟩ := firstTier_mem first
      simp only [Option.map_some,Option.bind_some,isDir_of_has plain member there]
      exact lookupInner_first plain.unlinked first

end First

end Smoothfs.ColdLookup
