import Smoothfs.ColdLookup

/-! What readdir of a directory emits, and what a lookup of an emitted name finds.
The trees of the tiers are arbitrary and may have symbolic links anywhere; the
directory and the inodes in memory are what a mount may have cached of them. -/
namespace Smoothfs.Listing

open Smoothfs.Tree

open ColdLookup (baseTier resolveRelPath)
open Lookup (activeTiers search search_base search_own search_mapped search_across)

structure LowerInode where
  ino : Nat
  oid : Option Oid
  deriving DecidableEq, Repr

abbrev TierTree := Tree String LowerInode

abbrev LowerEntry := Entry String LowerInode

structure Tiers where
  pool : Pool
  mask : Nat
  roots : Nat → LowerInode
  trees : Nat → TierTree

structure Backing where
  tier : Nat
  entry : LowerEntry
  deriving DecidableEq, Repr

structure Held where
  oid : Oid
  backing : Backing
  relPath : Option (List String)
  linked : Bool
  deriving DecidableEq, Repr

structure Directory where
  rel : List String
  tier : Nat
  lower : List String
  currentTier : Nat
  deriving DecidableEq, Repr

structure Listed where
  name : String
  backing : Backing
  deriving DecidableEq, Repr

def canonicalTier (pool : Pool) (currentTier : Nat) : Nat :=
  if currentTier < pool.ntiers then currentTier else pool.fastestTier

def entryAt (tiers : Tiers) (tier : Nat) (path : List String) : Option LowerEntry :=
  if path = [] then some ⟨.dir,tiers.roots tier⟩ else (tiers.trees tier).get path

section Readdir

def names (listed : List Listed) : List String := listed.map Listed.name

def collectOneDir (listed : List Listed) (tier : Nat) (children : List (String × LowerEntry)) : List Listed :=
  listed ++ (children.filter fun child => child.1 ∉ names listed).map fun child => ⟨child.1,tier,child.2⟩

/-- Only a copy that is not there may be left out. -/
def collectTiers (tiers : Tiers) (rel : List String) : List Nat → List Listed → Except Error (List Listed)
  | [], listed => .ok listed
  | tier::rest, listed =>
    match resolveRelPath (tiers.trees tier) rel with
    | .error .missing => collectTiers tiers rel rest listed
    | .error .notDirectory => collectTiers tiers rel rest listed
    | .error error => .error error
    | .ok path =>
      if (tiers.trees tier).isDir path then
        collectTiers tiers rel rest (collectOneDir listed tier ((tiers.trees tier).children path))
      else collectTiers tiers rel rest listed

/-- The names that readdir emits besides `.` and `..`. -/
def buildDirCache (tiers : Tiers) (dir : Directory) : Except Error (List Listed) :=
  let own := collectOneDir [] dir.tier ((tiers.trees dir.tier).children dir.lower)
  if tiers.pool.cacheMode then .ok own
  else collectTiers tiers dir.rel
    ((activeTiers tiers.pool tiers.mask).filter (· ≠ canonicalTier tiers.pool dir.currentTier)) own

end Readdir

section Lookup

variable (number : Oid → Nat) (tiers : Tiers) (cache : List Held) (fresh : Oid)

def identity (backing : Backing) : Oid := backing.entry.value.oid.getD fresh

/-- Over this lower inode, or by the inode number of its identity, or new. -/
def iget (backing : Backing) : Held :=
  match cache.find? (fun held => held.backing.tier = backing.tier ∧ held.backing.entry.value.ino = backing.entry.value.ino) with
  | some held => held
  | none =>
    match cache.find? (fun held => number held.oid = number (identity fresh backing)) with
    | some held => held
    | none => ⟨identity fresh backing,backing,none,true⟩

/-- With the check of the lower link count. -/
def lookupRelPath (rel : List String) : Option Held :=
  (cache.find? fun held => held.relPath = some rel).filter Held.linked

def resolved (tier : Nat) (rel : List String) : Option Backing :=
  match resolveRelPath (tiers.trees tier) rel with
  | .ok path => (entryAt tiers tier path).map (Backing.mk tier)
  | .error _ => none

def lookupRelAcrossTiers (rel : List String) : Option Backing :=
  (activeTiers tiers.pool tiers.mask).findSome? fun tier => resolved tiers tier rel

/-- As far as the inode it finds. -/
def lookupInner (dir : Directory) (name : String) : Option Held :=
  (search tiers.pool.cacheMode (resolved tiers (baseTier tiers.pool) (name::dir.rel))
    (((tiers.trees dir.tier).get (name::dir.lower)).map (Backing.mk dir.tier)) (lookupRelPath cache (name::dir.rel))
    (lookupRelAcrossTiers tiers (name::dir.rel))).map fun
    | .known held => held
    | .lower backing _ => iget number cache fresh backing

end Lookup

/-- No inode in memory goes by the lower inode number or by the inode number of
the file and is backed by another. -/
def Recognised (number : Oid → Nat) (cache : List Held) (fresh : Oid) (backing : Backing) : Prop :=
  ∀ held ∈ cache, (held.backing.tier = backing.tier ∧ held.backing.entry.value.ino = backing.entry.value.ino ∨
    number held.oid = number (identity fresh backing)) → held.backing = backing

/-- On the base tier the path leads to the listed file. In tier mode a name that is not read in the
directory's own lower directory has a live inode over the file in the path map; or it has none, is
not that of a link, and the path leads to nothing on the canonical tier if that is searched first. -/
def Direct (tiers : Tiers) (cache : List Held) (dir : Directory) (item : Listed) : Prop :=
  if tiers.pool.cacheMode then resolved tiers (baseTier tiers.pool) (item.name::dir.rel) = some item.backing
  else (tiers.trees dir.tier).get (item.name::dir.lower) = none →
    match lookupRelPath cache (item.name::dir.rel) with
    | some held => held.backing = item.backing
    | none => item.backing.entry.isSymlink = false ∧
      let canonical := canonicalTier tiers.pool dir.currentTier
      (canonical ∈ activeTiers tiers.pool tiers.mask → canonical < item.backing.tier →
        resolved tiers canonical (item.name::dir.rel) = none)

/-- The inode of the name is had without a look at the lower file. -/
def Mapped (tiers : Tiers) (cache : List Held) (dir : Directory) (name : String) : Prop :=
  tiers.pool.cacheMode = false ∧ (tiers.trees dir.tier).get (name::dir.lower) = none ∧
    lookupRelPath cache (name::dir.rel) ≠ none

def Resolves (number : Oid → Nat) (tiers : Tiers) (cache : List Held) (fresh : Oid) (dir : Directory) (item : Listed) : Prop :=
  (lookupInner number tiers cache fresh dir item.name).map Held.backing = some item.backing

def Stands (tiers : Tiers) (backing : Backing) : Prop :=
  ∃ path, entryAt tiers backing.tier path = some backing.entry

section Readdir

variable {tiers : Tiers} {dir : Directory} {rel : List String} {listed final : List Listed} {item : Listed} {tier : Nat}

theorem mem_collectOneDir {children : List (String × LowerEntry)} : item ∈ collectOneDir listed tier children ↔
    item ∈ listed ∨ item.name ∉ names listed ∧ item.backing.tier = tier ∧ (item.name,item.backing.entry) ∈ children := by
  obtain ⟨name,there,entry⟩ := item
  simp only [collectOneDir,List.mem_append,List.mem_map,List.mem_filter,Listed.mk.injEq,Backing.mk.injEq,Prod.exists]
  constructor
  · rintro (before | ⟨_,_,⟨member,new⟩,rfl,rfl,rfl⟩)
    · exact .inl before
    · exact .inr ⟨of_decide_eq_true new,rfl,member⟩
  · rintro (before | ⟨new,rfl,member⟩)
    · exact .inl before
    · exact .inr ⟨_,_,⟨member,decide_eq_true new⟩,rfl,rfl,rfl⟩

theorem names_collectOneDir {children : List (String × LowerEntry)} {name : String}
    (there : name ∈ names listed ∨ ∃ entry, (name,entry) ∈ children) : name ∈ names (collectOneDir listed tier children) := by
  by_cases known : name ∈ names listed
  · obtain ⟨item,member,rfl⟩ := List.mem_map.mp known
    exact List.mem_map.mpr ⟨item,mem_collectOneDir.mpr (.inl member),rfl⟩
  · obtain ⟨entry,child⟩ := there.resolve_left known
    exact List.mem_map.mpr ⟨⟨name,tier,entry⟩,mem_collectOneDir.mpr (.inr ⟨known,rfl,child⟩),rfl⟩

def Lacks (tiers : Tiers) (rel : List String) (name : String) (tier : Nat) : Prop :=
  ∀ path, resolveRelPath (tiers.trees tier) rel = .ok path → (tiers.trees tier).get (name::path) = none

def Has (tiers : Tiers) (rel : List String) (item : Listed) (tier : Nat) : Prop :=
  item.backing.tier = tier ∧ ∃ path, resolveRelPath (tiers.trees tier) rel = .ok path ∧
    (tiers.trees tier).get (item.name::path) = some item.backing.entry

theorem mem_collectTiers {order : List Nat} (collected : collectTiers tiers rel order listed = .ok final) (member : item ∈ final) :
    item ∈ listed ∨ item.name ∉ names listed ∧ ∃ before tier after, order = before ++ tier::after ∧
      Has tiers rel item tier ∧ ∀ earlier ∈ before, Lacks tiers rel item.name earlier := by
  induction order generalizing listed with
  | nil =>
    cases collected
    exact .inl member
  | cons tier rest ih =>
    -- A tier that adds nothing only grows the part of the order that lacks the name.
    have skip (same : collectTiers tiers rel rest listed = .ok final) (lacks : Lacks tiers rel item.name tier) :
        item ∈ listed ∨ item.name ∉ names listed ∧ ∃ before found after, tier::rest = before ++ found::after ∧
          Has tiers rel item found ∧ ∀ earlier ∈ before, Lacks tiers rel item.name earlier := by
      rcases ih same with before | ⟨new,before,found,after,order,has,lacking⟩
      · exact .inl before
      · exact .inr ⟨new,tier::before,found,after,by rw [order]; rfl,has,
          fun earlier within => (List.mem_cons.mp within).elim (fun same => by rw [same]; exact lacks) (lacking earlier)⟩
    unfold collectTiers at collected
    split at collected
    next failed => exact skip collected fun path resolved => by rw [failed] at resolved; cases resolved
    next failed => exact skip collected fun path resolved => by rw [failed] at resolved; cases resolved
    · cases collected
    next path resolved =>
    split at collected
    next directory =>
      rcases ih collected with within | ⟨new,before,found,after,order,has,lacking⟩
      · rcases mem_collectOneDir.mp within with before | ⟨new,same,child⟩
        · exact .inl before
        · exact .inr ⟨new,[],tier,rest,rfl,⟨same,path,resolved,mem_children.mp child⟩,by simp⟩
      have unlisted : item.name ∉ names listed := fun known => new (names_collectOneDir (.inl known))
      refine .inr ⟨unlisted,tier::before,found,after,by rw [order]; rfl,has,fun earlier within => ?_⟩
      rcases List.mem_cons.mp within with rfl | within
      · intro other same
        rw [resolved] at same
        cases same
        by_contra there
        obtain ⟨entry,there⟩ := Option.ne_none_iff_exists'.mp there
        exact new (names_collectOneDir (.inr ⟨entry,mem_children.mpr there⟩))
      · exact lacking earlier within
    next leaf =>
    apply skip collected
    intro other same
    rw [resolved] at same
    cases same
    by_contra there
    obtain ⟨entry,there⟩ := Option.ne_none_iff_exists'.mp there
    exact leaf (isDir_of_get there)

theorem buildDirCache_own (own : item ∈ collectOneDir [] dir.tier ((tiers.trees dir.tier).children dir.lower)) :
    item.backing.tier = dir.tier ∧ (tiers.trees dir.tier).get (item.name::dir.lower) = some item.backing.entry := by
  rcases mem_collectOneDir.mp own with none | ⟨_,same,child⟩
  · cases none
  · exact ⟨same,mem_children.mp child⟩

end Readdir

section Lookup

variable {number : Oid → Nat} {tiers : Tiers} {cache : List Held} {fresh : Oid} {dir : Directory} {item : Listed}

theorem iget_backing {backing : Backing} (recognised : Recognised number cache fresh backing) :
    (iget number cache fresh backing).backing = backing := by
  unfold iget
  split
  next held found =>
    have matched := List.find?_some found
    rw [decide_eq_true_eq] at matched
    exact recognised held (List.mem_of_find?_eq_some found) (.inl matched)
  · split
    next held found =>
      have matched := List.find?_some found
      rw [decide_eq_true_eq] at matched
      exact recognised held (List.mem_of_find?_eq_some found) (.inr matched)
    · rfl

theorem resolved_has {tier : Nat} (has : Has tiers dir.rel item tier)
    (plain : item.backing.entry.isSymlink = false) : resolved tiers tier (item.name::dir.rel) = some item.backing := by
  obtain ⟨rfl,path,reached,there⟩ := has
  have ended := follow_child reached there plain
  rw [← downwards_cons] at ended
  unfold resolved resolveRelPath
  rw [ended]
  simp [entryAt,there]

theorem resolved_spec {tier : Nat} {rel : List String} {backing : Backing} (found : resolved tiers tier rel = some backing) :
    backing.tier = tier ∧ Stands tiers backing ∧ backing.entry.isSymlink = false := by
  unfold resolved at found
  split at found
  · next path reached =>
    obtain ⟨entry,there,rfl⟩ := Option.map_eq_some_iff.mp found
    refine ⟨rfl,⟨path,there⟩,?_⟩
    unfold entryAt at there
    split at there
    · cases there
      rfl
    · have plain := follow_not_symlink isDir_root reached
      rw [there] at plain
      exact plain
  · cases found

theorem resolved_lacks {tier : Nat} (lacks : Lacks tiers dir.rel item.name tier) :
    resolved tiers tier (item.name::dir.rel) = none := by
  unfold resolved
  split
  next path reached =>
    unfold resolveRelPath at reached
    rw [downwards_cons] at reached
    obtain ⟨parent,above,there⟩ := follow_snoc reached
    exact absurd (lacks parent above) there
  · rfl

theorem sorted_activeTiers (pool : Pool) (mask : Nat) : (activeTiers pool mask).Pairwise (· < ·) :=
  List.Pairwise.filter _ List.pairwise_lt_range

theorem lookupRelAcrossTiers_first {skipped tier : Nat} {before after : List Nat}
    (order : (activeTiers tiers.pool tiers.mask).filter (· ≠ skipped) = before ++ tier::after)
    (absent : skipped ∈ activeTiers tiers.pool tiers.mask → skipped < tier → resolved tiers skipped (item.name::dir.rel) = none)
    (lacking : ∀ earlier ∈ before, Lacks tiers dir.rel item.name earlier)
    (has : Has tiers dir.rel item tier) (plain : item.backing.entry.isSymlink = false) :
    lookupRelAcrossTiers tiers (item.name::dir.rel) = some item.backing := by
  have listed : tier ∈ (activeTiers tiers.pool tiers.mask).filter (· ≠ skipped) := by rw [order]; simp
  obtain ⟨first,rest,split⟩ := List.append_of_mem (List.mem_of_mem_filter listed)
  have sorted := sorted_activeTiers tiers.pool tiers.mask
  have apart := sorted.filter (· ≠ skipped)
  rw [split,List.pairwise_append] at sorted
  rw [order,List.pairwise_append,List.pairwise_cons] at apart
  unfold lookupRelAcrossTiers
  rw [split,List.findSome?_append,List.findSome?_eq_none_iff.mpr,List.findSome?_cons,resolved_has has plain]
  · rfl
  intro earlier within
  have active : earlier ∈ activeTiers tiers.pool tiers.mask := by rw [split]; exact List.mem_append_left _ within
  have lower : earlier < tier := sorted.2.2 earlier within tier List.mem_cons_self
  by_cases passed : earlier = skipped
  · rw [passed] at active lower ⊢
    exact absent active lower
  have kept : earlier ∈ before ++ tier::after := by
    rw [← order]
    exact List.mem_filter.mpr ⟨active,decide_eq_true passed⟩
  rcases List.mem_append.mp kept with prior | later
  · exact resolved_lacks (lacking earlier prior)
  · rcases List.mem_cons.mp later with rfl | beyond
    · exact absurd lower (Nat.lt_irrefl _)
    · exact absurd (apart.2.1.1 earlier beyond) (Nat.lt_asymm lower)

/-- What readdir lists of a name that is not in the own lower directory. -/
theorem listed_elsewhere {listed : List Listed} (emitted : buildDirCache tiers dir = .ok listed) (member : item ∈ listed) :
    (item.backing.tier = dir.tier ∧ (tiers.trees dir.tier).get (item.name::dir.lower) = some item.backing.entry) ∨
      tiers.pool.cacheMode = false ∧ (tiers.trees dir.tier).get (item.name::dir.lower) = none ∧ ∃ before tier after,
        (activeTiers tiers.pool tiers.mask).filter (· ≠ canonicalTier tiers.pool dir.currentTier) = before ++ tier::after ∧
          Has tiers dir.rel item tier ∧ ∀ earlier ∈ before, Lacks tiers dir.rel item.name earlier := by
  unfold buildDirCache at emitted
  cases mode : tiers.pool.cacheMode with
  | true =>
    rw [mode] at emitted
    cases emitted
    exact .inl (buildDirCache_own member)
  | false =>
    simp only [mode] at emitted
    rcases mem_collectTiers emitted member with there | ⟨new,elsewhere⟩
    · exact .inl (buildDirCache_own there)
    refine .inr ⟨rfl,?_,elsewhere⟩
    by_contra there
    obtain ⟨entry,there⟩ := Option.ne_none_iff_exists'.mp there
    exact new (names_collectOneDir (.inr ⟨entry,mem_children.mpr there⟩))

end Lookup

section Exact

variable {number : Oid → Nat} {tiers : Tiers} {cache : List Held} {fresh : Oid} {dir : Directory} {item : Listed}

/-- Where the lookup has come to a lower file, what it returns depends on the inodes in memory. -/
theorem resolves_over {found : Backing}
    (lookedUp : lookupInner number tiers cache fresh dir item.name = some (iget number cache fresh found))
    (recognised : Recognised number cache fresh found) : Resolves number tiers cache fresh dir item ↔ found = item.backing := by
  rw [Resolves,lookedUp,Option.map_some,iget_backing recognised,Option.some.injEq]

theorem resolves_of_direct {listed : List Listed} (emitted : buildDirCache tiers dir = .ok listed) (member : item ∈ listed)
    (direct : Direct tiers cache dir item) (recognised : ¬ Mapped tiers cache dir item.name → Recognised number cache fresh item.backing) :
    Resolves number tiers cache fresh dir item := by
  unfold Direct at direct
  by_cases mode : tiers.pool.cacheMode = true
  · rw [if_pos mode] at direct
    refine (resolves_over ?_ (recognised fun mapped => absurd mapped.1 (by simp [mode]))).mpr rfl
    rw [lookupInner,search_base mode,direct,Option.map_some,Option.map_some]
  rw [if_neg mode] at direct
  rcases listed_elsewhere emitted member with ⟨tier,there⟩ | ⟨_,absent,before,tier,after,order,has,lacking⟩
  · refine (resolves_over ?_ (recognised fun mapped => ?_)).mpr rfl
    · rw [lookupInner,there,Option.map_some,search_own mode,← tier,Option.map_some]
    · have absent := mapped.2.1
      rw [there] at absent
      cases absent
  · specialize direct absent
    cases keyed : lookupRelPath cache (item.name::dir.rel) with
    | some held =>
      rw [keyed] at direct
      rw [Resolves,lookupInner,absent,keyed,Option.map_none,search_mapped mode]
      exact congrArg some direct
    | none =>
      rw [keyed] at direct
      refine (resolves_over ?_ (recognised fun mapped => mapped.2.2 keyed)).mpr rfl
      have own : item.backing.tier = tier := has.1
      rw [lookupInner,absent,keyed,Option.map_none,search_across mode,
        lookupRelAcrossTiers_first order (own ▸ direct.2) lacking has direct.1,Option.map_some,Option.map_some]

theorem direct_of_resolves (distinct : ∀ backing, Stands tiers backing → Recognised number cache fresh backing)
    (resolves : Resolves number tiers cache fresh dir item) : Direct tiers cache dir item := by
  unfold Direct
  split
  · next base =>
    cases found : resolved tiers (baseTier tiers.pool) (item.name::dir.rel) with
    | none =>
      rw [Resolves,lookupInner,search_base base,found] at resolves
      cases resolves
    | some backing =>
      have backs := resolves_over (by rw [lookupInner,search_base base,found,Option.map_some,Option.map_some])
        (distinct backing (resolved_spec found).2.1)
      rw [backs.mp resolves]
  next tiered =>
  intro absent
  cases keyed : lookupRelPath cache (item.name::dir.rel) with
  | some held =>
    rw [Resolves,lookupInner,absent,keyed,Option.map_none,search_mapped tiered] at resolves
    exact Option.some.inj resolves
  | none =>
    cases found : lookupRelAcrossTiers tiers (item.name::dir.rel) with
    | none =>
      rw [Resolves,lookupInner,absent,keyed,Option.map_none,search_across tiered,found] at resolves
      cases resolves
    | some backing =>
      obtain ⟨first,tier,rest,split,here,passed⟩ := List.findSome?_eq_some_iff.mp found
      obtain ⟨place,stands,plain⟩ := resolved_spec here
      have looked : lookupInner number tiers cache fresh dir item.name = some (iget number cache fresh backing) := by
        rw [lookupInner,absent,keyed,Option.map_none,search_across tiered,found,Option.map_some,Option.map_some]
      have same := (resolves_over looked (distinct backing stands)).mp resolves
      subst same
      refine ⟨plain,fun active lower => passed _ ?_⟩
      rw [place] at lower
      have sorted := sorted_activeTiers tiers.pool tiers.mask
      rw [split,List.pairwise_append,List.pairwise_cons] at sorted
      rw [split] at active
      rcases List.mem_append.mp active with prior | later
      · exact prior
      · rcases List.mem_cons.mp later with same | beyond
        · exact absurd lower (by rw [same]; exact Nat.lt_irrefl _)
        · exact absurd (sorted.2.1.1 _ beyond) (Nat.lt_asymm lower)

end Exact

/-- Every name that readdir emits resolves in the same state to an inode over the very entry that
was listed; and, where no inode in memory goes by the numbers of a file that it is not over, only
then. -/
theorem listed_names_resolve (number : Oid → Nat) (tiers : Tiers) (cache : List Held) (fresh : Oid) (dir : Directory)
    (listed : List Listed) (emitted : buildDirCache tiers dir = .ok listed) (item : Listed) (member : item ∈ listed) :
    (Direct tiers cache dir item ∧ (¬ Mapped tiers cache dir item.name → Recognised number cache fresh item.backing) →
        Resolves number tiers cache fresh dir item) ∧
      ((∀ backing, Stands tiers backing → Recognised number cache fresh backing) → Resolves number tiers cache fresh dir item →
        Direct tiers cache dir item) :=
  ⟨fun met => resolves_of_direct emitted member met.1 met.2,direct_of_resolves⟩

instance (number : Oid → Nat) (cache : List Held) (fresh : Oid) (backing : Backing) :
    Decidable (Recognised number cache fresh backing) := inferInstanceAs (Decidable (∀ held ∈ cache, _ → _))

private def listingPool (cacheMode : Bool) : Pool := ⟨2,0,cacheMode,false,false,false⟩

private def listingTiers (cacheMode : Bool) (other : Kind String) : Tiers where
  pool := listingPool cacheMode
  mask := 3
  roots := fun tier => ⟨tier,none⟩
  trees := fun tier =>
    if tier = 0 then ⟨[(["d"],⟨.dir,⟨2,some 10⟩⟩),(["f","d"],⟨.leaf,⟨3,some 11⟩⟩)],by decide,by decide,by decide⟩
    else ⟨[(["d"],⟨.dir,⟨2,some 12⟩⟩),(["l","d"],⟨other,⟨3,some 13⟩⟩)],by simp,by simp,by simp [Entry.isDir]⟩

theorem two_tiers_resolve :
    let tiers := listingTiers false .leaf
    let dir : Directory := ⟨["d"],0,["d"],0⟩
    let cache : List Held := [⟨11,⟨0,⟨.leaf,⟨3,some 11⟩⟩⟩,none,true⟩]
    let listed : List Listed := [⟨"f",0,⟨.leaf,⟨3,some 11⟩⟩⟩,⟨"l",1,⟨.leaf,⟨3,some 13⟩⟩⟩]
    buildDirCache tiers dir = .ok listed ∧
      ∀ item ∈ listed, (lookupInner id tiers cache 99 dir item.name).map Held.backing = some item.backing := by
  have emitted : buildDirCache (listingTiers false .leaf) ⟨["d"],0,["d"],0⟩ =
      .ok [⟨"f",0,⟨.leaf,⟨3,some 11⟩⟩⟩,⟨"l",1,⟨.leaf,⟨3,some 13⟩⟩⟩] := by rfl
  refine ⟨emitted,fun item member => ?_⟩
  apply (listed_names_resolve id _ _ 99 _ _ emitted item member).1
  simp only [List.mem_cons,List.not_mem_nil,or_false] at member
  rcases member with rfl | rfl
  · exact ⟨fun absent => absurd absent (by decide),fun _ => by decide⟩
  · exact ⟨fun _ => ⟨rfl,fun _ _ => by decide +kernel⟩,fun _ => by decide⟩

/-- A dangling link on another tier; in cache mode a link is looked up as the file it leads to. -/
theorem listed_link_does_not_resolve :
    (let tiers := listingTiers false (.symlink true [some "gone"])
     let dir : Directory := ⟨["d"],0,["d"],0⟩
     ∃ listed, buildDirCache tiers dir = .ok listed ∧
       ⟨"l",1,⟨.symlink true [some "gone"],⟨3,some 13⟩⟩⟩ ∈ listed ∧ lookupInner id tiers [] 99 dir "l" = none) ∧
    (let tiers := listingTiers true (.symlink true [some "d"])
     let dir : Directory := ⟨["d"],1,["d"],1⟩
     ∃ listed, buildDirCache tiers dir = .ok listed ∧
       ⟨"l",1,⟨.symlink true [some "d"],⟨3,some 13⟩⟩⟩ ∈ listed ∧
       (lookupInner id tiers [] 99 dir "l").map Held.backing = some ⟨1,.dir,⟨2,some 12⟩⟩) :=
  ⟨⟨_,rfl,by decide,by decide +kernel⟩,⟨_,rfl,by decide,by decide +kernel⟩⟩

end Smoothfs.Listing
