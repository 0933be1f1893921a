import Smoothfs.ColdLookup

/-! The parent that an NFS server is given for a directory, against the parent that a
lookup of the path finds. Inodes, dentries and the path map may hold anything that a
mount can have brought there. -/
namespace Smoothfs.NamespaceParent

open ColdLookup
open Lookup (search search_base search_own search_mapped search_across)

structure Inode where
  oid : Oid
  lower : Place
  deriving DecidableEq, Repr

inductive Node where
  | root
  | inode (inode : Inode)
  deriving DecidableEq, Repr

structure State where
  tiers : Tiers Oid
  roots : Nat → Oid
  inodes : List Inode
  dentries : List (List String × Inode)
  pathMap : List (List String × Inode)

def keyed (entries : List (List String × Inode)) (path : List String) : Option Inode :=
  (entries.find? fun entry => entry.1 = path).map Prod.snd

namespace State

def rootPlace (state : State) : Place := ⟨rootTier state.tiers.pool,[]⟩

def identity (state : State) (place : Place) : Option Oid :=
  if place.tier < state.tiers.pool.ntiers then
    if place.path = [] then some (state.roots place.tier)
    else ((state.tiers.trees place.tier).get place.path).map Tree.Entry.value
  else none

def lower (state : State) : Node → Place
  | .root => state.rootPlace
  | .inode inode => inode.lower

end State

section Model

variable (number : Oid → Nat)

/-- Over this lower directory, or of its identity's inode number, or new. -/
def iget (state : State) (place : Place) : Option (Inode × State) :=
  match state.inodes.find? (fun inode => inode.lower = place) with
  | some inode => some (inode,state)
  | none => (state.identity place).map fun oid =>
    match state.inodes.find? (fun inode => number inode.oid = number oid) with
    | some inode => (inode,state)
    | none => (⟨oid,place⟩,{ state with inodes := ⟨oid,place⟩::state.inodes })

def trackPlaced (rel : List String) (found : Inode × State) : Inode × State :=
  (found.1,{ found.2 with pathMap := (rel,found.1)::found.2.pathMap.filter fun entry => entry.2 ≠ found.1 })

def lookupInner (state : State) (dir : Place) (name : String) (rel : List String) : Option (Inode × State) :=
  (search state.tiers.pool.cacheMode (resolveRelPathOnTier state.tiers rel (baseTier state.tiers.pool))
    (((state.tiers.trees dir.tier).get (name::dir.path)).map fun _ => ⟨dir.tier,name::dir.path⟩) (keyed state.pathMap rel)
    (lookupRelAcrossTiers state.tiers rel)).bind fun
    | .known inode => some (inode,state)
    | .lower place tracked => (iget number state place).map fun found => if tracked then trackPlaced rel found else found

def lookupPath (state : State) : List String → Option (Node × State)
  | [] => some (.root,state)
  | name::up => (lookupPath state up).bind fun dir =>
    match keyed dir.2.dentries (name::up) with
    | some inode => some (.inode inode,dir.2)
    | none =>
      if (dir.2.tiers.trees (dir.2.lower dir.1).tier).isDir (dir.2.lower dir.1).path then
        (lookupInner number dir.2 (dir.2.lower dir.1) name (name::up)).map fun found =>
          (.inode found.1,{ found.2 with dentries := (name::up,found.1)::found.2.dentries })
      else none

/-- What is above the root of a tier is not in the pool. -/
def getParent (state : State) (child : Place) : Option (Node × State) :=
  match child.path with
  | [] => none
  | _::up =>
    if (⟨child.tier,up⟩ : Place) = state.rootPlace then some (.root,state)
    else (iget number state ⟨child.tier,up⟩).map fun found => (.inode found.1,found.2)

end Model

section Conditions

/-- An inode has the identity of its lower directory, and what leads to an inode leads to
one in memory. -/
structure Sound (state : State) : Prop where
  rooted : rootTier state.tiers.pool < state.tiers.pool.ntiers
  identified : ∀ inode ∈ state.inodes, state.identity inode.lower = some inode.oid
  dentries : ∀ entry ∈ state.dentries, entry.2 ∈ state.inodes
  pathMap : ∀ entry ∈ state.pathMap, entry.2 ∈ state.inodes

/-- The copies of the path and of what is above it. -/
def onPath (state : State) (path : List String) : List Place :=
  (List.range state.tiers.pool.ntiers).flatMap fun tier => path.tails.map (Place.mk tier)

/-- No inode in memory has the inode number of a copy that it is not over, and no two copies have one. -/
def Apart (number : Oid → Nat) (state : State) (path : List String) : Prop :=
  ∀ one ∈ onPath state path ++ state.inodes.map Inode.lower, ∀ two ∈ onPath state path,
    (state.identity two).isSome → (state.identity one).map number = (state.identity two).map number → one = two

instance (number : Oid → Nat) (state : State) (path : List String) : Decidable (Apart number state path) :=
  inferInstanceAs (Decidable (∀ one ∈ onPath state path ++ state.inodes.map Inode.lower, ∀ two ∈ onPath state path,
    (state.identity two).isSome → (state.identity one).map number = (state.identity two).map number → one = two))

def remembered (state : State) : List (List String × Inode) := state.dentries ++ state.pathMap

/-- What is in memory of the path and of the directories above it is over a directory that has that
path on its tier. -/
def InPlace (state : State) (path : List String) : Prop :=
  ∀ entry ∈ remembered state, entry.1 <:+ path → entry.2.lower.path = entry.1

instance (state : State) (path : List String) : Decidable (InPlace state path) :=
  inferInstanceAs (Decidable (∀ entry ∈ remembered state, entry.1 <:+ path → entry.2.lower.path = entry.1))

/-- The tier on which a name without a dentry is looked up in a directory: the directory's, if the
name is there, or the one of the inode in the path map, or the first active one that has the path;
in cache mode the base tier. -/
def homeBelow (state : State) (above : Nat) (name : String) (up : List String) : Option Nat :=
  if (state.tiers.trees above).isDir up then
    if state.tiers.pool.cacheMode then
      if has state.tiers (name::up) (baseTier state.tiers.pool) then some (baseTier state.tiers.pool) else none
    else if has state.tiers (name::up) above then some above
    else
      match keyed state.pathMap (name::up) with
      | some inode => some inode.lower.tier
      | none => (Lookup.activeTiers state.tiers.pool state.tiers.mask).find? (has state.tiers (name::up))
  else none

/-- The tier on which a path is looked up, by what is in memory of it. -/
def home (state : State) : List String → Option Nat
  | [] => some (rootTier state.tiers.pool)
  | name::up => (home state up).bind fun above =>
    match keyed state.dentries (name::up) with
    | some inode => some inode.lower.tier
    | none => homeBelow state above name up

end Conditions

section Lookup

variable {number : Oid → Nat} {state later : State} {place : Place} {inode : Inode} {path rel : List String} {tier : Nat}

theorem mem_onPath {oid : Oid} (known : state.identity ⟨tier,rel⟩ = some oid) (within : rel <:+ path) : ⟨tier,rel⟩ ∈ onPath state path := by
  unfold State.identity at known
  split at known
  next inside => exact List.mem_flatMap.mpr ⟨tier,List.mem_range.mpr inside,List.mem_map.mpr ⟨rel,(List.mem_tails _ _).mpr within,rfl⟩⟩
  next => cases known

theorem identity_of_same (tiers : later.tiers = state.tiers) (roots : later.roots = state.roots) :
    later.identity = state.identity := by
  unfold State.identity
  rw [tiers,roots]

theorem identity_of_has (inside : tier < state.tiers.pool.ntiers) (there : has state.tiers rel tier = true) :
    ∃ oid, state.identity ⟨tier,rel⟩ = some oid := by
  unfold State.identity
  rw [if_pos inside]
  split
  next => exact ⟨_,rfl⟩
  next proper =>
  obtain ⟨entry,found⟩ := Option.isSome_iff_exists.mp ((of_decide_eq_true there).resolve_left proper)
  exact ⟨entry.value,by rw [found]; rfl⟩

/-- One step of a walk along the path: it makes inodes for copies of the path only, and what is in
memory of the path below the name stays as it was. -/
structure Grown (state later : State) (path rel : List String) : Prop where
  sound : Sound later
  tiers : later.tiers = state.tiers
  roots : later.roots = state.roots
  inodes : ∀ inode ∈ later.inodes, inode ∈ state.inodes ∨ inode.lower ∈ onPath state path
  inPlace : InPlace later path
  beyond : ∀ further, further <:+ path → ¬further <:+ rel →
    keyed later.dentries further = keyed state.dentries further ∧ keyed later.pathMap further = keyed state.pathMap further

theorem Grown.trans {middle : State} {up : List String} (before : Grown state middle path up) (after : Grown middle later path rel)
    (above : up <:+ rel) : Grown state later path rel where
  sound := after.sound
  tiers := after.tiers.trans before.tiers
  roots := after.roots.trans before.roots
  inodes := by
    intro inode member
    have same : onPath middle path = onPath state path := by rw [onPath,onPath,before.tiers]
    rcases after.inodes inode member with held | made
    · exact before.inodes inode held
    · exact .inr (same ▸ made)
  inPlace := after.inPlace
  beyond := by
    intro further within outside
    have first := before.beyond further within fun short => outside (short.trans above)
    have second := after.beyond further within outside
    exact ⟨second.1.trans first.1,second.2.trans first.2⟩

theorem Apart.grown (apart : Apart number state path) (grown : Grown state later path rel) : Apart number later path := by
  have same : onPath later path = onPath state path := by rw [onPath,onPath,grown.tiers]
  unfold Apart
  rw [identity_of_same grown.tiers grown.roots,same]
  intro one member two
  apply apart one _ two
  rcases List.mem_append.mp member with copy | held
  · exact List.mem_append_left _ copy
  obtain ⟨inode,known,rfl⟩ := List.mem_map.mp held
  rcases grown.inodes inode known with before | made
  · exact List.mem_append_right _ (List.mem_map.mpr ⟨inode,before,rfl⟩)
  · exact List.mem_append_left _ made

/-- The node that a walk has come to. -/
structure Reached (later : State) (place : Place) (node : Node) : Prop where
  backs : later.lower node = place
  held : ∀ inode, node = .inode inode → inode ∈ later.inodes
  root : node = .root ↔ place = later.rootPlace

theorem iget_reached {oid : Oid} (sound : Sound state) (apart : Apart number state path) (steady : InPlace state path)
    (within : rel <:+ path) (known : state.identity ⟨tier,rel⟩ = some oid) :
    ∃ inode later, iget number state ⟨tier,rel⟩ = some (inode,later) ∧ inode.lower = ⟨tier,rel⟩ ∧ inode ∈ later.inodes ∧
      Grown state later path rel := by
  have still : Grown state state path rel := ⟨sound,rfl,rfl,fun _ member => .inl member,steady,fun _ _ _ => ⟨rfl,rfl⟩⟩
  unfold iget
  cases cached : state.inodes.find? (fun inode => inode.lower = ⟨tier,rel⟩) with
  | some inode =>
    have backs : inode.lower = ⟨tier,rel⟩ := by simpa using List.find?_some cached
    exact ⟨inode,state,rfl,backs,List.mem_of_find?_eq_some cached,still⟩
  | none =>
    simp only [known,Option.map_some]
    cases taken : state.inodes.find? (fun inode => number inode.oid = number oid) with
    | some inode =>
      -- The number is another's only if the identity is.
      have member := List.mem_of_find?_eq_some taken
      have equal : number inode.oid = number oid := by simpa using List.find?_some taken
      have backs : inode.lower = ⟨tier,rel⟩ := by
        apply apart inode.lower (List.mem_append_right _ (List.mem_map.mpr ⟨inode,member,rfl⟩)) _ (mem_onPath known within)
        · rw [known]
          rfl
        · rw [sound.identified inode member,known,Option.map_some,Option.map_some,equal]
      exact ⟨inode,state,rfl,backs,member,still⟩
    | none =>
      refine ⟨_,_,rfl,rfl,List.mem_cons_self,?_,rfl,rfl,?_,steady,fun _ _ _ => ⟨rfl,rfl⟩⟩
      · refine ⟨sound.rooted,?_,fun entry member => List.mem_cons_of_mem _ (sound.dentries entry member),
          fun entry member => List.mem_cons_of_mem _ (sound.pathMap entry member)⟩
        intro inode member
        rcases List.mem_cons.mp member with rfl | before
        · exact known
        · exact sound.identified inode before
      · intro inode member
        rcases List.mem_cons.mp member with rfl | before
        · exact .inr (mem_onPath known within)
        · exact .inl before

theorem keyed_cons_of_ne {entries : List (List String × Inode)} {further : List String} (other : further ≠ rel) :
    keyed ((rel,inode)::entries) further = keyed entries further := by
  simp [keyed,Ne.symm other]

/-- The entries that go are those of an inode over the path itself. -/
theorem keyed_filter {entries : List (List String × Inode)} {further : List String}
    (kept : ∀ entry ∈ entries, entry.1 = further → entry.2 ≠ inode) :
    keyed (entries.filter fun entry => entry.2 ≠ inode) further = keyed entries further := by
  induction entries with
  | nil => rfl
  | cons entry rest ih =>
    have onward := ih fun other member => kept other (List.mem_cons_of_mem _ member)
    unfold keyed at onward ⊢
    by_cases here : entry.1 = further
    · have stays := kept entry List.mem_cons_self here
      simp [stays,here]
    · rw [List.find?_cons_of_neg (by simpa using here),← onward]
      by_cases gone : entry.2 = inode
      · simp [gone]
      · simp [gone,here]

theorem trackPlaced_grown (grown : Grown state later path rel) (backs : inode.lower.path = rel) (held : inode ∈ later.inodes) :
    Grown state (trackPlaced rel (inode,later)).2 path rel where
  sound := by
    refine ⟨grown.sound.rooted,grown.sound.identified,grown.sound.dentries,?_⟩
    intro entry member
    rcases List.mem_cons.mp member with rfl | before
    · exact held
    · exact grown.sound.pathMap entry (List.mem_filter.mp before).1
  tiers := grown.tiers
  roots := grown.roots
  inodes := grown.inodes
  inPlace := by
    intro entry member within
    rcases List.mem_append.mp member with dentry | added
    · exact grown.inPlace entry (List.mem_append_left _ dentry) within
    · rcases List.mem_cons.mp added with rfl | before
      · exact backs
      · exact grown.inPlace entry (List.mem_append_right _ (List.mem_filter.mp before).1) within
  beyond := by
    intro further within outside
    have apart : further ≠ rel := by
      rintro rfl
      exact outside List.suffix_rfl
    have before := grown.beyond further within outside
    refine ⟨before.1,?_⟩
    rw [← before.2]
    refine (keyed_cons_of_ne apart).trans (keyed_filter fun entry member same taken => apart ?_)
    rw [← same,← grown.inPlace entry (List.mem_append_right _ member) (same ▸ within),taken,backs]

theorem dentry_grown (grown : Grown state later path rel) (backs : inode.lower.path = rel) (held : inode ∈ later.inodes) :
    Grown state { later with dentries := (rel,inode)::later.dentries } path rel where
  sound := by
    refine ⟨grown.sound.rooted,grown.sound.identified,?_,grown.sound.pathMap⟩
    intro entry member
    rcases List.mem_cons.mp member with rfl | before
    · exact held
    · exact grown.sound.dentries entry before
  tiers := grown.tiers
  roots := grown.roots
  inodes := grown.inodes
  inPlace := by
    intro entry member within
    rcases List.mem_cons.mp member with rfl | before
    · exact backs
    · exact grown.inPlace entry before within
  beyond := by
    intro further within outside
    have before := grown.beyond further within outside
    refine ⟨(keyed_cons_of_ne ?_).trans before.1,before.2⟩
    rintro rfl
    exact outside List.suffix_rfl

theorem tier_lt (sound : Sound state) (held : inode ∈ state.inodes) : inode.lower.tier < state.tiers.pool.ntiers := by
  by_contra outside
  have known := sound.identified inode held
  rw [State.identity,if_neg outside] at known
  cases known

section Walk

variable {name : String} {up : List String}

theorem home_base (unlinked : Unlinked state.tiers (name::up)) (cached : state.tiers.pool.cacheMode = true) :
    resolveRelPathOnTier state.tiers (name::up) (baseTier state.tiers.pool) =
      if has state.tiers (name::up) (baseTier state.tiers.pool) then some ⟨baseTier state.tiers.pool,name::up⟩ else none :=
  resolveRelPathOnTier_straight (unlinked _ (by simp [order,rootTier,cached]))

theorem home_across (unlinked : Unlinked state.tiers (name::up)) (tiered : state.tiers.pool.cacheMode = false) :
    lookupRelAcrossTiers state.tiers (name::up) =
      ((Lookup.activeTiers state.tiers.pool state.tiers.mask).find? (has state.tiers (name::up))).map (Place.mk · (name::up)) := by
  apply findSome_resolve
  intro other active
  exact resolveRelPathOnTier_straight (unlinked other (by simp [order,tiered,active]))

/-- The lookup of a name without a dentry, in the directory that the walk has come to. -/
theorem lookupInner_home (number : Oid → Nat) (name : String) (sound : Sound state) (apart : Apart number state path)
    (steady : InPlace state path)
    (unlinked : Unlinked state.tiers (name::up)) (within : name::up <:+ path) (inside : tier < state.tiers.pool.ntiers)
    (directory : (state.tiers.trees tier).isDir up = true) :
    match homeBelow state tier name up with
    | some there => ∃ inode later, lookupInner number state ⟨tier,up⟩ name (name::up) = some (inode,later) ∧
        inode.lower = ⟨there,name::up⟩ ∧ inode ∈ later.inodes ∧ Grown state later path (name::up)
    | none => lookupInner number state ⟨tier,up⟩ name (name::up) = none := by
  have got (there : Nat) (bound : there < state.tiers.pool.ntiers) (found : has state.tiers (name::up) there = true) :=
    let ⟨_,known⟩ := identity_of_has bound found
    iget_reached sound apart steady within known
  have tracked (there : Nat) (bound : there < state.tiers.pool.ntiers) (found : has state.tiers (name::up) there = true) :
      ∃ inode later, (iget number state ⟨there,name::up⟩).map (trackPlaced (name::up)) = some (inode,later) ∧
        inode.lower = ⟨there,name::up⟩ ∧ inode ∈ later.inodes ∧ Grown state later path (name::up) := by
    obtain ⟨inode,later,called,backs,held,grown⟩ := got there bound found
    exact ⟨inode,(trackPlaced (name::up) (inode,later)).2,by rw [called]; rfl,backs,held,
      trackPlaced_grown grown (by rw [backs]) held⟩
  unfold lookupInner homeBelow
  simp only [directory,if_true]
  by_cases cached : state.tiers.pool.cacheMode = true
  · rw [search_base cached,home_base unlinked cached,if_pos cached]
    by_cases found : has state.tiers (name::up) (baseTier state.tiers.pool) = true
    · have bound : baseTier state.tiers.pool < state.tiers.pool.ntiers := by
        have rooted := sound.rooted
        rwa [rootTier,if_pos cached] at rooted
      simp only [found,if_true,Option.map_some,Option.bind_some]
      exact tracked _ bound found
    · simp [found]
  rw [if_neg cached,has_cons]
  cases own : (state.tiers.trees tier).get (name::up) with
  | some entry =>
    simp only [Option.isSome_some,if_true,Option.map_some,search_own cached,Option.bind_some]
    obtain ⟨inode,later,called,backs,held,grown⟩ := got tier inside (by rw [has_cons,own]; rfl)
    exact ⟨inode,later,by rw [called]; rfl,backs,held,grown⟩
  | none =>
    simp only [Option.isSome_none,Bool.false_eq_true,if_false,Option.map_none]
    cases listed : keyed state.pathMap (name::up) with
    | some inode =>
      rw [search_mapped cached]
      have member := Tree.mem_of_find_key listed
      have place : inode.lower.path = name::up := steady _ (List.mem_append_right _ member) within
      exact ⟨inode,state,rfl,by rw [← place],sound.pathMap _ member,
        sound,rfl,rfl,fun _ member => .inl member,steady,fun _ _ _ => ⟨rfl,rfl⟩⟩
    | none =>
      rw [search_across cached,home_across unlinked (by simpa using cached)]
      cases first : (Lookup.activeTiers state.tiers.pool state.tiers.mask).find? (has state.tiers (name::up)) with
      | none => simp
      | some there =>
        have active := (List.mem_filter.mp (List.mem_of_find?_eq_some first)).1
        exact tracked there (List.mem_range.mp active) (List.find?_some first)

theorem lookupPath_home (number : Oid → Nat) (sound : Sound state) (apart : Apart number state path) (steady : InPlace state path)
    (unlinked : Unlinked state.tiers path) (within : rel <:+ path) :
    match home state rel with
    | some there => ∃ node later, lookupPath number state rel = some (node,later) ∧ there < state.tiers.pool.ntiers ∧
        Reached later ⟨there,rel⟩ node ∧ Grown state later path rel
    | none => lookupPath number state rel = none := by
  induction rel with
  | nil =>
    exact ⟨.root,state,rfl,sound.rooted,⟨rfl,nofun,by simp [State.rootPlace]⟩,sound,rfl,rfl,fun _ member => .inl member,
      steady,fun _ _ _ => ⟨rfl,rfl⟩⟩
  | cons name up ih =>
    have walked := ih ((List.suffix_cons name up).trans within)
    unfold home
    cases above : home state up with
    | none =>
      rw [above] at walked
      simp [lookupPath,walked]
    | some tier =>
      rw [above] at walked
      obtain ⟨dir,middle,called,inside,reached,grown⟩ := walked
      have longer : ¬name::up <:+ up := fun short => absurd short.length_le (by simp)
      obtain ⟨dentries,pathMap⟩ := grown.beyond (name::up) within longer
      simp only [lookupPath,called,Option.bind_some,dentries,reached.backs]
      cases hashed : keyed state.dentries (name::up) with
      | some inode =>
        rw [hashed] at dentries
        have member := Tree.mem_of_find_key dentries
        have place : inode.lower.path = name::up := grown.inPlace _ (List.mem_append_left _ member) within
        have held := grown.sound.dentries _ member
        refine ⟨.inode inode,middle,rfl,grown.tiers ▸ tier_lt grown.sound held,⟨by rw [← place]; rfl,?_,by simp [State.rootPlace]⟩,?_⟩
        · rintro _ ⟨⟩
          exact held
        · have still : Grown middle middle path (name::up) :=
            ⟨grown.sound,rfl,rfl,fun _ member => .inl member,grown.inPlace,fun _ _ _ => ⟨rfl,rfl⟩⟩
          exact grown.trans still (List.suffix_cons name up)
      | none =>
        have same : homeBelow middle tier name up = homeBelow state tier name up := by
          unfold homeBelow
          rw [pathMap,grown.tiers]
        dsimp only
        rw [grown.tiers]
        by_cases directory : (state.tiers.trees tier).isDir up = true
        swap
        · simp [homeBelow,directory]
        have found := lookupInner_home number name grown.sound (apart.grown grown) grown.inPlace
          (grown.tiers.symm ▸ unlinked.above within) within
          (by rwa [grown.tiers]) (by rwa [grown.tiers])
        rw [same] at found
        simp only [directory,if_true]
        cases below : homeBelow state tier name up with
        | none =>
          rw [below] at found
          simp [found]
        | some there =>
          rw [below] at found
          obtain ⟨inode,later,got,backs,held,after⟩ := found
          refine ⟨.inode inode,{ later with dentries := (name::up,inode)::later.dentries },by rw [got]; rfl,?_,
            ⟨backs,?_,by simp [State.rootPlace]⟩,?_⟩
          · have bound := tier_lt after.sound held
            rwa [backs,after.tiers,grown.tiers] at bound
          · rintro _ ⟨⟩
            exact held
          · exact grown.trans (dentry_grown after (by rw [backs]) held) (List.suffix_cons name up)

end Walk

end Lookup

section Parent

variable {number : Oid → Nat} {state later : State} {place child : Place} {inode : Inode} {node : Node} {name : String}
  {up : List String} {tier : Nat}

theorem inode_ext {one two : Inode} {other : State} (left : Sound state) (right : Sound other)
    (same : other.identity = state.identity) (first : one ∈ state.inodes) (second : two ∈ other.inodes)
    (lower : one.lower = two.lower) : one = two := by
  have own := left.identified one first
  have also := right.identified two second
  rw [same,← lower,own] at also
  obtain ⟨oid,place⟩ := one
  cases lower
  cases also
  rfl

theorem iget_held (sound : Sound state) (held : inode ∈ state.inodes) : iget number state inode.lower = some (inode,state) := by
  unfold iget
  cases cached : state.inodes.find? (fun other => other.lower = inode.lower) with
  | none => exact absurd (List.find?_eq_none.mp cached inode held) (by simp)
  | some other =>
    have backs : other.lower = inode.lower := by simpa using List.find?_some cached
    rw [inode_ext sound sound rfl (List.mem_of_find?_eq_some cached) held backs]

theorem getParent_reached (sound : Sound later) (reached : Reached later ⟨tier,up⟩ node) :
    getParent number later ⟨tier,name::up⟩ = some (node,later) := by
  simp only [getParent]
  cases node with
  | root =>
    have backs : later.rootPlace = ⟨tier,up⟩ := reached.backs
    rw [if_pos backs.symm]
  | inode inode =>
    have other : (⟨tier,up⟩ : Place) ≠ later.rootPlace := fun same => by cases reached.root.mpr same
    have backs : inode.lower = ⟨tier,up⟩ := reached.backs
    rw [if_neg other,← backs,iget_held sound (reached.held inode rfl)]
    rfl

/-- Before the lookup of the path it is a node over the same lower directory. -/
theorem getParent_backs (name : String) (sound : Sound state) (apart : Apart number state up) (steady : InPlace state up)
    (inside : tier < state.tiers.pool.ntiers) (stands : (state.tiers.trees tier).get (name::up) ≠ none) :
    ∃ parent last, getParent number state ⟨tier,name::up⟩ = some (parent,last) ∧ Reached last ⟨tier,up⟩ parent ∧
      Sound last ∧ last.tiers = state.tiers ∧ last.roots = state.roots := by
  simp only [getParent]
  split
  next here =>
    exact ⟨.root,state,rfl,⟨here.symm,nofun,by simp [here]⟩,sound,rfl,rfl⟩
  next elsewhere =>
  obtain ⟨entry,found⟩ := Option.ne_none_iff_exists'.mp stands
  obtain ⟨oid,known⟩ := identity_of_has inside (@has_up _ _ name _ _ (by rw [has_cons,found]; rfl))
  obtain ⟨inode,last,called,backs,held,grown⟩ := iget_reached sound apart steady List.suffix_rfl known
  refine ⟨.inode inode,last,by rw [called]; rfl,⟨backs,?_,?_⟩,grown.sound,grown.tiers,grown.roots⟩
  · rintro _ ⟨⟩
    exact held
  · simpa [State.rootPlace,grown.tiers] using elsewhere

theorem Reached.unique {last : State} {parent : Node} (left : Reached later place node) (right : Reached last place parent)
    (sound : Sound later) (also : Sound last) (tiers : last.tiers = later.tiers) (roots : last.roots = later.roots) :
    parent = node := by
  have root : last.rootPlace = later.rootPlace := by rw [State.rootPlace,State.rootPlace,tiers]
  cases node with
  | root =>
    rw [right.root,root]
    exact left.root.mp rfl
  | inode inode =>
    cases parent with
    | root => cases left.root.mpr (root ▸ right.root.mp rfl)
    | inode other =>
      have one : inode.lower = place := left.backs
      have two : other.lower = place := right.backs
      rw [inode_ext sound also (identity_of_same tiers roots) (left.held inode rfl) (right.held other rfl) (one.trans two.symm)]

end Parent

/-- A directory is given the parent that a lookup finds, before that lookup and after it, if and only
if it is on the tier on which the parent is looked up. -/
theorem get_parent_is_the_namespace_parent {number : Oid → Nat} {state : State} {up : List String} {tier : Nat} (name : String)
    (sound : Sound state) (apart : Apart number state up) (unlinked : Unlinked state.tiers up) (steady : InPlace state up)
    (inside : tier < state.tiers.pool.ntiers) (stands : (state.tiers.trees tier).get (name::up) ≠ none) :
    (∃ node later last, lookupPath number state up = some (node,later) ∧
      getParent number later ⟨tier,name::up⟩ = some (node,later) ∧
      getParent number state ⟨tier,name::up⟩ = some (node,last) ∧ (up = [] → node = .root)) ↔ home state up = some tier := by
  have walked := lookupPath_home number sound apart steady unlinked List.suffix_rfl
  obtain ⟨parent,last,called,backs,fine,tiers,roots⟩ := getParent_backs name sound apart steady inside stands
  cases found : home state up with
  | none =>
    rw [found] at walked
    simp [walked]
  | some there =>
    rw [found] at walked
    obtain ⟨node,later,looked,_,reached,grown⟩ := walked
    constructor
    · rintro ⟨_,_,_,again,_,before,_⟩
      rw [looked] at again
      cases again
      rw [called] at before
      cases before
      have same : later.lower parent = last.lower parent := by
        cases parent with
        | root => rw [State.lower,State.lower,State.rootPlace,State.rootPlace,grown.tiers,tiers]
        | inode inode => rfl
      rw [reached.backs,backs.backs] at same
      rw [(Place.mk.inj same).1]
    · rintro ⟨⟩
      have agree := reached.unique backs grown.sound fine (tiers.trans grown.tiers.symm) (roots.trans grown.roots.symm)
      refine ⟨node,later,last,looked,getParent_reached grown.sound reached,agree ▸ called,?_⟩
      rintro rfl
      cases found
      exact reached.root.mpr (by rw [State.rootPlace,grown.tiers])

section Runs

def twoTiers : Pool := ⟨2,0,false,false,false,false⟩

def fastDirs : Tree String Oid :=
  ⟨[(["docs"],⟨.dir,11⟩),(["old","docs"],⟨.dir,12⟩)],by decide,by decide,by decide⟩

def slowDirs : Tree String Oid :=
  ⟨[(["docs"],⟨.dir,21⟩),(["media"],⟨.dir,22⟩),(["films","media"],⟨.dir,23⟩)],by decide,by decide,by decide⟩

def fresh : State :=
  ⟨⟨twoTiers,3,fun tier => if tier = 0 then fastDirs else slowDirs⟩,fun tier => tier,[],[],[]⟩

def parentOf (path : List String) : Option Node :=
  (lookupPath id fresh path).bind fun child =>
    (getParent id child.2 (child.2.lower child.1)).map Prod.fst

theorem sound_fresh : Sound fresh := by
  refine ⟨by decide,?_,?_,?_⟩ <;> simp [fresh]

theorem parent_on_the_slow_tier : ∃ later last, lookupPath id fresh ["media"] = some (.inode ⟨22,1,["media"]⟩,later) ∧
    getParent id later ⟨1,["films","media"]⟩ = some (.inode ⟨22,1,["media"]⟩,later) ∧
    getParent id fresh ⟨1,["films","media"]⟩ = some (.inode ⟨22,1,["media"]⟩,last) := by
  have computed : (lookupPath id fresh ["media"]).map Prod.fst = some (.inode ⟨22,1,["media"]⟩) := by decide +kernel
  have apart : Apart id fresh ["media"] := by decide +kernel
  have unlinked : Unlinked fresh.tiers ["media"] := by decide +kernel
  have steady : InPlace fresh ["media"] := by decide +kernel
  have here : home fresh ["media"] = some 1 := by decide +kernel
  obtain ⟨node,later,last,walked,after,before,_⟩ := (get_parent_is_the_namespace_parent "films" sound_fresh apart
    unlinked steady (by decide) (by decide)).mpr here
  rw [walked] at computed
  cases computed
  exact ⟨later,last,walked,after,before⟩

/-- The parent of a top-level directory on the slow tier is not the root of the pool. -/
theorem top_level_directory_has_another_parent :
    (lookupPath id fresh ["media"]).map Prod.fst = some (.inode ⟨22,1,["media"]⟩) ∧
    (lookupPath id fresh []).map Prod.fst = some .root ∧ parentOf ["media"] = some (.inode ⟨1,1,[]⟩) := by
  decide +kernel

end Runs

end Smoothfs.NamespaceParent
