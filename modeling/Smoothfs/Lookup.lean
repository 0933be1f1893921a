import Smoothfs.CrashRecovery
import Smoothfs.StagingDrain

/-! Lookup of a name while copies of an object stand on several tiers. What a mount
has in memory decides as much as what the tiers hold, so a lookup is a function of
both. -/
namespace Smoothfs.Lookup

open StagingDrain Run
open CrashRecovery (reachedByName)

/-- The objects whose inodes are in memory, and those whose inodes are in
`path_map`, in the order in which a hash chain has them. -/
structure Cache where
  incore : List Oid
  keyed : List Oid
  deriving DecidableEq, Repr

def metadataTierActive (pool : Pool) (mask tier : Nat) : Bool :=
  tier < pool.ntiers ∧ (tier = pool.fastestTier ∨ mask.testBit tier)

def activeTiers (pool : Pool) (mask : Nat) : List Nat :=
  (List.range pool.ntiers).filter (metadataTierActive pool mask)

structure Found where
  oid : Oid
  tier : Nat
  file : FileId
  minted : Bool
  deriving DecidableEq, Repr

def held (world : World) (oids : List Oid) : List (Oid × Inode) :=
  oids.filterMap fun oid => (world.inodes oid).map (Prod.mk oid)

/-- An inode in memory that has the number is returned as it is. -/
def igetLocked (number : Oid → Nat) (world : World) (cache : Cache) (made : Found) : Found :=
  match (held world cache.incore).find? (fun known => number known.1 = number made.oid) with
  | some (other,inode) => ⟨other,inode.lowerPath.mnt,inode.lowerPath.file,made.minted⟩
  | none => made

/-- Past the fast path, with the identity of the attribute or the one that waits to be written
there. -/
def igetIdentity (number : Oid → Nat) (world : World) (cache : Cache) (fresh : Oid) (tier : Nat) (file : FileId) : Found :=
  match (world.files file).oid with
  | some oid => igetLocked number world cache ⟨oid,tier,file,false⟩
  | none => igetLocked number world cache ⟨fresh,tier,file,true⟩

def iget (number : Oid → Nat) (world : World) (cache : Cache) (fresh : Oid) (tier : Nat) (file : FileId) : Found :=
  match (held world cache.incore).find? (fun known => known.2.lowerPath.mnt = tier ∧ known.2.lowerPath.file = file) with
  | some (oid,_) => ⟨oid,tier,file,false⟩
  | none => igetIdentity number world cache fresh tier file

def lookupRelPath (world : World) (cache : Cache) (rel : RelPath) : Option (Oid × Inode) :=
  (held world cache.keyed).find? fun known => known.2.relPath = some rel

/-- By the recorded path, which the rename of a directory above it leaves as it was. The lower files
of the `live` objects have a link left, under whatever name. -/
def replayed (world : World) (cache : Cache) (live : Oid → Bool) (rel : RelPath) : Option (Oid × Inode) :=
  (lookupRelPath world cache rel).filter fun known => live known.1

/-- An inode of `path_map`, or a lower file, whose inode is then tracked as placed there or not. -/
inductive Reached (ι β : Type)
  | known (inode : ι)
  | lower (place : β) (tracked : Bool)
  deriving DecidableEq, Repr

/-- The order in which `smoothfs_lookup_inner` looks for a name: in a cache on the base tier only,
otherwise in the parent's own lower directory, in `path_map` and on every active tier. -/
def search {ι β : Type} (cacheMode : Bool) (base own : Option β) (known : Option ι) (across : Option β) : Option (Reached ι β) :=
  if cacheMode then base.map (.lower · true)
  else
    match own with
    | some place => some (.lower place false)
    | none =>
      match known with
      | some inode => some (.known inode)
      | none => across.map (.lower · true)

/-- For a name in a directory whose own lower directory is on the tier `parent`. -/
def reached (world : World) (cache : Cache) (live : Oid → Bool) (mask parent : Nat) (rel : RelPath) :
    Option (Reached (Oid × Inode) (Nat × FileId)) :=
  search world.pool.cacheMode (reachedByName world [world.pool.ntiers - 1] rel) ((world.names ⟨parent,rel⟩).map (parent,·))
    (replayed world cache live rel) (reachedByName world (activeTiers world.pool mask) rel)

def lookupInner (number : Oid → Nat) (world : World) (cache : Cache) (live : Oid → Bool) (mask parent : Nat) (rel : RelPath)
    (fresh : Oid) : Option Found :=
  (reached world cache live mask parent rel).map fun
    | .known (oid,inode) => ⟨oid,inode.lowerPath.mnt,inode.lowerPath.file,false⟩
    | .lower place _ => iget number world cache fresh place.1 place.2

def readdirLists (world : World) (mask parent currentTier : Nat) (rel : RelPath) : Bool :=
  let canonical := if currentTier < world.pool.ntiers then currentTier else world.pool.fastestTier
  let others := if world.pool.cacheMode then [] else (activeTiers world.pool mask).filter (· ≠ canonical)
  (parent::others).any fun tier => (world.names ⟨tier,rel⟩).isSome

/-- Of the inodes in memory the object alone stands at the path, and its inode number is its own. -/
structure Distinct (number : Oid → Nat) (world : World) (cache : Cache) (rel : RelPath) (oid : Oid) : Prop where
  alone : ∀ other inode, other ∈ cache.incore → world.inodes other = some inode →
    world.names ⟨inode.lowerPath.mnt,rel⟩ = some inode.lowerPath.file → other = oid
  numbered : ∀ other,
    (other ∈ cache.incore ∨ ∃ tier file, world.names ⟨tier,rel⟩ = some file ∧ (world.files file).oid = some other) →
    number other = number oid → other = oid

theorem distinct_empty {number : Oid → Nat} (injective : Function.Injective number) {world : World} {rel : RelPath} {oid : Oid} :
    Distinct number world ⟨[],[]⟩ rel oid :=
  ⟨fun other inode member => by simp at member,fun _ _ same => injective same⟩

section Finds

variable {number : Oid → Nat} {world : World} {cache : Cache} {rel : RelPath} {oid : Oid} {inode : Inode}

theorem mem_held {oids : List Oid} {known : Oid × Inode} (member : known ∈ held world oids) :
    known.1 ∈ oids ∧ world.inodes known.1 = some known.2 := by
  obtain ⟨other,listed,same⟩ := List.mem_filterMap.mp member
  obtain ⟨value,found,rfl⟩ := Option.map_eq_some_iff.mp same
  exact ⟨listed,found⟩

theorem find_held {oids : List Oid} {wanted : Oid × Inode → Bool} (found : world.inodes oid = some inode)
    (only : ∀ known ∈ held world oids, wanted known = true → known.1 = oid) :
    (held world oids).find? wanted = if oid ∈ oids ∧ wanted (oid,inode) = true then some (oid,inode) else none := by
  have same (known : Oid × Inode) (chosen : (held world oids).find? wanted = some known) : known = (oid,inode) := by
    have member := List.mem_of_find?_eq_some chosen
    have name := only known member (List.find?_some chosen)
    obtain ⟨_,present⟩ := mem_held member
    rw [name,found] at present
    exact Prod.ext name (Option.some.inj present).symm
  split
  next there =>
    have member : (oid,inode) ∈ held world oids := List.mem_filterMap.mpr ⟨oid,there.1,by simp [found]⟩
    cases chosen : (held world oids).find? wanted with
    | none => exact absurd there.2 (by simpa using List.find?_eq_none.mp chosen _ member)
    | some known => rw [same known chosen]
  next absent =>
  rw [List.find?_eq_none]
  intro known member wants
  apply absent
  have name := only known member wants
  obtain ⟨listed,present⟩ := mem_held member
  rw [name] at listed present
  cases found.symm.trans present
  exact ⟨listed,by rw [← name]; exact wants⟩

theorem igetLocked_oid (distinct : Distinct number world cache rel oid) (found : world.inodes oid = some inode)
    (made : Found) (own : made.oid = oid) :
    igetLocked number world cache made =
      if oid ∈ cache.incore then ⟨oid,inode.lowerPath.mnt,inode.lowerPath.file,made.minted⟩ else made := by
  unfold igetLocked
  rw [own,find_held found
    (fun known member same => distinct.numbered known.1 (.inl (mem_held member).1) (of_decide_eq_true same))]
  by_cases present : oid ∈ cache.incore <;> simp [present]

variable {tier : Nat} {file : FileId}

theorem igetLocked_other (distinct : Distinct number world cache rel oid) (made : Found) (other : made.oid ≠ oid)
    (named : world.names ⟨tier,rel⟩ = some file) (carried : (world.files file).oid = some made.oid) :
    (igetLocked number world cache made).oid ≠ oid := by
  unfold igetLocked
  split
  next known inode chosen =>
    rintro rfl
    have same := List.find?_some chosen
    exact other (distinct.numbered made.oid (.inr ⟨tier,file,named,carried⟩) (of_decide_eq_true same).symm)
  next => exact other

theorem igetLocked_minted (number : Oid → Nat) (world : World) (cache : Cache) (made : Found) :
    (igetLocked number world cache made).minted = made.minted := by
  unfold igetLocked
  split <;> rfl

def authoritative (oid : Oid) (inode : Inode) : Found :=
  ⟨oid,inode.lowerPath.mnt,inode.lowerPath.file,false⟩

theorem igetIdentity_iff (distinct : Distinct number world cache rel oid) (found : world.inodes oid = some inode)
    (fresh : Oid) (named : world.names ⟨tier,rel⟩ = some file) :
    igetIdentity number world cache fresh tier file = authoritative oid inode ↔ (world.files file).oid = some oid ∧
        (oid ∈ cache.incore ∨ tier = inode.lowerPath.mnt ∧ file = inode.lowerPath.file) := by
  unfold igetIdentity
  split
  next name carried =>
    by_cases own : name = oid
    · subst name
      rw [igetLocked_oid distinct found _ rfl]
      by_cases present : oid ∈ cache.incore <;> simp [present,carried,authoritative]
    have other := igetLocked_other distinct ⟨name,tier,file,false⟩ own named carried
    constructor
    · intro same
      exact absurd (congrArg Found.oid same) other
    · intro ⟨carries,_⟩
      exact absurd (Option.some.inj (carried.symm.trans carries)) own
  next absent =>
  constructor
  · intro same
    have minted := igetLocked_minted number world cache ⟨fresh,tier,file,true⟩
    rw [same] at minted
    cases minted
  · intro ⟨carries,_⟩
    cases absent.symm.trans carries

/-- Two of three hold: the copy is authoritative, it carries the object's identity, and the object's
inode is in memory. -/
def Recognised (world : World) (cache : Cache) (oid : Oid) (inode : Inode) (tier : Nat) (file : FileId) : Prop :=
  let own := tier = inode.lowerPath.mnt ∧ file = inode.lowerPath.file
  oid ∈ cache.incore ∧ own ∨ (world.files file).oid = some oid ∧ (oid ∈ cache.incore ∨ own)

theorem iget_iff (distinct : Distinct number world cache rel oid) (found : world.inodes oid = some inode) (fresh : Oid)
    (named : world.names ⟨tier,rel⟩ = some file) :
    iget number world cache fresh tier file = authoritative oid inode ↔ Recognised world cache oid inode tier file := by
  have only (known : Oid × Inode) (member : known ∈ held world cache.incore)
      (same : decide (known.2.lowerPath.mnt = tier ∧ known.2.lowerPath.file = file) = true) : known.1 = oid := by
    obtain ⟨listed,present⟩ := mem_held member
    obtain ⟨mnt,backing⟩ := of_decide_eq_true same
    exact distinct.alone known.1 known.2 listed present (by rw [mnt,backing,named])
  unfold iget Recognised
  rw [find_held found only]
  by_cases fast : oid ∈ cache.incore ∧ tier = inode.lowerPath.mnt ∧ file = inode.lowerPath.file
  · obtain ⟨present,rfl,rfl⟩ := fast
    simp [present,authoritative]
  have slow : ¬ (oid ∈ cache.incore ∧
      decide (inode.lowerPath.mnt = tier ∧ inode.lowerPath.file = file) = true) := by
    intro ⟨present,same⟩
    obtain ⟨mnt,backing⟩ := of_decide_eq_true same
    exact fast ⟨present,mnt.symm,backing.symm⟩
  rw [if_neg slow]
  simp only [fast,false_or]
  exact igetIdentity_iff distinct found fresh named

end Finds

def firstCopy (world : World) (mask parent : Nat) (rel : RelPath) : Option (Nat × FileId) :=
  reachedByName world (parent::activeTiers world.pool mask) rel

variable {world : World} {parent : Nat} {rel : RelPath} {file : FileId} (mask : Nat)

theorem firstCopy_parent (here : world.names ⟨parent,rel⟩ = some file) : firstCopy world mask parent rel = some (parent,file) := by
  simp [firstCopy,reachedByName,here]

theorem firstCopy_scan (here : world.names ⟨parent,rel⟩ = none) :
    firstCopy world mask parent rel = reachedByName world (activeTiers world.pool mask) rel := by
  simp [firstCopy,reachedByName,here]

theorem named_of_reached {order : List Nat} {tier : Nat}
    (reached : reachedByName world order rel = some (tier,file)) : tier ∈ order ∧ world.names ⟨tier,rel⟩ = some file := by
  obtain ⟨other,member,named⟩ := List.exists_of_findSome?_eq_some reached
  obtain ⟨known,there,same⟩ := Option.map_eq_some_iff.mp named
  cases same
  exact ⟨member,there⟩

section Search

variable {ι β : Type} {cacheMode tracked : Bool} {base own across : Option β} {known : Option ι} {place : β}

theorem search_base (cache : cacheMode = true) : search cacheMode base own known across = base.map (.lower · true) := if_pos cache

theorem search_own (tiered : ¬ cacheMode = true) : search cacheMode base (some place) known across = some (.lower place false) :=
  if_neg tiered

theorem search_mapped (tiered : ¬ cacheMode = true) {inode : ι} :
    search cacheMode base none (some inode) across = some (.known inode) := if_neg tiered

theorem search_across (tiered : ¬ cacheMode = true) :
    search cacheMode base none (none : Option ι) across = across.map (.lower · true) := if_neg tiered

theorem search_lower (there : search cacheMode base own known across = some (.lower place tracked)) :
    cacheMode = true ∧ base = some place ∨ cacheMode = false ∧ own = some place ∧ tracked = false ∨
      cacheMode = false ∧ tracked = true ∧ across = some place := by
  unfold search at there
  split at there
  next cache =>
    obtain ⟨_,found,same⟩ := Option.map_eq_some_iff.mp there
    cases same
    exact .inl ⟨cache,found⟩
  next tiered =>
  rw [Bool.not_eq_true] at tiered
  split at there
  · cases there
    exact .inr (.inl ⟨tiered,rfl,rfl⟩)
  split at there
  · cases there
  obtain ⟨_,found,same⟩ := Option.map_eq_some_iff.mp there
  cases same
  exact .inr (.inr ⟨tiered,rfl,found⟩)

theorem search_known {inode : ι} (there : search cacheMode base own known across = some (.known inode)) : known = some inode := by
  unfold search at there
  split at there
  · simp at there
  split at there
  · cases there
  split at there
  · cases there
    rfl
  · simp at there

end Search

/-- An inode of the map is in memory, and a lower file stands at the path. -/
def Stands (world : World) (cache : Cache) (rel : RelPath) : Reached (Oid × Inode) (Nat × FileId) → Prop
  | .known (oid,inode) => oid ∈ cache.keyed ∧ world.inodes oid = some inode
  | .lower (tier,file) _ => world.names ⟨tier,rel⟩ = some file

theorem reached_stands {cache : Cache} {live : Oid → Bool} {place : Reached (Oid × Inode) (Nat × FileId)}
    (there : reached world cache live mask parent rel = some place) : Stands world cache rel place := by
  cases place with
  | known known => exact mem_held (List.mem_of_find?_eq_some (Option.filter_eq_some_iff.mp (search_known there)).1)
  | lower place tracked =>
    rcases search_lower there with ⟨_,found⟩ | ⟨_,found,_⟩ | ⟨_,_,found⟩
    · exact (named_of_reached found).2
    · obtain ⟨file,named,rfl⟩ := Option.map_eq_some_iff.mp found
      exact named
    · exact (named_of_reached found).2

/-- A lookup gives the object's inode on its authoritative copy exactly when `path_map` leads there
or, if it leads nowhere, the first copy on the way is recognised. -/
theorem lookup_finds_authoritative_iff (number : Oid → Nat) (world : World) (cache : Cache) (live : Oid → Bool)
    (mask parent : Nat) (rel : RelPath) (fresh oid : Oid) (inode : Inode) (tierMode : world.pool.cacheMode = false)
    (found : world.inodes oid = some inode)
    (distinct : Distinct number world cache rel oid) :
    lookupInner number world cache live mask parent rel fresh = some (authoritative oid inode) ↔
      (world.names ⟨parent,rel⟩ = none ∧ (replayed world cache live rel).map Prod.fst = some oid) ∨
        (world.names ⟨parent,rel⟩ = none → replayed world cache live rel = none) ∧
        ∃ tier file, firstCopy world mask parent rel = some (tier,file) ∧ Recognised world cache oid inode tier file := by
  have first (order : List Nat) : (reachedByName world order rel).map (fun at_ => iget number world cache fresh at_.1 at_.2) =
      some (authoritative oid inode) ↔
      ∃ tier file, reachedByName world order rel = some (tier,file) ∧ Recognised world cache oid inode tier file := by
    rw [Option.map_eq_some_iff]
    constructor
    · intro ⟨⟨tier,file⟩,reached,same⟩
      exact ⟨tier,file,reached,(iget_iff distinct found fresh (named_of_reached reached).2).mp same⟩
    · intro ⟨tier,file,reached,taken⟩
      exact ⟨(tier,file),reached,(iget_iff distinct found fresh (named_of_reached reached).2).mpr taken⟩
  unfold lookupInner reached search
  simp only [tierMode]
  cases here : world.names ⟨parent,rel⟩ with
  | some file =>
    simp [firstCopy_parent mask here,iget_iff distinct found fresh here]
  | none =>
    cases entry : replayed world cache live rel with
    | none => simp [firstCopy_scan mask here,Function.comp_def,first]
    | some known =>
      obtain ⟨other,backing⟩ := known
      obtain ⟨_,present⟩ := mem_held (List.mem_of_find?_eq_some (Option.filter_eq_some_iff.mp entry).1)
      constructor
      · intro same
        exact .inl ⟨rfl,congrArg (Option.map Found.oid) same⟩
      · rintro (⟨_,same⟩ | ⟨nothing,_⟩)
        · cases same
          cases found.symm.trans present
          rfl
        · cases nothing rfl

def demoting : List Label :=
  [.user (.create 7 0 ["a"] 0o600),.user (.write 7 [1,2]),.control (.movePlan 7 1 1) .done,
    .control (.openDestination ⟨1,["a"]⟩ 7) .done]

theorem demoted_copy_unseen : ∃ state inode, run step (emptyPool twoTierPool 0 0) demoting = some state ∧
    state.world.inodes 7 = some inode ∧ state.world.names ⟨1,["a"]⟩ = some 1 ∧
    lookupInner id state.world ⟨[],[]⟩ (fun _ => true) 3 0 ["a"] 9 = some (authoritative 7 inode) := by
  refine ⟨_,_,rfl,rfl,by decide +kernel,?_⟩
  apply (lookup_finds_authoritative_iff id _ ⟨[],[]⟩ (fun _ => true) 3 0 ["a"] 9 7 _ (by decide +kernel) rfl ?_).mpr
  · exact .inr ⟨nofun,0,0,by decide +kernel,.inr ⟨by decide +kernel,.inr ⟨by decide +kernel,by decide +kernel⟩⟩⟩
  · exact distinct_empty Function.injective_id

def promoting : List Label :=
  [.user (.create 7 1 ["a"] 0o600),.user (.write 7 [1,2]),.control (.movePlan 7 0 1) .done,
    .control (.openDestination ⟨0,["a"]⟩ 7) .done]

/-- The copy on the parent's tier has no identity yet, so a lookup gives it a new one. -/
theorem promoted_copy_minted : ∃ state inode, run step (emptyPool twoTierPool 0 0) promoting = some state ∧
    state.world.inodes 7 = some inode ∧ inode.lowerPath.mnt = 1 ∧ inode.movementState = .planAccepted ∧
    ∀ cache ∈ [(⟨[],[]⟩ : Cache),⟨[7],[7]⟩], lookupInner id state.world cache (fun _ => true) 3 0 ["a"] 9 = some ⟨9,0,1,true⟩ :=
  ⟨_,_,rfl,rfl,by decide +kernel,by decide +kernel,by decide +kernel⟩

end Smoothfs.Lookup
