import Smoothfs.Library.Run

/-! The identity of an object: the inode cache, which is keyed by a hash of the
identity, the queue through which new identities reach the lower files, and the other
writers of the attribute. -/
namespace Smoothfs.Identity
open Run

abbrev ObjectId := BitVec 128

abbrev File := Nat

structure Inode where
  ino : BitVec 64
  oid : ObjectId
  file : File
  deriving DecidableEq, Repr

structure Icache where
  inodes : List Inode
  lowerInoMap : List (Nat × BitVec 64)
  deriving DecidableEq, Repr

/-- The hash, and a file's place in the map, which is `none` for a file on no tier's mount. Numbers
are reused, so files may share a place. -/
structure Setting where
  hash : ObjectId → BitVec 64
  key : File → Option Nat

def Setting.inodeNoFromOid (setting : Setting) (oid : ObjectId) : BitVec 64 := setting.hash oid ||| 0x8000000000000000#64

namespace Icache

def ilookup (cache : Icache) (ino : BitVec 64) : Option Inode := cache.inodes.find? (·.ino = ino)

def mapGet (cache : Icache) (key : Option Nat) : Option (BitVec 64) :=
  key.bind fun key => (cache.lowerInoMap.find? (·.1 = key)).map Prod.snd

def mapInsert (cache : Icache) (key : Option Nat) (ino : BitVec 64) : Icache :=
  match key with
  | none => cache
  | some place => if (cache.mapGet key).isSome then cache else {cache with lowerInoMap := (place,ino)::cache.lowerInoMap}

def mapRemove (cache : Icache) (key : Option Nat) : Icache :=
  {cache with lowerInoMap := cache.lowerInoMap.filter fun item => some item.1 ≠ key}

end Icache

/-- The fast path; an entry that leads to another inode is removed. -/
def cached (setting : Setting) (cache : Icache) (file : File) : Option Inode × Icache :=
  match (cache.mapGet (setting.key file)).bind cache.ilookup with
  | none => (none,cache)
  | some inode => if inode.file = file then (some inode,cache) else (none,cache.mapRemove (setting.key file))

/-- From the call of `iget_locked` on. An inode in memory is returned as it is. -/
def igetLocked (setting : Setting) (cache : Icache) (oid : ObjectId) (file : File) : Inode × Icache :=
  let ino := setting.inodeNoFromOid oid
  match cache.ilookup ino with
  | some inode => (inode,cache)
  | none =>
    let inode : Inode := ⟨ino,oid,file⟩
    (inode,{cache with inodes := inode::cache.inodes}.mapInsert (setting.key file) ino)

/-- `smoothfs_iget` for a file whose identity is known from its attribute or from the queue. -/
def iget (setting : Setting) (cache : Icache) (oid : ObjectId) (file : File) : Inode × Icache :=
  match cached setting cache file with
  | (some inode,cache) => (inode,cache)
  | (none,cache) => igetLocked setting cache oid file

def evictInode (setting : Setting) (cache : Icache) (ino : BitVec 64) : Icache :=
  match cache.ilookup ino with
  | none => cache
  | some inode => {cache with inodes := cache.inodes.filter (·.ino ≠ ino)}.mapRemove (setting.key inode.file)

section Cache

variable {setting : Setting} {cache next : Icache} {inode : Inode} {oid : ObjectId} {file : File} {ino : BitVec 64}

@[simp] theorem inodes_mapInsert (key : Option Nat) : (cache.mapInsert key ino).inodes = cache.inodes := by
  unfold Icache.mapInsert
  split
  · rfl
  · split <;> rfl

theorem ilookup_some (found : cache.ilookup ino = some inode) : inode ∈ cache.inodes ∧ inode.ino = ino :=
  ⟨List.mem_of_find?_eq_some found,by simpa using List.find?_some found⟩

theorem ilookup_none (absent : cache.ilookup ino = none) : ∀ inode ∈ cache.inodes, inode.ino ≠ ino := by
  intro inode member same
  exact List.find?_eq_none.mp absent inode member (decide_eq_true same)

theorem inodes_cached {found : Option Inode} (looked : cached setting cache file = (found,next)) : next.inodes = cache.inodes := by
  unfold cached at looked
  split at looked
  · cases looked
    rfl
  split at looked
  · cases looked
    rfl
  · cases looked
    rfl

theorem cached_some (hit : cached setting cache file = (some inode,next)) : inode ∈ cache.inodes ∧ inode.file = file := by
  unfold cached at hit
  split at hit
  · cases hit
  next found there =>
  obtain ⟨_,_,there⟩ := Option.bind_eq_some_iff.mp there
  split at hit
  · next same =>
    cases hit
    exact ⟨(ilookup_some there).1,same⟩
  · cases hit

inductive Got (setting : Setting) (cache : Icache) (oid : ObjectId) (file : File) : Inode → Icache → Prop
  | backed {inode : Inode} {next : Icache} (member : inode ∈ cache.inodes) (same : inode.file = file)
      (kept : next.inodes = cache.inodes) : Got setting cache oid file inode next
  | numbered {inode : Inode} {next : Icache} (member : inode ∈ cache.inodes) (same : inode.ino = setting.inodeNoFromOid oid)
      (kept : next.inodes = cache.inodes) : Got setting cache oid file inode next
  | new {next : Icache} (absent : ∀ inode ∈ cache.inodes, inode.ino ≠ setting.inodeNoFromOid oid)
      (added : next.inodes = ⟨setting.inodeNoFromOid oid,oid,file⟩::cache.inodes) :
      Got setting cache oid file ⟨setting.inodeNoFromOid oid,oid,file⟩ next

theorem igetLocked_got (setting : Setting) (cache : Icache) (oid : ObjectId) (file : File) :
    Got setting cache oid file (igetLocked setting cache oid file).1 (igetLocked setting cache oid file).2 := by
  unfold igetLocked
  dsimp only
  split
  · next found there => exact .numbered (ilookup_some there).1 (ilookup_some there).2 rfl
  · next absent => exact .new (ilookup_none absent) (inodes_mapInsert _)

theorem Got.of_inodes {later : Icache} (same : later.inodes = cache.inodes) (got : Got setting later oid file inode next) :
    Got setting cache oid file inode next := by
  cases got with
  | backed member file kept => exact .backed (same ▸ member) file (kept.trans same)
  | numbered member ino kept => exact .numbered (same ▸ member) ino (kept.trans same)
  | new absent added => exact .new (same ▸ absent) (added.trans (congrArg _ same))

theorem iget_got (setting : Setting) (cache : Icache) (oid : ObjectId) (file : File) :
    Got setting cache oid file (iget setting cache oid file).1 (iget setting cache oid file).2 := by
  unfold iget
  split
  · next hit =>
    obtain ⟨member,same⟩ := cached_some hit
    exact .backed member same (inodes_cached hit)
  · next missed => exact (igetLocked_got setting _ oid file).of_inodes (inodes_cached missed)

theorem mem_evictInode (member : inode ∈ (evictInode setting cache ino).inodes) : inode ∈ cache.inodes := by
  unfold evictInode at member
  split at member
  · exact member
  · exact List.mem_of_mem_filter member

end Cache

/-! ## Files that carry identities -/

inductive CacheLabel
  | iget (file : File)
  | evict (ino : BitVec 64)
  deriving DecidableEq, Repr

def cacheStep (setting : Setting) (carries : File → Option ObjectId) (cache : Icache) : CacheLabel → Option Icache
  | .iget file => (carries file).map fun oid => (iget setting cache oid file).2
  | .evict ino => some (evictInode setting cache ino)

def Carried (setting : Setting) (carries : File → Option ObjectId) (cache : Icache) : Prop :=
  ∀ inode ∈ cache.inodes, carries inode.file = some inode.oid ∧ inode.ino = setting.inodeNoFromOid inode.oid

section Carried

variable {setting : Setting} {carries : File → Option ObjectId} {cache next : Icache}

theorem Carried.got (carried : Carried setting carries cache) {oid : ObjectId} {file : File} {inode : Inode}
    (own : carries file = some oid) (got : Got setting cache oid file inode next) : Carried setting carries next := by
  cases got with
  | backed _ _ kept | numbered _ _ kept => exact fun other member => carried other (kept ▸ member)
  | new _ added =>
    intro other member
    rw [added] at member
    rcases List.mem_cons.mp member with rfl | older
    · exact ⟨own,rfl⟩
    · exact carried other older

theorem Carried.step {label : CacheLabel} (carried : Carried setting carries cache)
    (taken : cacheStep setting carries cache label = some next) : Carried setting carries next := by
  cases label with
  | iget file =>
    obtain ⟨oid,own,rfl⟩ := Option.map_eq_some_iff.mp taken
    exact carried.got own (iget_got setting cache oid file)
  | evict ino =>
    cases taken
    exact fun inode member => carried inode (mem_evictInode member)

end Carried

/-- No two of the identities that files carry have one inode number. -/
def NumberedApart (setting : Setting) (carries : File → Option ObjectId) : Prop :=
  ∀ one two first second, carries one = some first → carries two = some second →
    setting.inodeNoFromOid first = setting.inodeNoFromOid second → first = second

/-- In every order of instantiations and evictions `smoothfs_iget` returns the file's own inode. -/
def ReturnsOwn (setting : Setting) (carries : File → Option ObjectId) : Prop :=
  ∀ labels cache, run (cacheStep setting carries) ⟨[],[]⟩ labels = some cache → ∀ file oid, carries file = some oid →
    (iget setting cache oid file).1.oid = oid ∧ carries (iget setting cache oid file).1.file = some oid ∧
      (iget setting cache oid file).1.file = file

theorem numberedApart_of_returnsOwn {setting : Setting} {carries : File → Option ObjectId} (returns : ReturnsOwn setting carries) :
    NumberedApart setting carries := by
  intro one two first second left right same
  obtain ⟨cache,reached,alone⟩ : ∃ cache, run (cacheStep setting carries) ⟨[],[]⟩ [.iget one] = some cache ∧
      cache.inodes = [⟨setting.inodeNoFromOid first,first,one⟩] := by
    have got := iget_got setting ⟨[],[]⟩ first one
    refine ⟨(iget setting ⟨[],[]⟩ first one).2,by simp [run,cacheStep,left],?_⟩
    generalize (iget setting ⟨[],[]⟩ first one).1 = inode, (iget setting ⟨[],[]⟩ first one).2 = next at got ⊢
    cases got with
    | backed member | numbered member => cases member
    | new _ added => exact added
  -- the inode of the first is in memory when the second is asked for
  have known := (returns _ cache reached two second right).1
  have got := iget_got setting cache second two
  generalize (iget setting cache second two).1 = inode at known got
  cases got with
  | backed member | numbered member =>
    rw [alone,List.mem_singleton] at member
    rw [member] at known
    exact known
  | new absent => exact absurd same (absent _ (by rw [alone]; exact List.mem_singleton_self _))

theorem returnsOwn_of_numberedApart {setting : Setting} {carries : File → Option ObjectId}
    (distinct : ∀ one two oid, carries one = some oid → carries two = some oid → one = two) (apart : NumberedApart setting carries) :
    ReturnsOwn setting carries := by
  intro labels cache reached file oid own
  have carried : Carried setting carries cache :=
    Run.invariant (cacheStep setting carries) (fun _ _ => True) (Carried setting carries)
      (fun _ _ _ carried _ taken => carried.step taken) ⟨[],[]⟩ cache labels
      (fun _ member => (List.not_mem_nil member).elim) (guarded_of_labels _ _ _ fun _ _ _ => trivial) reached
  have result : (iget setting cache oid file).1.oid = oid ∧ carries (iget setting cache oid file).1.file = some oid := by
    have got := iget_got setting cache oid file
    generalize (iget setting cache oid file).1 = inode at got ⊢
    cases got with
    | backed member same _ =>
      have known := (carried inode member).1
      rw [same,own] at known
      cases known
      exact ⟨rfl,by rw [same]; exact own⟩
    | numbered member same _ =>
      obtain ⟨known,number⟩ := carried inode member
      have one := apart _ _ _ _ known own (number.symm.trans same)
      rw [one] at known
      exact ⟨one,known⟩
    | new _ _ => exact ⟨rfl,own⟩
  exact ⟨result.1,result.2,distinct _ _ oid result.2 own⟩

/-- `smoothfs_iget` returns the file's own inode just when no two of the identities have one inode
number. -/
theorem iget_returns_own_inode (setting : Setting) (carries : File → Option ObjectId)
    (distinct : ∀ one two oid, carries one = some oid → carries two = some oid → one = two) :
    ReturnsOwn setting carries ↔ NumberedApart setting carries :=
  ⟨numberedApart_of_returnsOwn,returnsOwn_of_numberedApart distinct⟩

def twoFiles : File → Option ObjectId := fun file => if file = 0 then some 1 else if file = 1 then some 2 else none

def lowBits : Setting := ⟨fun oid => oid.setWidth 64,fun file => some file⟩

theorem iget_returns_own_inode_of_two_files :
    ∃ cache, run (cacheStep lowBits twoFiles) ⟨[],[]⟩ [.iget 0,.iget 1,.evict (lowBits.inodeNoFromOid 1)] = some cache ∧
      (iget lowBits cache 1 0).1.oid = 1 ∧ (iget lowBits cache 2 1).1.oid = 2 := by
  have small : ∀ file oid, twoFiles file = some oid → file = 0 ∧ oid = 1 ∨ file = 1 ∧ oid = 2 := by
    intro file oid carried
    unfold twoFiles at carried
    split at carried
    · next first => exact .inl ⟨first,(Option.some.inj carried).symm⟩
    · split at carried
      · next second => exact .inr ⟨second,(Option.some.inj carried).symm⟩
      · cases carried
  have distinct : ∀ one two oid, twoFiles one = some oid → twoFiles two = some oid → one = two := by
    intro one two oid first second
    rcases small one oid first with ⟨rfl,rfl⟩ | ⟨rfl,rfl⟩ <;> rcases small two _ second with ⟨rfl,same⟩ | ⟨rfl,same⟩
    · rfl
    · exact absurd same (by decide)
    · exact absurd same (by decide)
    · rfl
  have apart : NumberedApart lowBits twoFiles := by
    intro one two first second left right same
    rcases small one first left with ⟨_,rfl⟩ | ⟨_,rfl⟩ <;> rcases small two second right with ⟨_,rfl⟩ | ⟨_,rfl⟩
    · rfl
    · exact absurd same (by decide)
    · exact absurd same (by decide)
    · rfl
  obtain ⟨cache,reached⟩ : ∃ cache, run (cacheStep lowBits twoFiles) ⟨[],[]⟩
      [.iget 0,.iget 1,.evict (lowBits.inodeNoFromOid 1)] = some cache := ⟨_,rfl⟩
  have returns := (iget_returns_own_inode lowBits twoFiles distinct).mpr apart
  exact ⟨cache,reached,(returns _ cache reached 0 1 rfl).1,(returns _ cache reached 1 2 rfl).1⟩

theorem iget_returns_the_inode_of_another_file :
    ∃ cache, run (cacheStep ⟨fun _ => 0,fun file => some file⟩ twoFiles) ⟨[],[]⟩ [.iget 0] = some cache ∧
      twoFiles 1 = some 2 ∧ (iget ⟨fun _ => 0,fun file => some file⟩ cache 2 1).1.oid ≠ 2 := reaches (by decide +kernel)

end Smoothfs.Identity
