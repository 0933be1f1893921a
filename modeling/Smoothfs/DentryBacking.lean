import Smoothfs.Library.Run
import Smoothfs.Lookup
import Smoothfs.MergedDirectories

/-! Which lower file a name holds. A dentry keeps its own lower dentry in `d_fsdata`
besides the `lower_path` of its inode, and the calls that give a file another
backing have to change both. The dentries here are hashed, positive and of regular
files; a dentry without a path is the anonymous one of a decoded file handle. -/
namespace Smoothfs.DentryBacking

open Run MergedDirectories Function
open Lookup (activeTiers search Reached search_lower search_known)

structure Inode where
  oid : Oid
  lower : Lower
  relPath : Option RelPath
  deriving DecidableEq, Repr

structure Dentry where
  path : Option RelPath
  inode : Oid
  fsdata : Option Lower
  deriving DecidableEq, Repr

structure State where
  pool : Pool
  mask : Nat
  names : Loc → Option FileId
  nlink : FileId → Nat
  oids : FileId → Option Oid
  inodes : List Inode
  dentries : List Dentry
  nextFile : FileId

inductive Flags where
  | plain
  | noreplace
  | exchange
  | whiteout
  deriving DecidableEq, Repr

section Helpers

def dentryAt (state : State) (path : RelPath) : Option Dentry :=
  state.dentries.find? fun dentry => dentry.path = some path

def inodeOf (state : State) (oid : Oid) : Option Inode := state.inodes.find? fun inode => inode.oid = oid

def setName (state : State) (loc : Loc) (file : Option FileId) : State :=
  {state with
    names := update state.names loc file
    nlink := fun other =>
      state.nlink other - (if state.names loc = some other then 1 else 0) + (if file = some other then 1 else 0)}

def changeInode (state : State) (oid : Oid) (change : Inode → Inode) : State :=
  {state with inodes := state.inodes.map fun inode => if inode.oid = oid then change inode else inode}

def setRelPath (state : State) (oid : Oid) (rel : Option RelPath) : State :=
  changeInode state oid fun inode => {inode with relPath := rel}

def setLowerDentry (state : State) (path : RelPath) (lower : Option Lower) : State :=
  {state with dentries := state.dentries.map fun dentry => if dentry.path = some path then {dentry with fsdata := lower} else dentry}

def setLowerAll (state : State) (oid : Oid) (lower : Lower) (rel : Option RelPath) : State :=
  let switched := changeInode state oid fun inode => {inode with lower := lower, relPath := rel}
  {switched with dentries := state.dentries.map fun dentry => if dentry.inode = oid then {dentry with fsdata := some lower} else dentry}

def dropDentry (state : State) (path : Option RelPath) : State :=
  {state with dentries := state.dentries.filter fun dentry => dentry.path ≠ path}

def addDentry (state : State) (dentry : Dentry) : State := {state with dentries := dentry::state.dentries}

/-- The inode over this lower file, or the one of its identity, or a new one. -/
def iget (state : State) (lower : Lower) (fresh : Oid) : State × Inode :=
  match state.inodes.find? (fun inode => inode.lower = lower) with
  | some inode => (state,inode)
  | none =>
    let oid := (state.oids lower.ino).getD fresh
    match inodeOf state oid with
    | some inode => (state,inode)
    | none =>
      let inode : Inode := ⟨oid,lower,none⟩
      ({state with inodes := inode::state.inodes, oids := update state.oids lower.ino (some oid)},inode)

end Helpers

section Lookup

def fileAt (state : State) (path : RelPath) (tier : Nat) : Option Lower :=
  (state.names ⟨tier,path⟩).map (Lower.mk tier)

def reached (state : State) (parent : Nat) (path : RelPath) : Option (Reached Inode Lower) :=
  search state.pool.cacheMode (fileAt state path (state.pool.ntiers - 1)) (fileAt state path parent)
    (state.inodes.find? fun inode => inode.relPath = some path ∧ state.nlink inode.lower.ino ≠ 0)
    ((activeTiers state.pool state.mask).findSome? (fileAt state path))

/-- A dentry found across the tiers gets the inode's lower dentry, any other the one looked up. -/
def lookup (state : State) (parent : Nat) (path : RelPath) (fresh : Oid) : Option State :=
  if (dentryAt state path).isSome then none
  else
    match reached state parent path with
    | none => some state
    | some (.known inode) => some (addDentry state ⟨some path,inode.oid,some inode.lower⟩)
    | some (.lower lower tracked) =>
      let (after,inode) := iget state lower fresh
      let placed := if tracked then setRelPath after inode.oid (some path) else after
      let held := if tracked ∧ ¬ state.pool.cacheMode then inode.lower else lower
      some (addDentry placed ⟨some path,inode.oid,some held⟩)

def attachFirst (inode : Inode) : List Dentry → List Dentry
  | [] => []
  | dentry::rest =>
    if dentry.inode = inode.oid then
      (if dentry.fsdata = none then {dentry with fsdata := some inode.lower} else dentry)::rest
    else dentry::attachFirst inode rest

/-- `smoothfs_resolve_oid`. -/
def decodeHandle (state : State) (oid : Oid) (recorded : Option Loc) (fresh : Oid) : Option State :=
  let found : Option (State × Inode) :=
    match inodeOf state oid with
    | some inode => some (state,inode)
    | none => (recorded.bind fun loc => (state.names loc).map (Lower.mk loc.dir)).map fun lower => iget state lower fresh
  found.map fun (after,inode) =>
    if after.dentries.any fun dentry => dentry.inode = inode.oid then
      {after with dentries := attachFirst inode after.dentries}
    else addDentry after ⟨none,inode.oid,some inode.lower⟩

end Lookup

section Names

def create (state : State) (path : RelPath) (tier : Nat) (oid : Oid) : Option State :=
  if (dentryAt state path).isSome ∨ state.names ⟨tier,path⟩ ≠ none ∨ (inodeOf state oid).isSome then none
  else
    let lower : Lower := ⟨tier,state.nextFile⟩
    some {setName state ⟨tier,path⟩ (some state.nextFile) with
      oids := update state.oids state.nextFile (some oid)
      inodes := ⟨oid,lower,some path⟩::state.inodes
      dentries := ⟨some path,oid,some lower⟩::state.dentries
      nextFile := state.nextFile + 1}

/-- The new name goes into a directory on the tier `parent`. -/
def link (state : State) (parent : Nat) (source target : RelPath) : Option State :=
  match dentryAt state source with
  | none => none
  | some dentry =>
    match dentry.fsdata with
    | none => none
    | some lower =>
      if (dentryAt state target).isSome ∨ lower.tier ≠ parent ∨ state.names ⟨lower.tier,target⟩ ≠ none then none
      else some (addDentry (setName state ⟨lower.tier,target⟩ (some lower.ino)) ⟨some target,dentry.inode,some lower⟩)

/-- `last` is whether the upper link count has come to zero. -/
def unlink (state : State) (path : RelPath) (last : Bool) : Option State :=
  match dentryAt state path with
  | none => none
  | some dentry =>
    match dentry.fsdata with
    | none => none
    | some lower =>
      let removed := if state.names ⟨lower.tier,path⟩ = some lower.ino then setName state ⟨lower.tier,path⟩ none else state
      let dropped := dropDentry removed (some path)
      some (if last then setRelPath dropped dentry.inode none else dropped)

def crosses (tier parent : Nat) (source target : RelPath) : Bool := source.dropLast ≠ target.dropLast && tier ≠ parent

def isStale (tier parent : Nat) (source target : RelPath) (lower : Lower) : Bool :=
  if source.dropLast = target.dropLast then lower.tier ≠ tier else tier ≠ parent

/-- The calls that fail before anything is changed. -/
def refused (tier parent : Nat) (source target : RelPath) (flags : Flags) (onto : Option Dentry) : Bool :=
  let elsewhere := (onto.bind Dentry.fsdata).any fun lower => lower.tier ≠ tier
  match flags with
  | .plain => source.dropLast ≠ target.dropLast && tier = parent && elsewhere
  | .noreplace => onto.isSome
  | .exchange => onto.isNone || crosses tier parent source target || elsewhere
  | .whiteout => crosses tier parent source target || elsewhere

def staleTarget (state : State) (parent : Nat) (source target : RelPath) : Option Lower :=
  match (dentryAt state source).bind Dentry.fsdata with
  | none => none
  | some lower => ((dentryAt state target).bind Dentry.fsdata).filter (isStale lower.tier parent source target)

def renameLower (state : State) (lower : Lower) (source target : RelPath) : Flags → State
  | .exchange =>
    let other := state.names ⟨lower.tier,target⟩
    setName (setName state ⟨lower.tier,target⟩ (some lower.ino)) ⟨lower.tier,source⟩ other
  | .whiteout =>
    let left := setName (setName state ⟨lower.tier,target⟩ (some lower.ino)) ⟨lower.tier,source⟩ (some state.nextFile)
    {left with nextFile := state.nextFile + 1}
  | _ => setName (setName state ⟨lower.tier,source⟩ none) ⟨lower.tier,target⟩ (some lower.ino)

/-- `d_move` or `d_exchange`. -/
def moveDentry (state : State) (source target : RelPath) (flags : Flags) : State :=
  match flags with
  | .exchange =>
    {state with dentries := state.dentries.map fun dentry =>
      if dentry.path = some source then {dentry with path := some target}
      else if dentry.path = some target then {dentry with path := some source} else dentry}
  | _ =>
    let others := dropDentry state (some target)
    {others with dentries := others.dentries.map fun dentry =>
      if dentry.path = some source then {dentry with path := some target} else dentry}

def dropStale (state : State) (target : RelPath) (old : Dentry) (lower : Lower) : State :=
  let removed := if state.names ⟨lower.tier,target⟩ = some lower.ino then setName state ⟨lower.tier,target⟩ none else state
  setRelPath removed old.inode none

def clearStale (state : State) (target : RelPath) (stale : Option Lower) : State :=
  if stale.isSome then setLowerDentry state target none else state

def placeRenamed (state : State) (dentry : Dentry) (lower : Lower) (onto : Option Dentry) (stale : Option Lower)
    (source target : RelPath) (flags : Flags) : State :=
  let renamed := renameLower state lower source target flags
  let attached := setLowerDentry (setLowerDentry renamed source (some lower)) target none
  let keyed := setRelPath attached dentry.inode (some target)
  match onto, stale with
  | some old, some gone => dropStale keyed target old gone
  | _, _ => keyed

/-- With the d_move that follows. `parent` is the tier of the new parent's lower directory, `failed`
whether the lower rename fails. -/
def rename (state : State) (parent : Nat) (source target : RelPath) (flags : Flags) (failed : Bool) : Option State :=
  match dentryAt state source with
  | none => none
  | some dentry =>
    match dentry.fsdata with
    | none => none
    | some lower =>
      let onto := dentryAt state target
      if source = target ∨ (onto.any fun other => other.inode = dentry.inode) = true ∨
          refused lower.tier parent source target flags onto = true then none
      else
        let stale := staleTarget state parent source target
        let cleared := clearStale state target stale
        if failed then some cleared
        else some (moveDentry (placeRenamed cleared dentry lower onto stale source target flags) source target flags)

end Names

section Backings

/-- `smoothfs_stage_truncate_to_fast`. -/
def truncateRehome (state : State) (path : RelPath) : Option State :=
  match dentryAt state path with
  | none => none
  | some dentry =>
    let fast := state.pool.fastestTier
    if state.pool.cacheMode ∨ ((inodeOf state dentry.inode).all fun inode => inode.lower.tier = fast) = true then none
    else
      let file := (state.names ⟨fast,path⟩).getD state.nextFile
      let lower : Lower := ⟨fast,file⟩
      let staged : State := {setName state ⟨fast,path⟩ (some file) with
        oids := if state.oids file = none then update state.oids file (some dentry.inode) else state.oids
        nextFile := state.nextFile + 1}
      let swapped := changeInode staged dentry.inode fun inode => {inode with lower := lower, relPath := some path}
      some (setLowerDentry swapped path (some lower))

def cutover (state : State) (oid : Oid) (tier : Nat) (path : RelPath) : Option State :=
  match state.names ⟨tier,path⟩ with
  | none => none
  | some file =>
    if state.oids file = none ∨ state.oids file = some oid then
      some (setLowerAll {state with oids := update state.oids file (some oid)} oid ⟨tier,file⟩ (some path))
    else none

/-- `smoothfs_relower_after_forget`. -/
def relower (state : State) (oid : Oid) (tier : Nat) (path : RelPath) : Option State :=
  match state.names ⟨tier,path⟩, inodeOf state oid with
  | some file, some inode => some (setLowerAll state oid ⟨tier,file⟩ inode.relPath)
  | _, _ => none

end Backings

inductive Label where
  | lookup (parent : Nat) (path : RelPath) (fresh : Oid)
  | create (path : RelPath) (tier : Nat) (oid : Oid)
  | link (parent : Nat) (source target : RelPath)
  | unlink (path : RelPath) (last : Bool)
  | rename (parent : Nat) (source target : RelPath) (flags : Flags) (failed : Bool)
  | truncateRehome (path : RelPath)
  | copy (loc : Loc)
  | cutover (oid : Oid) (tier : Nat) (path : RelPath)
  | cleanup (loc : Loc)
  | relower (oid : Oid) (tier : Nat) (path : RelPath)
  | decodeHandle (oid : Oid) (recorded : Option Loc) (fresh : Oid)
  | dropDentry (path : Option RelPath)
  | evict (oid : Oid)
  deriving DecidableEq, Repr

/-- The mover copies to a free name and removes what it likes; an inode is evicted when no
dentry has it. -/
def step (state : State) : Label → Option State
  | .lookup parent path fresh => lookup state parent path fresh
  | .create path tier oid => create state path tier oid
  | .link parent source target => link state parent source target
  | .unlink path last => unlink state path last
  | .rename parent source target flags failed => rename state parent source target flags failed
  | .truncateRehome path => truncateRehome state path
  | .copy loc =>
    if state.names loc = none then some {setName state loc (some state.nextFile) with nextFile := state.nextFile + 1} else none
  | .cutover oid tier path => cutover state oid tier path
  | .cleanup loc => some (setName state loc none)
  | .relower oid tier path => relower state oid tier path
  | .decodeHandle oid recorded fresh => decodeHandle state oid recorded fresh
  | .dropDentry path => some (dropDentry state path)
  | .evict oid =>
    if (state.dentries.any fun dentry => dentry.inode = oid) = true then none
    else some {state with inodes := state.inodes.filter fun inode => inode.oid ≠ oid}

/-- The tier of the directory in which a lookup takes a file by its name. -/
def home (pool : Pool) (parent : Nat) : Nat := if pool.cacheMode then pool.ntiers - 1 else parent

/-- The file that has a name in the parent's lower directory is under the inode in memory that has
its OID; no rename exchanges two names or fails once it has cleared the target; a rehomed file has
one dentry. -/
def Matched (state : State) : Label → Prop
  | .lookup parent path fresh =>
    ∀ lower ∈ fileAt state path (home state.pool parent), (∃ inode ∈ state.inodes, inode.lower = lower) ∨
      ∀ inode ∈ state.inodes, inode.oid ≠ (state.oids lower.ino).getD fresh
  | .rename parent source target flags failed => flags ≠ .exchange ∧ (failed = true → staleTarget state parent source target = none)
  | .truncateRehome path => ∀ own ∈ dentryAt state path, ∀ dentry ∈ state.dentries, dentry.inode = own.inode → dentry.path = some path
  | _ => True

section Agreement

variable {state : State} {inodes : List Inode} {dentries : List Dentry}

def Agrees (inodes : List Inode) (dentry : Dentry) : Prop :=
  ∃ inode ∈ inodes, inode.oid = dentry.inode ∧ dentry.fsdata = some inode.lower

structure Kept (state : State) : Prop where
  distinct : (state.inodes.map Inode.oid).Nodup
  unique : ∀ one ∈ state.dentries, ∀ two ∈ state.dentries, one.path = two.path → one.path ≠ none → one.inode = two.inode
  agreed : ∀ dentry ∈ state.dentries, Agrees state.inodes dentry

variable {path : RelPath} {dentry : Dentry}

theorem mem_of_dentryAt (found : dentryAt state path = some dentry) : dentry ∈ state.dentries ∧ dentry.path = some path := by
  have same := List.find?_some found
  rw [decide_eq_true_eq] at same
  exact ⟨List.mem_of_find?_eq_some found,same⟩

theorem path_of_dentryAt_none (absent : dentryAt state path = none) : ∀ dentry ∈ state.dentries, dentry.path ≠ some path := by
  intro dentry member same
  have other := List.find?_eq_none.mp absent dentry member
  simp [same] at other

variable {oid : Oid} {inode : Inode}

theorem mem_of_inodeOf (found : inodeOf state oid = some inode) : inode ∈ state.inodes ∧ inode.oid = oid := by
  have same := List.find?_some found
  rw [decide_eq_true_eq] at same
  exact ⟨List.mem_of_find?_eq_some found,same⟩

theorem not_mem_of_inodeOf_none (absent : inodeOf state oid = none) : oid ∉ state.inodes.map Inode.oid := by
  intro member
  obtain ⟨inode,listed,same⟩ := List.mem_map.mp member
  have other := List.find?_eq_none.mp absent inode listed
  simp [same] at other

theorem Agrees.lower (distinct : (inodes.map Inode.oid).Nodup) (agrees : Agrees inodes dentry)
    (member : inode ∈ inodes) (own : inode.oid = dentry.inode) : dentry.fsdata = some inode.lower := by
  obtain ⟨other,listed,same,held⟩ := agrees
  rw [← List.inj_on_of_nodup_map distinct listed member (same.trans own.symm)]
  exact held

theorem Agrees.change {dentry : Dentry} (agrees : Agrees inodes dentry) {oid : Oid} {change : Inode → Inode}
    (same : ∀ inode, (change inode).oid = inode.oid ∧ (change inode).lower = inode.lower) :
    Agrees (inodes.map fun inode => if inode.oid = oid then change inode else inode) dentry := by
  obtain ⟨inode,listed,own,held⟩ := agrees
  refine ⟨_,List.mem_map.mpr ⟨inode,listed,rfl⟩,?_⟩
  split
  · exact ⟨(same inode).1.trans own,by rw [(same inode).2]; exact held⟩
  · exact ⟨own,held⟩

theorem distinct_change (distinct : (inodes.map Inode.oid).Nodup) {change : Inode → Inode}
    (same : ∀ inode, (change inode).oid = inode.oid) :
    ((inodes.map fun inode => if inode.oid = oid then change inode else inode).map Inode.oid).Nodup := by
  rw [List.map_map]
  convert distinct using 2
  funext inode
  simp only [comp_apply]
  split
  · exact same inode
  · rfl

variable (kept : Kept state)
include kept

theorem Kept.frame {other : State} (inodes : other.inodes = state.inodes)
    (dentries : other.dentries = state.dentries) : Kept other :=
  ⟨by rw [inodes]; exact kept.distinct,by rw [dentries]; exact kept.unique,by rw [inodes,dentries]; exact kept.agreed⟩

theorem Kept.setRelPath (oid : Oid) (rel : Option RelPath) : Kept (setRelPath state oid rel) :=
  ⟨distinct_change kept.distinct fun _ => rfl,kept.unique,
    fun dentry member => (kept.agreed dentry member).change fun _ => ⟨rfl,rfl⟩⟩

theorem Kept.setName (loc : Loc) (file : Option FileId) : Kept (setName state loc file) :=
  kept.frame rfl rfl

theorem Kept.shrink (within : ∀ dentry ∈ dentries, dentry ∈ state.dentries) : Kept {state with dentries := dentries} :=
  ⟨kept.distinct,fun one first two second => kept.unique one (within one first) two (within two second),
    fun dentry member => kept.agreed dentry (within dentry member)⟩

theorem Kept.dropDentry (path : Option RelPath) : Kept (dropDentry state path) :=
  kept.shrink fun _ member => (List.mem_filter.mp member).1

theorem Kept.addDentry (agrees : Agrees state.inodes dentry)
    (absent : ∀ path, dentry.path = some path → ∀ other ∈ state.dentries, other.path ≠ some path) : Kept (addDentry state dentry) := by
  have apart (other : Dentry) (member : other ∈ state.dentries) (same : dentry.path = other.path) (named : dentry.path ≠ none) :
      False := by
    obtain ⟨path,named⟩ := Option.ne_none_iff_exists'.mp named
    exact absent path named other member (same.symm.trans named)
  refine ⟨kept.distinct,?_,?_⟩
  · intro one first two second same named
    rcases List.mem_cons.mp first with rfl | before <;> rcases List.mem_cons.mp second with rfl | beside
    · rfl
    · exact (apart two beside same named).elim
    · exact (apart one before same.symm (by rwa [← same])).elim
    · exact kept.unique one before two beside same named
  · intro other member
    rcases List.mem_cons.mp member with rfl | member
    · exact agrees
    · exact kept.agreed other member

theorem Kept.iget (lower : Lower) (fresh : Oid) :
    Kept (iget state lower fresh).1 ∧ (iget state lower fresh).2 ∈ (iget state lower fresh).1.inodes ∧
      (iget state lower fresh).1.dentries = state.dentries := by
  unfold DentryBacking.iget
  split
  next inode found => exact ⟨kept,List.mem_of_find?_eq_some found,rfl⟩
  · dsimp only
    split
    next inode found => exact ⟨kept,(mem_of_inodeOf found).1,rfl⟩
    next absent =>
    refine ⟨⟨?_,kept.unique,?_⟩,List.mem_cons_self,rfl⟩
    · exact List.nodup_cons.mpr ⟨not_mem_of_inodeOf_none absent,kept.distinct⟩
    · intro dentry member
      obtain ⟨inode,listed,own,held⟩ := kept.agreed dentry member
      exact ⟨inode,List.mem_cons_of_mem _ listed,own,held⟩

omit kept in
theorem iget_over {lower : Lower} {fresh : Oid} (matched : (∃ inode ∈ state.inodes, inode.lower = lower) ∨
    ∀ inode ∈ state.inodes, inode.oid ≠ (state.oids lower.ino).getD fresh) : (DentryBacking.iget state lower fresh).2.lower = lower := by
  unfold DentryBacking.iget
  split
  next inode found => simpa using List.find?_some found
  next absent =>
    have unknown := matched.resolve_left fun ⟨inode,member,same⟩ => by simpa [same] using List.find?_eq_none.mp absent inode member
    dsimp only
    split
    next inode found =>
      obtain ⟨member,own⟩ := mem_of_inodeOf found
      exact absurd own (unknown inode member)
    · rfl

omit kept in
theorem fileAt_of_reached {lower : Lower} {parent : Nat} {tracked : Bool}
    (came : reached state parent path = some (.lower lower tracked)) (direct : ¬ (tracked = true ∧ ¬ state.pool.cacheMode = true)) :
    fileAt state path (home state.pool parent) = some lower := by
  unfold home
  rcases search_lower came with ⟨cache,found⟩ | ⟨tiered,found,_⟩ | ⟨tiered,rfl,_⟩
  · rwa [if_pos cache]
  · rwa [if_neg (by simp [tiered])]
  · exact absurd ⟨rfl,by simp [tiered]⟩ direct

theorem Kept.newName (member : inode ∈ state.inodes) (path : RelPath)
    (absent : ∀ dentry ∈ state.dentries, dentry.path ≠ some path) :
    Kept (DentryBacking.addDentry state ⟨some path,inode.oid,some inode.lower⟩) :=
  kept.addDentry ⟨inode,member,rfl,rfl⟩ fun _ same => by cases same; exact absent

variable {next : State} {parent : Nat} {fresh : Oid}

theorem Kept.lookup
    (matched : Matched state (.lookup parent path fresh)) (found : lookup state parent path fresh = some next) : Kept next := by
  unfold DentryBacking.lookup at found
  split at found
  · cases found
  next vacant =>
  have absent := path_of_dentryAt_none (Option.not_isSome_iff_eq_none.mp vacant)
  split at found
  · cases found
    exact kept
  next inode came =>
    cases found
    exact kept.newName (List.mem_of_find?_eq_some (search_known came)) path absent
  next lower tracked came =>
  cases found
  obtain ⟨after,member,dentries⟩ := kept.iget lower fresh
  have named := after.newName member path (by rwa [dentries])
  have held : (if tracked = true ∧ ¬ state.pool.cacheMode = true then (DentryBacking.iget state lower fresh).2.lower else lower) =
      (DentryBacking.iget state lower fresh).2.lower := by
    split
    next => rfl
    next direct => exact (iget_over (matched lower (fileAt_of_reached came direct))).symm
  rw [← held] at named
  dsimp only
  split
  · exact named.setRelPath _ _
  · exact named

variable {tier : Nat}

theorem Kept.create (created : create state path tier oid = some next) : Kept next := by
  unfold DentryBacking.create at created
  split at created
  · cases created
  next free =>
  simp only [not_or,Option.not_isSome_iff_eq_none] at free
  obtain ⟨vacant,_,unknown⟩ := free
  cases created
  have made : Kept {state with inodes := ⟨oid,⟨tier,state.nextFile⟩,some path⟩::state.inodes} := by
    refine ⟨List.nodup_cons.mpr ⟨not_mem_of_inodeOf_none unknown,kept.distinct⟩,kept.unique,fun dentry member => ?_⟩
    obtain ⟨inode,listed,own,held⟩ := kept.agreed dentry member
    exact ⟨inode,List.mem_cons_of_mem _ listed,own,held⟩
  have named := made.newName List.mem_cons_self path (path_of_dentryAt_none vacant)
  exact named.frame rfl rfl

theorem Kept.link {source target : RelPath} (made : link state parent source target = some next) : Kept next := by
  unfold DentryBacking.link at made
  split at made
  · cases made
  next dentry found =>
  split at made
  · cases made
  next lower held =>
  split at made
  · cases made
  next free =>
  simp only [not_or,Option.not_isSome_iff_eq_none] at free
  cases made
  obtain ⟨inode,listed,own,same⟩ := kept.agreed dentry (mem_of_dentryAt found).1
  have named := (kept.setName ⟨lower.tier,target⟩ (some lower.ino)).newName listed target (path_of_dentryAt_none free.1)
  rw [held,Option.some.injEq] at same
  subst same
  rwa [← own]

theorem Kept.unlink {last : Bool} (removed : unlink state path last = some next) : Kept next := by
  unfold DentryBacking.unlink at removed
  split at removed
  · cases removed
  next dentry found =>
  split at removed
  · cases removed
  next lower held =>
  cases removed
  have names : Kept (if state.names ⟨lower.tier,path⟩ = some lower.ino then
      DentryBacking.setName state ⟨lower.tier,path⟩ none else state) := by
    split
    · exact kept.setName _ _
    · exact kept
  split
  · exact (names.dropDentry _).setRelPath _ _
  · exact names.dropDentry _

theorem Kept.unique_map {change : Dentry → Dentry}
    (same : ∀ dentry, (change dentry).path = dentry.path ∧ (change dentry).inode = dentry.inode) :
    ∀ one ∈ state.dentries.map change, ∀ two ∈ state.dentries.map change, one.path = two.path → one.path ≠ none →
      one.inode = two.inode := by
  intro one first two second equal named
  obtain ⟨before,listed,rfl⟩ := List.mem_map.mp first
  obtain ⟨beside,there,rfl⟩ := List.mem_map.mp second
  rw [(same before).1,(same beside).1] at equal
  rw [(same before).1] at named
  rw [(same before).2,(same beside).2]
  exact kept.unique before listed beside there equal named

theorem Kept.setLowerAll (oid : Oid) (lower : Lower) (rel : Option RelPath) : Kept (setLowerAll state oid lower rel) := by
  refine ⟨distinct_change kept.distinct fun _ => rfl,kept.unique_map fun dentry => by split <;> exact ⟨rfl,rfl⟩,?_⟩
  · intro dentry member
    obtain ⟨before,listed,rfl⟩ := List.mem_map.mp member
    obtain ⟨inode,known,own,held⟩ := kept.agreed before listed
    refine ⟨_,List.mem_map.mpr ⟨inode,known,rfl⟩,?_⟩
    by_cases moved : before.inode = oid
    · simp [own,moved]
    · simp [own,moved,held]

theorem Kept.cutover (switched : cutover state oid tier path = some next) : Kept next := by
  unfold DentryBacking.cutover at switched
  split at switched
  · cases switched
  split at switched
  · cases switched
    apply Kept.setLowerAll
    exact kept.frame rfl rfl
  · cases switched

theorem Kept.relower (switched : relower state oid tier path = some next) : Kept next := by
  unfold DentryBacking.relower at switched
  split at switched
  · cases switched
    exact kept.setLowerAll _ _ _
  · cases switched

omit kept

theorem attachFirst_agreed (agreed : ∀ dentry ∈ dentries, Agrees inodes dentry) : attachFirst inode dentries = dentries := by
  induction dentries with
  | nil => rfl
  | cons dentry rest ih =>
    obtain ⟨_,_,_,held⟩ := agreed dentry List.mem_cons_self
    have later := ih fun other member => agreed other (List.mem_cons_of_mem _ member)
    simp [attachFirst,held,later]

theorem Kept.decodeHandle (kept : Kept state) {recorded : Option Loc}
    (decoded : decodeHandle state oid recorded fresh = some next) : Kept next := by
  obtain ⟨⟨after,inode⟩,found,result⟩ := Option.map_eq_some_iff.mp decoded
  have spec : Kept after ∧ inode ∈ after.inodes := by
    split at found
    next known there =>
      cases found
      exact ⟨kept,(mem_of_inodeOf there).1⟩
    · obtain ⟨lower,_,same⟩ := Option.map_eq_some_iff.mp found
      obtain ⟨later,member,_⟩ := kept.iget lower fresh
      rw [same] at later member
      exact ⟨later,member⟩
  obtain ⟨later,member⟩ := spec
  dsimp only at result
  split at result
  · rw [attachFirst_agreed later.agreed] at result
    cases result
    exact later
  · cases result
    exact later.addDentry ⟨inode,member,rfl,rfl⟩ fun _ named => by cases named

theorem Kept.truncateRehome (kept : Kept state) (matched : Matched state (.truncateRehome path))
    (staged : truncateRehome state path = some next) : Kept next := by
  unfold DentryBacking.truncateRehome at staged
  split at staged
  · cases staged
  next own found =>
  dsimp only at staged
  split at staged
  · cases staged
  cases staged
  obtain ⟨listed,named⟩ := mem_of_dentryAt found
  refine ⟨distinct_change kept.distinct fun _ => rfl,kept.unique_map fun dentry => by split <;> exact ⟨rfl,rfl⟩,?_⟩
  intro dentry member
  obtain ⟨before,there,rfl⟩ := List.mem_map.mp member
  obtain ⟨inode,known,same,held⟩ := kept.agreed before there
  refine ⟨_,List.mem_map.mpr ⟨inode,known,rfl⟩,?_⟩
  -- A dentry is at the path exactly if it has the inode that is staged.
  by_cases here : before.path = some path
  · have inodeSame := kept.unique before there own listed (here.trans named.symm) (by rw [here]; exact Option.some_ne_none _)
    simp [here,same,inodeSame]
  · have other : before.inode ≠ own.inode := fun equal => here (matched own found before there equal)
    simp [here,same,other,held]

section Rename

variable {source target : RelPath} {flags : Flags} {dentry : Dentry} {lower : Lower}

def movedDentry (source target : RelPath) (dentry : Dentry) : Dentry :=
  {dentry with path := if dentry.path = some source then some target else dentry.path}

theorem Kept.moved (kept : Kept state)
    (from_ : ∀ dentry ∈ dentries, ∃ before ∈ state.dentries, before.path ≠ some target ∧ dentry = movedDentry source target before) :
    Kept {state with dentries := dentries} := by
  refine ⟨kept.distinct,?_,?_⟩
  · intro one first two second same named
    obtain ⟨before,listed,apart,rfl⟩ := from_ one first
    obtain ⟨beside,there,away,rfl⟩ := from_ two second
    simp only [movedDentry] at same named ⊢
    by_cases here : before.path = some source <;> by_cases alike : beside.path = some source
    · exact kept.unique before listed beside there (here.trans alike.symm) (by rw [here]; exact Option.some_ne_none _)
    · simp only [here,alike] at same
      exact absurd same.symm away
    · simp only [here,alike] at same
      exact absurd same apart
    · simp only [here,alike] at same named
      exact kept.unique before listed beside there same named
  · intro other member
    obtain ⟨before,listed,_,rfl⟩ := from_ other member
    exact kept.agreed before listed

variable {other : Dentry}

theorem mem_setLowerDentry {path : RelPath} {value : Option Lower}
    (member : other ∈ (setLowerDentry state path value).dentries) (apart : other.path ≠ some path) : other ∈ state.dentries := by
  obtain ⟨before,listed,rfl⟩ := List.mem_map.mp member
  split at apart
  next same => exact absurd same apart
  next away =>
  rw [if_neg away]
  exact listed

theorem mem_moveDentry (plain : flags ≠ .exchange) (member : other ∈ (moveDentry state source target flags).dentries) :
    ∃ before ∈ state.dentries, before.path ≠ some target ∧ other = movedDentry source target before := by
  have listed : other ∈ (dropDentry state (some target)).dentries.map fun dentry =>
      if dentry.path = some source then {dentry with path := some target} else dentry := by
    cases flags with
    | exchange => exact absurd rfl plain
    | plain => exact member
    | noreplace => exact member
    | whiteout => exact member
  obtain ⟨before,kept,rfl⟩ := List.mem_map.mp listed
  obtain ⟨there,apart⟩ := List.mem_filter.mp kept
  refine ⟨before,there,of_decide_eq_true apart,?_⟩
  simp only [movedDentry]
  split <;> rfl

theorem Kept.renamed_from (kept : Kept state) (found : dentryAt state source = some dentry) (held : dentry.fsdata = some lower)
    (plain : flags ≠ .exchange) {cleared placed : State} (clear : cleared = state ∨ cleared = setLowerDentry state target none)
    (attached : placed.dentries = (setLowerDentry (setLowerDentry cleared source (some lower)) target none).dentries) :
    ∀ other ∈ (moveDentry placed source target flags).dentries, ∃ before ∈ state.dentries,
      before.path ≠ some target ∧ other = movedDentry source target before := by
  intro other member
  obtain ⟨last,listed,apart,rfl⟩ := mem_moveDentry plain member
  rw [attached] at listed
  obtain ⟨before,there,same⟩ := List.mem_map.mp (mem_setLowerDentry listed apart)
  have path : before.path = last.path := by
    rw [← same]
    split <;> rfl
  have known : before ∈ state.dentries := by
    rcases clear with rfl | rfl
    · exact there
    · exact mem_setLowerDentry there (by rwa [path])
  -- The source dentry gets the lower dentry that it had.
  have unchanged : last = before := by
    rw [← same]
    split
    next here =>
      obtain ⟨own,named⟩ := mem_of_dentryAt found
      have inodes := kept.unique before known dentry own (here.trans named.symm) (by rw [here]; exact Option.some_ne_none _)
      obtain ⟨inode,member,oid,holds⟩ := kept.agreed before known
      have equal := (kept.agreed dentry own).lower kept.distinct member (oid.trans inodes)
      rw [← held,equal,← holds]
    · rfl
  exact ⟨before,known,by rwa [path],by rw [unchanged]⟩

theorem placeRenamed_frame (state : State) (dentry : Dentry) (lower : Lower) (onto : Option Dentry) (stale : Option Lower)
    (source target : RelPath) (flags : Flags) :
    (placeRenamed state dentry lower onto stale source target flags).dentries =
        (setLowerDentry (setLowerDentry state source (some lower)) target none).dentries ∧
      ((placeRenamed state dentry lower onto stale source target flags).inodes =
          (DentryBacking.setRelPath state dentry.inode (some target)).inodes ∨
        ∃ old, (placeRenamed state dentry lower onto stale source target flags).inodes =
          (DentryBacking.setRelPath (DentryBacking.setRelPath state dentry.inode (some target)) old none).inodes) := by
  have lowerOnly : (renameLower state lower source target flags).dentries = state.dentries ∧
      (renameLower state lower source target flags).inodes = state.inodes := by
    cases flags <;> exact ⟨rfl,rfl⟩
  unfold placeRenamed
  split
  next old gone =>
    unfold dropStale
    dsimp only
    refine ⟨?_,.inr ⟨old.inode,?_⟩⟩ <;>
      split <;> simp [DentryBacking.setRelPath,changeInode,DentryBacking.setName,setLowerDentry,lowerOnly]
  · refine ⟨?_,.inl ?_⟩ <;> simp [DentryBacking.setRelPath,changeInode,setLowerDentry,lowerOnly]

theorem moveDentry_inodes (state : State) (source target : RelPath) (flags : Flags) :
    (moveDentry state source target flags).inodes = state.inodes := by
  cases flags <;> rfl

theorem Kept.rename (kept : Kept state) {next : State} {parent : Nat} {failed : Bool}
    (matched : Matched state (.rename parent source target flags failed))
    (renamed : rename state parent source target flags failed = some next) : Kept next := by
  unfold DentryBacking.rename at renamed
  split at renamed
  · cases renamed
  next dentry found =>
  split at renamed
  · cases renamed
  next lower held =>
  dsimp only at renamed
  split at renamed
  · cases renamed
  split at renamed
  next failure =>
    cases renamed
    rw [matched.2 failure]
    exact kept
  next =>
  cases renamed
  generalize staleTarget state parent source target = stale
  have clear : clearStale state target stale = state ∨ clearStale state target stale = setLowerDentry state target none := by
    unfold clearStale
    split
    · exact .inr rfl
    · exact .inl rfl
  have inodes : (clearStale state target stale).inodes = state.inodes := by
    rcases clear with same | same
    · rw [same]
    · rw [same]
      rfl
  obtain ⟨dentries,keys⟩ := placeRenamed_frame (clearStale state target stale) dentry lower (dentryAt state target) stale
    source target flags
  have moved := (kept.moved (kept.renamed_from found held matched.1 clear dentries)).setRelPath dentry.inode (some target)
  rcases keys with keys | ⟨old,keys⟩
  · refine moved.frame ?_ rfl
    rw [moveDentry_inodes,keys]
    simp [DentryBacking.setRelPath,changeInode,inodes]
  · refine (moved.setRelPath old none).frame ?_ rfl
    rw [moveDentry_inodes,keys]
    simp [DentryBacking.setRelPath,changeInode,inodes]

end Rename

theorem Kept.step (kept : Kept state) {label : Label} (matched : Matched state label)
    (taken : step state label = some next) : Kept next := by
  cases label with
  | lookup parent path fresh => exact kept.lookup matched taken
  | create path tier oid => exact kept.create taken
  | link parent source target => exact kept.link taken
  | unlink path last => exact kept.unlink taken
  | rename parent source target flags failed => exact kept.rename matched taken
  | truncateRehome path => exact kept.truncateRehome matched taken
  | copy loc =>
    simp only [DentryBacking.step] at taken
    split at taken
    · cases taken
      exact kept.frame rfl rfl
    · cases taken
  | cutover oid tier path => exact kept.cutover taken
  | cleanup loc =>
    cases taken
    exact kept.setName loc none
  | relower oid tier path => exact kept.relower taken
  | decodeHandle oid recorded fresh => exact kept.decodeHandle taken
  | dropDentry path =>
    cases taken
    exact kept.dropDentry path
  | evict oid =>
    simp only [DentryBacking.step] at taken
    split at taken
    · cases taken
    next unused =>
    cases taken
    refine ⟨(List.filter_sublist.map _).nodup kept.distinct,kept.unique,fun dentry member => ?_⟩
    obtain ⟨inode,listed,own,held⟩ := kept.agreed dentry member
    refine ⟨inode,List.mem_filter.mpr ⟨listed,?_⟩,own,held⟩
    rw [decide_eq_true_eq]
    intro same
    exact unused (List.any_eq_true.mpr ⟨dentry,member,decide_eq_true (own.symm.trans same)⟩)

end Agreement

def Mounted (state : State) : Prop := state.inodes = [] ∧ state.dentries = []

/-- Every dentry has a lower dentry, and its lower file is that of the inode's `lower_path`. -/
theorem names_and_inodes_agree (start final : State) (labels : List Label) (mounted : Mounted start)
    (matched : Guarded step Matched start labels) (reached : run step start labels = some final) :
    ∀ dentry ∈ final.dentries, ∃ inode ∈ final.inodes, inode.oid = dentry.inode ∧ dentry.fsdata = some inode.lower := by
  have initial : Kept start := ⟨by simp [mounted.1],by simp [mounted.2],by simp [mounted.2]⟩
  have kept := Run.invariant step Matched Kept (fun _ _ _ before guard taken => before.step guard taken) start final labels
    initial matched reached
  exact kept.agreed

instance decidableMatched (state : State) : ∀ label, Decidable (Matched state label)
  | .lookup parent path _ => inferInstanceAs (Decidable (∀ lower ∈ fileAt state path (home state.pool parent), _ ∨ _))
  | .rename _ _ _ _ _ => inferInstanceAs (Decidable (_ ∧ (_ → _)))
  | .truncateRehome path =>
    inferInstanceAs (Decidable (∀ own ∈ dentryAt state path, ∀ dentry ∈ state.dentries, _ → _))
  | .create _ _ _ | .link _ _ _ | .unlink _ _ | .copy _ | .cutover _ _ _ | .cleanup _ | .relower _ _ _ | .decodeHandle _ _ _
  | .dropDentry _ | .evict _ => isTrue trivial

private def emptyMount : State where
  pool := ⟨2,0,false,false,true,false⟩
  mask := 3
  names := fun _ => none
  nlink := fun _ => 0
  oids := fun _ => none
  inodes := []
  dentries := []
  nextFile := 1

private def linkedAndMoved : List Label :=
  [.create ["a"] 1 10,.link 1 ["a"] ["b"],.create ["c"] 0 11,.rename 1 ["b"] ["c"] .plain false,.copy ⟨0,["a"]⟩,
    .cutover 10 0 ["a"],.cleanup ⟨1,["a"]⟩,.dropDentry (some ["a"]),.decodeHandle 10 none 99,.lookup 0 ["a"] 99]

theorem linked_and_moved_agree :
    ∃ final, run step emptyMount linkedAndMoved = some final ∧ final.dentries.length = 2 ∧
      ∀ dentry ∈ final.dentries, ∃ inode ∈ final.inodes, inode.oid = dentry.inode ∧ dentry.fsdata = some inode.lower := by
  have matched : Guarded step Matched emptyMount linkedAndMoved := by decide +kernel
  obtain ⟨final,reached,many⟩ : ∃ final, run step emptyMount linkedAndMoved = some final ∧ final.dentries.length = 2 :=
    reaches (by decide +kernel)
  exact ⟨final,reached,many,names_and_inodes_agree emptyMount final linkedAndMoved ⟨rfl,rfl⟩ matched reached⟩

/-- `RENAME_EXCHANGE` leaves the second name without a lower dentry. -/
theorem exchanged_name_without_backing :
    ∃ final, run step emptyMount [.create ["a"] 0 10,.create ["b"] 0 11,.rename 0 ["a"] ["b"] .exchange false] = some final ∧
      dentryAt final ["a"] = some ⟨some ["a"],11,none⟩ ∧ dentryAt final ["b"] = some ⟨some ["b"],10,some ⟨0,1⟩⟩ :=
  reaches (by decide +kernel)

end Smoothfs.DentryBacking
