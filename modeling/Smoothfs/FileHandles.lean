import Smoothfs.RemountAgreement

/-! NFS file handles: their two forms, what they are decoded to, and handles that are
older than the mount that decodes them. -/
namespace Smoothfs.FileHandles

open Namespace Control Lookup Resolve RemountAgreement Run Movement
open Placement hiding recoveryResolveOid

abbrev ObjectId := BitVec 128

abbrev Word := BitVec 32

section Model

def fileidSmoothfsOid : Nat := 0x53

def fileidSmoothfsOidConnectable : Nat := 0x54

def fhDwords : Nat := 6

def fhConnectableDwords : Nat := 10

structure Fid where
  fhType : Nat
  raw : List Word
  deriving DecidableEq, Repr

def words (oid : ObjectId) : List Word :=
  [oid.extractLsb' 0 32,oid.extractLsb' 32 32,oid.extractLsb' 64 32,oid.extractLsb' 96 32]

def joined (first second third fourth : Word) : ObjectId := fourth ++ third ++ second ++ first

/-- `uuid=` is an option of the mount; without it the pool gets a new one. -/
def fsid {Uuid : Type} (xxh32 : Uuid → Word) (option : Option Uuid) (generated : Uuid) : Word :=
  xxh32 (option.getD generated)

/-- A buffer that is too short is answered with the length that is needed. -/
def encodeFh (fsid : Word) (oid : ObjectId) (parent : Option ObjectId) (maxLen : Nat) : Except Nat Fid :=
  match parent with
  | some parent =>
    if maxLen < fhConnectableDwords then .error fhConnectableDwords
    else .ok ⟨fileidSmoothfsOidConnectable,fsid::words oid ++ 0::words parent⟩
  | none =>
    if maxLen < fhDwords then .error fhDwords
    else .ok ⟨fileidSmoothfsOid,fsid::words oid ++ [0]⟩

inductive Dentry where
  | root
  | object (oid : Oid)
  deriving DecidableEq, Repr

def required (fhType : Nat) : Option Nat :=
  if fhType = fileidSmoothfsOid then some fhDwords
  else if fhType = fileidSmoothfsOidConnectable then some fhConnectableDwords
  else none

variable (number : Oid → Nat)

def resolveOid (mount : Mount) (fresh : Oid) (oid : ObjectId) : Mount × Except Errno Dentry :=
  if oid = 0 then (mount,.ok .root)
  else
    match recoveryResolveOid number mount fresh oid.toNat with
    | (after,some found) => (after,.ok (.object found))
    | (after,none) => (after,.error .estale)

def fhToDentry (fsid : Word) (mount : Mount) (fresh : Oid) (fid : Fid) : Mount × Except Errno Dentry :=
  match required fid.fhType with
  | none => (mount,.error .einval)
  | some length =>
    if fid.raw.length < length then (mount,.error .estale)
    else
      match fid.raw with
      | given::first::second::third::fourth::_ =>
        if given ≠ fsid then (mount,.error .estale)
        else resolveOid number mount fresh (joined first second third fourth)
      | _ => (mount,.error .estale)

def cleanRemount (mount : Mount) : Mount := remount mount mount.log.length

end Model

section Decoding

theorem joined_words (oid : ObjectId) :
    joined (oid.extractLsb' 0 32) (oid.extractLsb' 32 32) (oid.extractLsb' 64 32) (oid.extractLsb' 96 32) = oid := by
  unfold joined
  rw [BitVec.extractLsb'_append_extractLsb'_eq_extractLsb' (by rfl),
    BitVec.extractLsb'_append_extractLsb'_eq_extractLsb' (by rfl),
    BitVec.extractLsb'_append_extractLsb'_eq_extractLsb' (by rfl)]
  exact BitVec.extractLsb'_eq_self

theorem fhToDentry_encodeFh {number : Oid → Nat} {fsid : Word} {oid : ObjectId} {parent : Option ObjectId} {maxLen : Nat}
    {fid : Fid} (encoded : encodeFh fsid oid parent maxLen = .ok fid) (mount : Mount) (fresh : Oid) :
    fhToDentry number fsid mount fresh fid = resolveOid number mount fresh oid := by
  cases parent with
  | some parent =>
    simp only [encodeFh] at encoded
    split at encoded
    · cases encoded
    · cases encoded
      simp [fhToDentry,required,fileidSmoothfsOid,fileidSmoothfsOidConnectable,fhConnectableDwords,words,joined_words]
  | none =>
    simp only [encodeFh] at encoded
    split at encoded
    · cases encoded
    · cases encoded
      simp [fhToDentry,required,fhDwords,words,joined_words]

end Decoding

variable {rel : RelPath}

section Identities

/-- The identity stays on the files that carry it and comes to no other file, and the object's inode
has the file that it had, or one that carried the identity. -/
structure Keeps (oid : Oid) (world after : World) : Prop where
  pool : after.pool = world.pool
  files : world.nextFile ≤ after.nextFile
  carried : ∀ file, file < world.nextFile → (world.files file).oid = some oid → (after.files file).oid = some oid
  carriers : ∀ file, (after.files file).oid = some oid → (world.files file).oid = some oid
  backed : ∀ later, after.inodes oid = some later →
    (∃ inode, world.inodes oid = some inode ∧ later.lowerPath.file = inode.lowerPath.file) ∨
      (world.files later.lowerPath.file).oid = some oid

variable {world after : World} {oid other : Oid} {file : FileId}

theorem Keeps.of_same (pool : after.pool = world.pool) (next : after.nextFile = world.nextFile) (files : after.files = world.files)
    (inodes : after.inodes oid = world.inodes oid) : Keeps oid world after where
  pool := pool
  files := Nat.le_of_eq next.symm
  carried file _ carries := by rwa [files]
  carriers file carries := by rwa [← files]
  backed later present := .inl ⟨later,inodes.symm.trans present,rfl⟩

theorem Keeps.refl (oid : Oid) (world : World) : Keeps oid world world := .of_same rfl rfl rfl rfl

theorem Keeps.trans {middle : World} (before : Keeps oid world middle) (later : Keeps oid middle after) : Keeps oid world after where
  pool := later.pool.trans before.pool
  files := Nat.le_trans before.files later.files
  carried file old carries := later.carried file (Nat.lt_of_lt_of_le old before.files) (before.carried file old carries)
  carriers file carries := before.carriers file (later.carriers file carries)
  backed last present := by
    rcases later.backed last present with ⟨inode,known,same⟩ | carried
    · rw [same]
      exact before.backed inode known
    · exact .inr (before.carriers _ carried)

theorem Keeps.setFile (file : FileId) (value : LowerFile)
    (own : value.oid = some oid ↔ (world.files file).oid = some oid) : Keeps oid world (world.setFile file value) := by
  have same (copy : FileId) : ((world.setFile file value).files copy).oid = some oid ↔ (world.files copy).oid = some oid := by
    by_cases equal : copy = file
    · subst equal
      simpa [World.setFile] using own
    · simp [World.setFile,equal]
  exact ⟨rfl,Nat.le_refl _,fun copy _ => (same copy).mpr,fun copy => (same copy).mp,fun later present => .inl ⟨later,present,rfl⟩⟩

theorem Keeps.create (loc : Loc) (value : LowerFile) (different : value.oid ≠ some oid) : Keeps oid world (world.create loc value) := by
  refine ⟨rfl,Nat.le_succ _,fun copy old carries => ?_,fun copy carries => ?_,fun later present => .inl ⟨later,present,rfl⟩⟩
  · have apart : copy ≠ world.nextFile := Nat.ne_of_lt old
    simpa [World.create,World.setFile,World.setName,apart] using carries
  · by_cases new : copy = world.nextFile
    · subst new
      exact absurd (by simpa [World.create,World.setFile,World.setName] using carries) different
    · simpa [World.create,World.setFile,World.setName,new] using carries

theorem Keeps.setInode (keeps : Keeps oid world after) (other : Oid) (inode : Inode)
    (own : other = oid → (∃ before, world.inodes oid = some before ∧ inode.lowerPath.file = before.lowerPath.file) ∨
      (world.files inode.lowerPath.file).oid = some oid) : Keeps oid world (after.setInode other inode) := by
  refine ⟨keeps.pool,keeps.files,keeps.carried,keeps.carriers,fun later present => ?_⟩
  rw [World.setInode_inodes] at present
  split at present
  next same =>
    cases present
    exact own same.symm
  next => exact keeps.backed later present

theorem Keeps.keepInode {inode later : Inode} (keeps : Keeps oid world after)
    (known : world.inodes other = some inode) (same : later.lowerPath.file = inode.lowerPath.file) :
    Keeps oid world (after.setInode other later) := by
  refine keeps.setInode other later ?_
  rintro rfl
  exact .inl ⟨inode,known,same⟩

theorem Keeps.otherInode (keeps : Keeps oid world after) (different : other ≠ oid) (inode : Inode) :
    Keeps oid world (after.setInode other inode) :=
  keeps.setInode other inode fun same => absurd same different

theorem Keeps.of_steady (steady : Steady world after) : Keeps oid world after := by
  have same (file : FileId) : (after.files file).oid = (world.files file).oid := by
    have equal := congrArg LowerFile.oid (steady.files file)
    exact equal
  refine ⟨steady.pool,Nat.le_of_eq steady.nextFile.symm,?_,?_,fun later present => .inl ⟨later,?_,rfl⟩⟩
  · exact fun file _ carries => (same file).trans carries
  · exact fun file carries => (same file).symm.trans carries
  · rw [← steady.inodes,present]

theorem Keeps.stamp (different : other ≠ oid) (free : (world.files file).oid = none ∨ (world.files file).oid = some other) :
    Keeps oid world (stamp world file other) := by
  refine .setFile _ _ ⟨fun own => absurd (Option.some.inj own) different,fun own => ?_⟩
  rcases free with bare | named
  · cases bare.symm.trans own
  · exact absurd (Option.some.inj (named.symm.trans own)) different

/-- Makes a file for the object, or has it move to another one. -/
def rebacks (world : World) (oid : Oid) : Action → Bool
  | .create made _ _ _ => made = oid
  | .truncate other => other = oid ∧ (world.inodes oid).any (Coherence.rehomes world)
  | _ => false

def switches (oid : Oid) : Op → Bool
  | .moveCutover moved _ _ => moved = oid
  | _ => false

theorem act_keeps {action : Action} (acted : act world action = some after) (quiet : rebacks world oid action = false) :
    Keeps oid world after := by
  have written (other : Oid) (content : Bytes) (done : write world other content = some after) : Keeps oid world after := by
    obtain ⟨inode,known,rfl⟩ := Option.map_eq_some_iff.mp done
    refine Keeps.keepInode (Keeps.setFile _ _ ?_) known ?_ <;> rfl
  cases action with
  | create made tier rel mode =>
    obtain ⟨_,_,_,rfl⟩ := create_spec world after acted
    have different : made ≠ oid := of_decide_eq_false quiet
    exact (Keeps.create _ _ fun own => different (Option.some.inj own)).otherInode different _
  | write other content => exact written other content acted
  | setAttrs other attrs =>
    obtain ⟨inode,_,rfl⟩ := Option.map_eq_some_iff.mp acted
    refine Keeps.setFile _ _ ?_
    rfl
  | truncate other =>
    rcases truncate_spec world after acted with done | ⟨inode,rel,known,_,stages,staged⟩
    · exact written other [] done
    have different : other ≠ oid := by
      rintro rfl
      exact of_decide_eq_false quiet ⟨rfl,by simpa [known,Coherence.rehomes] using stages⟩
    unfold stageTruncateToFast at staged
    dsimp only at staged
    split at staged
    · split at staged
      · cases staged
        refine (Keeps.setFile _ _ ?_).otherInode different _
        cases (world.files _).oid <;> simp [different]
      · cases staged
    · cases staged
      exact (Keeps.create _ _ fun own => different (Option.some.inj own)).otherInode different _
  | rename other target replaced =>
    obtain ⟨inode,source,known,_,_,_,result⟩ := rename_spec world after other target replaced acted
    have lower : Keeps oid world (renameLower world other inode source target) := by
      refine Keeps.keepInode (.of_same ?_ ?_ ?_ ?_) known ?_ <;> rfl
    obtain ⟨_,rfl⟩ | ⟨victim,dropped,_,alive,_,_,_,rfl⟩ := result
    · exact lower
    · unfold dropReplaced
      split
      · refine lower.keepInode alive ?_
        rfl
      · refine Keeps.keepInode (lower.trans (.of_same ?_ ?_ ?_ ?_)) alive ?_ <;> rfl
  | unlink other =>
    obtain ⟨inode,rel,known,_,_,rfl⟩ := unlink_spec world after other acted
    refine Keeps.keepInode (.of_same ?_ ?_ ?_ ?_) known ?_ <;> rfl
  | tick =>
    cases acted
    exact .of_same rfl rfl rfl rfl

theorem cutover_keeps (different : other ≠ oid) (world : World) (seq : Nat) (expected : Option Nat) (fault : CutoverFault) :
    Keeps oid world (movementCutover world other seq expected fault).1 := by
  obtain ⟨errno,refused⟩ | ⟨inode,_,ended⟩ := movementCutover_cases world other seq expected fault
  · rw [refused]
    exact .refl oid world
  rw [ended]
  obtain ⟨state,errno,result⟩ | ⟨dest,resolved,done⟩ := cutoverEnd_cases world other expected fault inode
  · rw [result]
    exact (Keeps.refl oid world).otherInode different _
  obtain ⟨_,_,_,free⟩ := resolveCutover_ok world other resolved
  obtain ⟨errno,result⟩ | ⟨_,result⟩ := done
  · rw [result]
    exact (Keeps.stamp different free).otherInode different _
  · rw [result]
    exact ((Keeps.stamp different free).otherInode different _).trans (.of_same rfl rfl rfl rfl)

theorem ioCopy_keeps (world : World) (source destination : FileId) (count : Nat) :
    Keeps oid world (ioCopy world source destination count).1 := by
  refine Keeps.trans (Keeps.setFile destination _ ?_) (.of_same rfl rfl rfl rfl)
  rfl

theorem Keeps.marked (marked : Marked other world after) : Keeps oid world after := by
  obtain rfl | ⟨inode,_,_,_,present,rfl⟩ := marked
  · exact .refl oid after
  · refine (Keeps.refl oid world).keepInode present ?_
    rfl

theorem execOp_keeps {op : Op} (quiet : switches oid op = false) (known : ∀ order rel, op ≠ .lookupObject order rel) :
    Keeps oid world (execOp world op).1 := by
  by_cases idle : op.idle = true
  · rw [execOp_idle world idle]
    exact .refl oid world
  cases op with
  | movePlan other | moveComplete other | moveRollback other => exact .marked (execOp_marked world other (by simp [Op.marks]))
  | moveCutover other seq expected => exact cutover_keeps (of_decide_eq_false quiet) world seq expected .none
  | exec statement => exact .of_steady (execStatement_steady world statement)
  | setLUNPin loc => exact .of_steady (setLUNPin_steady world loc)
  | openDestination loc object =>
    simp only [execOp,openDestination]
    split
    · exact Keeps.create _ _ (by simp)
    · split
      · refine Keeps.setFile _ _ ?_
        rfl
      · exact .refl oid world
  | ioCopy source destination => exact ioCopy_keeps world source destination _
  | remove loc =>
    simp only [execOp,remove]
    split <;> exact .of_same rfl rfl rfl rfl
  | lookupObject order rel => exact absurd rfl (known order rel)
  | _ => exact absurd rfl idle

theorem perform_keeps {op : Op} {outcome : Outcome} {reply : Reply op} (quiet : switches oid op = false)
    (known : ∀ order rel, op ≠ .lookupObject order rel) (performed : perform world op outcome = some (after,reply)) :
    Keeps oid world after := by
  rcases perform_after performed with
    rfl | rfl | ⟨other,seq,expected,fault,rfl,rfl⟩ | ⟨source,destination,count,rfl,rfl⟩
  · exact .refl oid after
  · exact execOp_keeps quiet known
  · exact cutover_keeps (of_decide_eq_false quiet) world seq expected fault
  · exact ioCopy_keeps world source destination count

variable {number : Oid → Nat} {fresh : Oid} {cache : Cache}

theorem iget_minted {tier : Nat}
    (minted : (iget number world cache fresh tier file).minted = true) : (world.files file).oid = none := by
  unfold iget at minted
  split at minted
  · cases minted
  unfold igetIdentity at minted
  split at minted
  · rw [igetLocked_minted] at minted
    cases minted
  next bare => exact bare

variable {found : Found}

theorem identified_keeps (new : fresh ≠ oid) (bare : found.minted = true → (world.files file).oid = none) :
    Keeps oid world (identified world found file fresh) := by
  unfold identified
  split
  next minted => exact Keeps.stamp new (.inl (bare minted))
  next => exact .refl oid world

theorem absent_held {wanted : Oid × Inode → Bool} {other : Oid} {inode : Inode} (absent : world.inodes oid = none)
    (chosen : (held world cache.incore).find? wanted = some (other,inode)) : other ≠ oid := by
  rintro rfl
  have known := (mem_held (List.mem_of_find?_eq_some chosen)).2
  cases absent.symm.trans known

theorem igetLocked_carried {made : Found} (absent : world.inodes oid = none)
    (got : (igetLocked number world cache made).oid = oid) : igetLocked number world cache made = made := by
  unfold igetLocked at got ⊢
  split at got
  next chosen => exact absurd got (absent_held absent chosen)
  next => rfl

/-- An object that is not in memory is taken from a file that carries its identity. -/
theorem iget_carried {tier : Nat} (new : fresh ≠ oid) (absent : world.inodes oid = none)
    (got : (iget number world cache fresh tier file).oid = oid) :
    (iget number world cache fresh tier file).file = file ∧ (world.files file).oid = some oid := by
  unfold iget at got ⊢
  split at got
  next chosen => exact absurd got (absent_held absent chosen)
  unfold igetIdentity at got ⊢
  split at got
  next name carried =>
    have made := igetLocked_carried absent got
    rw [made] at got ⊢
    exact ⟨rfl,carried.trans (congrArg some got)⟩
  next bare =>
    rw [igetLocked_carried absent got] at got
    exact absurd got new

theorem scanName_keeps (found : World × (Oid → Option ReplayRecord)) (visit : Loc × Oid) (unminted : visit.2 ≠ oid) :
    Keeps oid found.1 (scanName found visit).1 ∧ (scanName found visit).1.names = found.1.names := by
  obtain ⟨world,records⟩ := found
  unfold scanName
  dsimp only
  split
  · exact ⟨.refl oid world,rfl⟩
  · split
    · exact ⟨.refl oid world,rfl⟩
    next bare => exact ⟨Keeps.stamp unminted (.inl bare),rfl⟩

theorem scan_keeps (visits : List (Loc × Oid)) (unminted : ∀ visit ∈ visits, visit.2 ≠ oid)
    (found : World × (Oid → Option ReplayRecord)) :
    Keeps oid found.1 (visits.foldl scanName found).1 ∧ (visits.foldl scanName found).1.names = found.1.names := by
  induction visits generalizing found with
  | nil => exact ⟨.refl oid found.1,rfl⟩
  | cons visit rest ih =>
    obtain ⟨first,names⟩ := scanName_keeps found visit (unminted visit List.mem_cons_self)
    obtain ⟨onward,same⟩ := ih (fun next member => unminted next (List.mem_cons_of_mem _ member)) (scanName found visit)
    exact ⟨first.trans onward,same.trans names⟩

end Identities

section Filed

/-- The path index has a place for the object, the file there is the only one that carries its
identity, and it backs the object's inode if that is in memory. -/
structure Filed (oid : Oid) (loc : Loc) (file : FileId) (mount : Mount) : Prop where
  entry : mount.index oid = some loc
  inside : loc.dir < mount.world.pool.ntiers
  named : mount.world.names (backing mount.world.pool loc) = some file
  carries : (mount.world.files file).oid = some oid
  old : file < mount.world.nextFile
  sole : ∀ other, (mount.world.files other).oid = some oid → other = file
  backs : ∀ inode, mount.world.inodes oid = some inode → inode.lowerPath.file = file

/-- The name stays, the index keeps the place, and the object gets no other file: a MOVE_CUTOVER is
for another object, a truncate does not take it to the fastest tier, and no other object is given
its identity. -/
def Spares (oid : Oid) (loc : Loc) (mount : Mount) : Label → Prop
  | .user action => backing mount.world.pool loc ∉ takes mount.world action ∧ rebacks mount.world oid action = false
  | .control op _ => op ≠ .remove (backing mount.world.pool loc) ∧ switches oid op = false
  | .rebuild visits => (rebuild mount visits).index oid = some loc ∧ ∀ visit ∈ visits, visit.2 ≠ oid
  | .lookup _ _ _ fresh _ => fresh ≠ oid
  | .resolve _ fresh => fresh ≠ oid
  | _ => True

instance (oid : Oid) (loc : Loc) (mount : Mount) : (label : Label) → Decidable (Spares oid loc mount label)
  | .user action =>
    inferInstanceAs (Decidable (backing mount.world.pool loc ∉ takes mount.world action ∧ rebacks mount.world oid action = false))
  | .control op _ => inferInstanceAs (Decidable (op ≠ .remove (backing mount.world.pool loc) ∧ switches oid op = false))
  | .rebuild visits => inferInstanceAs (Decidable ((rebuild mount visits).index oid = some loc ∧ ∀ visit ∈ visits, visit.2 ≠ oid))
  | .lookup _ _ _ fresh _ => inferInstanceAs (Decidable (fresh ≠ oid))
  | .resolve _ fresh => inferInstanceAs (Decidable (fresh ≠ oid))
  | .evict _ => inferInstanceAs (Decidable True)
  | .remount _ => inferInstanceAs (Decidable True)

variable {number : Oid → Nat} {oid : Oid} {loc : Loc} {file : FileId} {mount next : Mount}

variable (filed : Filed oid loc file mount)
include filed

theorem Filed.moved (keeps : Keeps oid mount.world next.world)
    (entry : next.index oid = some loc) (named : next.world.names (backing mount.world.pool loc) = some file) :
    Filed oid loc file next where
  entry := entry
  inside := by
    rw [keeps.pool]
    exact filed.inside
  named := by rwa [keeps.pool]
  carries := keeps.carried file filed.old filed.carries
  old := Nat.lt_of_lt_of_le filed.old keeps.files
  sole other carried := filed.sole other (keeps.carriers other carried)
  backs inode present := by
    rcases keeps.backed inode present with ⟨before,known,same⟩ | carried
    · rw [same]
      exact filed.backs before known
    · exact filed.sole _ carried

theorem Filed.lookup {live : Oid → Bool} {mask parent : Nat} {fresh gen : Oid} (new : fresh ≠ oid)
    (taken : lookup number mount live mask parent rel fresh gen = some next) : Filed oid loc file next := by
  obtain ⟨place,_,rfl⟩ := Option.map_eq_some_iff.mp taken
  cases place with
  | known known => exact filed
  | lower place tracked =>
    refine filed.moved ?_ filed.entry ?_
    · refine (identified_keeps new iget_minted).setInode _ _ fun got => ?_
      rw [got]
      cases known : mount.world.inodes oid with
      | some inode => exact .inl ⟨inode,rfl,by split <;> rfl⟩
      | none =>
        refine .inr ?_
        split <;> exact (iget_carried new known got).2
    · exact (congrFun (identified_names ..) _).trans filed.named

theorem Filed.resolve {fresh : Oid} (new : fresh ≠ oid) (other : Oid) :
    Filed oid loc file (recoveryResolveOid number mount fresh other).1 := by
  unfold recoveryResolveOid
  split
  · exact filed
  split
  · exact filed
  next record place copy _ =>
    refine filed.moved ?_ filed.entry ?_
    · refine (identified_keeps new iget_minted).setInode _ _ fun got => ?_
      rw [got]
      cases known : mount.world.inodes oid with
      | some inode => exact .inl ⟨inode,rfl,rfl⟩
      | none => exact .inr (iget_carried new known got).2
    · exact (congrFun (identified_names ..) _).trans filed.named

theorem Filed.step {label : Label} (spares : Spares oid loc mount label)
    (taken : step number mount label = some next) : Filed oid loc file next := by
  cases label with
  | user action =>
    obtain ⟨world,acted,made⟩ := Option.map_eq_some_iff.mp taken
    have named := act_names mount.world world action acted spares.1 filed.named
    have keeps := act_keeps acted spares.2
    split at made <;> cases made <;> exact filed.moved keeps filed.entry named
  | control op outcome =>
    have known (order : List Nat) (rel : RelPath) : op ≠ .lookupObject order rel := by
      rintro rfl
      cases taken
    have stepped : controlStep mount op outcome = some next := by
      cases op <;> first | exact taken | cases taken
    obtain ⟨⟨world,reply⟩,performed,rfl⟩ := Option.map_eq_some_iff.mp stepped
    exact filed.moved (perform_keeps spares.2 known performed) filed.entry
      (perform_names performed spares.1 filed.named)
  | lookup mask parent rel fresh gen => exact filed.lookup spares taken
  | resolve other fresh =>
    cases taken
    exact filed.resolve spares other
  | evict other =>
    cases taken
    refine filed.moved ⟨rfl,Nat.le_refl _,fun _ _ carried => carried,fun _ carried => carried,fun later present => ?_⟩
      filed.entry filed.named
    by_cases self : oid = other
    · subst self
      cases (Function.update_self ..).symm.trans present
    · exact .inl ⟨later,(Function.update_of_ne self _ _).symm.trans present,rfl⟩
  | remount kept =>
    cases taken
    exact filed.moved ⟨rfl,Nat.le_refl _,fun _ _ carried => carried,fun _ carried => carried,fun _ present => nomatch present⟩
      filed.entry filed.named
  | rebuild visits =>
    cases taken
    obtain ⟨keeps,names⟩ := scan_keeps visits spares.2 (mount.world,replayLoadLog mount.log)
    exact filed.moved keeps spares.1 ((congrFun names _).trans filed.named)

omit filed

structure Scanned (mount : Mount) (visits : List (Loc × Oid)) (oid : Oid) (loc : Loc) (file : FileId) : Prop where
  named : mount.world.names loc = some file
  carries : (mount.world.files file).oid = some oid
  visited : ∃ visit ∈ visits, visit.1 = loc
  alone : ∀ visit ∈ visits, ∀ copy, mount.world.names visit.1 = some copy → (mount.world.files copy).oid = some oid →
    visit.1 = loc
  unminted : ∀ visit ∈ visits, visit.2 ≠ oid
  agrees : ∀ record, replayLoadLog mount.log oid = some record → record.authoritativeTier = some loc.dir

structure Scanning (mount : Mount) (oid : Oid) (loc : Loc) (reached : Bool) (found : World × (Oid → Option ReplayRecord)) :
    Prop where
  names : found.1.names = mount.world.names
  oids : ∀ file, (found.1.files file).oid = some oid ↔ (mount.world.files file).oid = some oid
  record : if reached then ∃ record, found.2 oid = some record ∧ record.chosen = some loc
    else found.2 oid = replayLoadLog mount.log oid

theorem scanNode_chosen {record : ReplayRecord} (chosen : record.chosen = some loc) (other : Loc) :
    (scanNode (some record) other).chosen = some loc := by
  simp [scanNode,chosen]

theorem scanNode_first (agrees : ∀ record, replayLoadLog mount.log oid = some record → record.authoritativeTier = some loc.dir) :
    (scanNode (replayLoadLog mount.log oid) loc).chosen = some loc := by
  cases loaded : replayLoadLog mount.log oid with
  | none => simp [scanNode,ReplayRecord.fresh,replayNormalize]
  | some record =>
    have unchosen := (replayLoadLog_places loaded).1
    have logged : record.logged = true := by
      obtain ⟨last,_,rfl⟩ := Option.map_eq_some_iff.mp loaded
      unfold replayNormalize
      split <;> rfl
    simp [scanNode,logged,unchosen,agrees record loaded]

variable {reached : Bool} {found : World × (Oid → Option ReplayRecord)}

theorem Scanning.other (scanning : Scanning mount oid loc reached found)
    {other : Oid} (different : other ≠ oid) (world : World) (names : world.names = found.1.names)
    (oids : ∀ file, (world.files file).oid = some oid ↔ (found.1.files file).oid = some oid) (record : ReplayRecord) :
    Scanning mount oid loc reached (world,Function.update found.2 other (some record)) where
  names := names.trans scanning.names
  oids file := (oids file).trans (scanning.oids file)
  record := by
    dsimp only
    rw [Function.update_of_ne (Ne.symm different)]
    exact scanning.record

variable {visits : List (Loc × Oid)}

variable (scanned : Scanned mount visits oid loc file)
include scanned

theorem Scanning.visit {visit : Loc × Oid} (member : visit ∈ visits) (scanning : Scanning mount oid loc reached found) :
    Scanning mount oid loc (reached || decide (visit.1 = loc)) (scanName found visit) := by
  obtain ⟨world,records⟩ := found
  unfold scanName
  dsimp only
  have away (absent : visit.1 ≠ loc) : (reached || decide (visit.1 = loc)) = reached := by simp [absent]
  split
  next absent =>
    have elsewhere : visit.1 ≠ loc := by
      intro here
      rw [here,scanning.names,scanned.named] at absent
      cases absent
    rw [away elsewhere]
    exact scanning
  next copy there =>
  rw [scanning.names] at there
  split
  next other carried =>
    by_cases own : other = oid
    · subst own
      have here := scanned.alone visit member copy there ((scanning.oids copy).mp carried)
      refine ⟨scanning.names,scanning.oids,?_⟩
      simp only [here,decide_true,Bool.or_true,Function.update_self]
      refine ⟨_,rfl,?_⟩
      have before := scanning.record
      cases reached with
      | true =>
        obtain ⟨record,known,chosen⟩ : ∃ record, records other = some record ∧ record.chosen = some loc := before
        rw [known]
        exact scanNode_chosen chosen loc
      | false =>
        have untouched : records other = replayLoadLog mount.log other := before
        rw [untouched]
        exact scanNode_first scanned.agrees
    · have elsewhere : visit.1 ≠ loc := by
        intro here
        rw [here,scanned.named] at there
        cases there
        rw [(scanning.oids file).mpr scanned.carries] at carried
        exact own (Option.some.inj carried).symm
      rw [away elsewhere]
      exact scanning.other own world rfl (fun _ => Iff.rfl) _
  next bare =>
  have elsewhere : visit.1 ≠ loc := by
    intro here
    rw [here,scanned.named] at there
    cases there
    rw [(scanning.oids file).mpr scanned.carries] at bare
    cases bare
  rw [away elsewhere]
  refine scanning.other (scanned.unminted visit member) (stamp world copy visit.2) rfl (fun other => ?_) _
  by_cases same : other = copy
  · subst same
    simp [stamp,World.setFile,bare,scanned.unminted visit member]
  · simp [stamp,World.setFile,same]

theorem Scanning.scan {rest : List (Loc × Oid)} (within : ∀ visit ∈ rest, visit ∈ visits)
    (scanning : Scanning mount oid loc reached found) :
    Scanning mount oid loc (reached || rest.any fun visit => decide (visit.1 = loc)) (rest.foldl scanName found) := by
  induction rest generalizing found reached with
  | nil => simpa using scanning
  | cons visit rest ih =>
    have onward := ih (fun other member => within other (List.mem_cons_of_mem _ member))
      (scanning.visit scanned (within visit List.mem_cons_self))
    rwa [List.any_cons,← Bool.or_assoc]

theorem rebuild_index : (rebuild mount visits).index oid = some loc := by
  have start : Scanning mount oid loc false (mount.world,replayLoadLog mount.log) := ⟨rfl,fun _ => Iff.rfl,rfl⟩
  have done := start.scan scanned fun _ member => member
  obtain ⟨visit,member,here⟩ := scanned.visited
  have visited : (visits.any fun visit => decide (visit.1 = loc)) = true := List.any_eq_true.mpr ⟨visit,member,decide_eq_true here⟩
  have outcome := done.record
  rw [visited,Bool.or_true] at outcome
  obtain ⟨record,known,chosen⟩ := outcome
  unfold rebuild
  simp only [known,Option.bind_some,chosen]

theorem Filed.rebuild
    (inside : loc.dir < mount.world.pool.ntiers) (home : backing mount.world.pool loc = loc) (old : file < mount.world.nextFile)
    (sole : ∀ other, (mount.world.files other).oid = some oid → other = file)
    (backs : ∀ inode, mount.world.inodes oid = some inode → inode.lowerPath.file = file) :
    Filed oid loc file (rebuild mount visits) := by
  obtain ⟨keeps,names⟩ := scan_keeps visits scanned.unminted (mount.world,replayLoadLog mount.log)
  have named : mount.world.names (backing mount.world.pool loc) = some file := by
    rw [home]
    exact scanned.named
  -- the state before the scan with the index that the scan leaves
  have before : Filed oid loc file {mount with index := (Resolve.rebuild mount visits).index} :=
    ⟨rebuild_index scanned,inside,named,scanned.carries,old,sole,backs⟩
  exact before.moved keeps (rebuild_index scanned) ((congrFun names _).trans named)

omit scanned

end Filed

section Remount

variable {oid : Oid} {loc : Loc} {file : FileId} {mount : Mount}

theorem recorded_filed (filed : Filed oid loc file mount) :
    ∃ record, recorded (cleanRemount mount) oid = some (record,backing mount.world.pool loc,file) := by
  obtain ⟨record,read,led⟩ : ∃ record, (cleanRemount mount).records oid = some record ∧
      ∃ place, (record.chosen <|> record.fallback) = some place := by
    refine ⟨_,by simp only [cleanRemount,remount,pathIndexRead,filed.entry,Nat.not_le.mpr filed.inside]; rfl,?_⟩
    simp
  obtain ⟨place,led⟩ := led
  have same := pathIndexRead_place read led
  rw [filed.entry] at same
  cases same
  refine ⟨record,?_⟩
  have named : (cleanRemount mount).world.names (backing (cleanRemount mount).world.pool loc) = some file := filed.named
  have inside : loc.dir < (cleanRemount mount).world.pool.ntiers := filed.inside
  unfold recorded
  simp only [bind,read,led,Option.bind_some,Option.filter_some,inside,decide_true,if_true,named]
  rfl

theorem recoveryResolveOid_filed (number : Oid → Nat) (filed : Filed oid loc file mount) (fresh : Oid) :
    ∃ after inode, recoveryResolveOid number (cleanRemount mount) fresh oid = (after,some oid) ∧
      after.world.inodes oid = some inode ∧ inode.lowerPath.mnt = (backing mount.world.pool loc).dir ∧
      inode.lowerPath.file = file ∧ (after.world.files file).oid = some oid := by
  obtain ⟨record,led⟩ := recorded_filed filed
  have empty : (cleanRemount mount).cache = ⟨[],[]⟩ := rfl
  have carries : ((cleanRemount mount).world.files file).oid = some oid := filed.carries
  have got (tier : Nat) : iget number (cleanRemount mount).world (cleanRemount mount).cache fresh tier file = ⟨oid,tier,file,false⟩ := by
    rw [empty,iget_empty,carries]
    rfl
  unfold recoveryResolveOid
  rw [led]
  simp only [instantiate,got]
  refine ⟨_,_,rfl,World.setInode_inodes .. |>.trans (if_pos rfl),rfl,rfl,carries⟩

end Remount

/-- A handle is decoded to its object on every later mount with the same `uuid=`, as long as the
index has the object and its file has stayed there: the inode is over the one file that carries the
identity, which is also the one that the object had when the pool was unmounted. -/
theorem handles_survive_a_clean_remount {Uuid : Type} {number : Oid → Nat} {xxh32 : Uuid → Word} {uuid : Uuid}
    {start final : Mount} {later : List Label} {oid : ObjectId} {parent : Option ObjectId} {maxLen : Nat} {fid : Fid} {loc : Loc}
    {file : FileId} (generated regenerated : Uuid) (fresh : Oid) (object : oid ≠ 0) (filed : Filed oid.toNat loc file start)
    (spared : Guarded (step number) (Spares oid.toNat loc) start later) (reached : run (step number) start later = some final)
    (encoded : encodeFh (fsid xxh32 (some uuid) generated) oid parent maxLen = .ok fid) :
    ∃ after inode, fhToDentry number (fsid xxh32 (some uuid) regenerated) (cleanRemount final) fresh fid =
        (after,.ok (.object oid.toNat)) ∧
      after.world.inodes oid.toNat = some inode ∧ inode.lowerPath.mnt = (backing final.world.pool loc).dir ∧
      inode.lowerPath.file = file ∧ (after.world.files file).oid = some oid.toNat ∧
      (∀ other, (final.world.files other).oid = some oid.toNat → other = inode.lowerPath.file) ∧
      ∀ last, final.world.inodes oid.toNat = some last → last.lowerPath.file = inode.lowerPath.file := by
  have still : Filed oid.toNat loc file final :=
    invariant (step number) (Spares oid.toNat loc) (Filed oid.toNat loc file)
      (fun _ _ _ filed spares taken => filed.step spares taken) start final later filed spared reached
  obtain ⟨after,inode,resolved,there,mnt,own,carries⟩ := recoveryResolveOid_filed number still fresh
  refine ⟨after,inode,?_,there,mnt,own,carries,?_,?_⟩
  rotate_left
  · rw [own]
    exact still.sole
  · rw [own]
    exact still.backs
  have same : fsid xxh32 (some uuid) regenerated = fsid xxh32 (some uuid) generated := rfl
  rw [same,fhToDentry_encodeFh encoded,resolveOid,if_neg object,resolved]

section Runs

def createdPool : Mount :=
  (step id (emptyMount StagingDrain.twoTierPool 0 0) (.user (.create 1 0 ["a"] 0o600))).getD (emptyMount StagingDrain.twoTierPool 0 0)

def indexedPool : Mount := rebuild createdPool [(⟨0,["a"]⟩,9)]

theorem scanned_created : Scanned createdPool [(⟨0,["a"]⟩,9)] 1 ⟨0,["a"]⟩ 0 where
  named := by decide +kernel
  carries := by decide +kernel
  visited := ⟨_,List.mem_singleton.mpr rfl,rfl⟩
  alone visit member copy named carries := by rw [List.mem_singleton.mp member]
  unminted := by decide
  agrees record loaded := by cases loaded

theorem createdPool_sole (other : FileId) (carried : (createdPool.world.files other).oid = some 1) : other = 0 := by
  by_contra different
  have untouched : createdPool.world.files other = (emptyMount StagingDrain.twoTierPool 0 0).world.files other :=
    Function.update_of_ne different _ _
  rw [untouched] at carried
  cases carried

def afterwards : List Label :=
  [.user (.create 2 0 ["b"] 0o600),.user (.write 1 [1,2]),.user (.rename 2 ["c"] none),.evict 1,.lookup 3 0 ["a"] 8 0]

theorem indexed_handle_survives : ∃ final fid after inode, run (step id) indexedPool afterwards = some final ∧
    encodeFh (fsid id (some 5#32) 6) 1 none 6 = .ok fid ∧
    fhToDentry id (fsid id (some 5#32) 7) (cleanRemount final) 9 fid = (after,.ok (.object 1)) ∧
    after.world.inodes 1 = some inode ∧ inode.lowerPath.mnt = 0 ∧ inode.lowerPath.file = 0 ∧
    (after.world.files 0).oid = some 1 ∧ (∀ other, (final.world.files other).oid = some 1 → other = inode.lowerPath.file) ∧
    (final.world.inodes 1).isSome = true ∧ ∀ last, final.world.inodes 1 = some last → last.lowerPath.file = inode.lowerPath.file := by
  have filed : Filed (1 : ObjectId).toNat ⟨0,["a"]⟩ 0 indexedPool :=
    .rebuild scanned_created (by decide +kernel) (by decide +kernel) (by decide +kernel) createdPool_sole
      fun inode present => by
        cases present
        rfl
  have spared : Guarded (step id) (Spares (1 : ObjectId).toNat ⟨0,["a"]⟩) indexedPool afterwards := by decide +kernel
  have encoded : encodeFh (fsid id (some 5#32) 6) 1 none 6 = .ok ⟨0x53,[5,1,0,0,0,0]⟩ := by decide +kernel
  obtain ⟨final,reached⟩ : ∃ final, run (step id) indexedPool afterwards = some final := ⟨_,rfl⟩
  obtain ⟨after,inode,decoded,present,mnt,own,carries,sole,backs⟩ :=
    handles_survive_a_clean_remount 6 7 9 (by decide) filed spared reached encoded
  have pool : (backing final.world.pool ⟨0,["a"]⟩).dir = 0 := by
    cases reached
    rfl
  have resident : (final.world.inodes 1).isSome = true := by
    cases reached
    decide +kernel
  rw [pool] at mnt
  exact ⟨final,_,after,inode,reached,encoded,decoded,present,mnt,own,carries,sole,resident,backs⟩

theorem handle_of_a_later_file_is_stale : ∃ final fid, run (step id) indexedPool afterwards = some final ∧
    (final.world.inodes 2).isSome = true ∧ encodeFh (fsid id (some 5#32) 6) 2 none 6 = .ok fid ∧
    (cleanRemount final).world.names ⟨0,["c"]⟩ = some 1 ∧ ((cleanRemount final).world.files 1).oid = some 2 ∧
    (fhToDentry id (fsid id (some 5#32) 7) (cleanRemount final) 9 fid).2 = .error .estale :=
  ⟨_,_,rfl,by decide +kernel,rfl,by decide +kernel,by decide +kernel,by decide +kernel⟩

end Runs

end Smoothfs.FileHandles
