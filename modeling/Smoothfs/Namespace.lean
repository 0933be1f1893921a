import Smoothfs.World

/-! What users do to regular files through the mount: creates, writes, attribute
changes, truncates with their rehome to the fastest tier, renames and unlinks.
Each action is one transition of the world and is absent where the call fails. -/
namespace Smoothfs.Namespace

open Function

inductive Action
  | create (oid : Oid) (tier : Nat) (rel : RelPath) (mode : Nat)
  | write (oid : Oid) (content : Bytes)
  | setAttrs (oid : Oid) (attrs : Attrs)
  | truncate (oid : Oid)
  | rename (oid : Oid) (target : RelPath) (replaced : Option Oid)
  | unlink (oid : Oid)
  | tick
  deriving DecidableEq, Repr

/-- `SMOOTHFS_MAX_TIERS`, which as a drain tier stands for none. -/
def maxTiers : Nat := 8

def newInode (tier : Nat) (file : FileId) (rel : RelPath) : Inode where
  lowerPath := ⟨tier,file,rel.getLastD ""⟩
  linked := true
  relPath := some rel
  currentTier := tier
  intendedTier := tier
  movementState := .placed
  pinState := .none
  transactionSeq := 0
  cutoverGen := 0
  writeSeq := 0
  nlinkObserved := 1
  mapped := false
  rangeStaged := false
  writeStaged := false
  writeStagedDrainTier := maxTiers

def create (world : World) (oid : Oid) (tier : Nat) (rel : RelPath) (mode : Nat) : Option World :=
  if tier < world.pool.ntiers ∧ world.inodes oid = none ∧ world.names ⟨tier,rel⟩ = none then
    some ((world.create ⟨tier,rel⟩ ⟨true,[],⟨mode,world.clock,[]⟩,some oid,false,oid⟩).setInode oid
      (newInode tier world.nextFile rel))
  else none

def write (world : World) (oid : Oid) (content : Bytes) : Option World :=
  (world.inodes oid).map fun inode =>
    let lower := world.files inode.lowerPath.file
    (world.setFile inode.lowerPath.file
        {lower with content := content, attrs := {lower.attrs with mtime := world.clock}}).setInode oid
      {inode with writeSeq := inode.writeSeq + 1}

def setAttrs (world : World) (oid : Oid) (attrs : Attrs) : Option World :=
  (world.inodes oid).map fun inode =>
    world.setFile inode.lowerPath.file {world.files inode.lowerPath.file with attrs := attrs}

def shouldStageTruncate (world : World) (inode : Inode) : Bool :=
  world.pool.writeStaging ∧ (world.files inode.lowerPath.file).regular ∧
    inode.currentTier ≠ world.pool.fastestTier ∧ inode.pinState = .none ∧ ¬ world.pool.fastNearFull

def rehomedInode (world : World) (inode : Inode) (file : FileId) (rel : RelPath) : Inode :=
  {inode with
    lowerPath := ⟨world.pool.fastestTier,file,rel.getLastD ""⟩
    relPath := some rel
    currentTier := world.pool.fastestTier
    intendedTier := world.pool.fastestTier
    movementState := .placed
    transactionSeq := 0
    writeStaged := true
    writeStagedDrainTier := inode.lowerPath.mnt
    cutoverGen := inode.cutoverGen + 1
    writeSeq := inode.writeSeq + 1}

/-- A file that already stands at the path on the fastest tier is taken as it is and truncated, else
one is created. -/
def stageTruncateToFast (world : World) (oid : Oid) (inode : Inode) (rel : RelPath) : Option World :=
  let loc : Loc := ⟨world.pool.fastestTier,rel⟩
  match world.names loc with
  | some file =>
    let lower := world.files file
    if lower.regular then
      some ((world.setFile file {lower with
        content := [], attrs := {lower.attrs with mtime := world.clock}, oid := some (lower.oid.getD oid),
        object := oid}).setInode oid (rehomedInode world inode file rel))
    else none
  | none =>
    some ((world.create loc
      ⟨true,[],⟨(world.files inode.lowerPath.file).attrs.mode,world.clock,[]⟩,some oid,false,oid⟩).setInode
      oid (rehomedInode world inode world.nextFile rel))

def truncate (world : World) (oid : Oid) : Option World :=
  (world.inodes oid).bind fun inode =>
    if ¬ world.pool.cacheMode ∧ shouldStageTruncate world inode then
      inode.relPath.bind (stageTruncateToFast world oid inode)
    else write world oid []

/-- On another tier the replaced file is unlinked and forgotten, on the same tier the lower rename
replaced it and `rel_path` stays behind. -/
def dropReplaced (world : World) (mnt : Nat) (target : RelPath) (replaced : Oid) (inode : Inode) : World :=
  if inode.lowerPath.mnt = mnt then world.setInode replaced {inode with linked := false}
  else (world.setName ⟨inode.lowerPath.mnt,target⟩ none).setInode replaced {inode with linked := false, relPath := none}

/-- The lower rename stays on the tier of the source. -/
def renameLower (world : World) (oid : Oid) (inode : Inode) (source target : RelPath) : World :=
  ((world.setName ⟨inode.lowerPath.mnt,source⟩ none).setName ⟨inode.lowerPath.mnt,target⟩
      (some inode.lowerPath.file)).setInode oid
    {inode with lowerPath := {inode.lowerPath with name := target.getLastD ""}, relPath := some target}

def rename (world : World) (oid : Oid) (target : RelPath) (replaced : Option Oid) : Option World :=
  match world.inodes oid with
  | none => none
  | some inode =>
    match inode.relPath, replaced with
    | some source, none =>
      if inode.linked ∧ source ≠ target then some (renameLower world oid inode source target) else none
    | some source, some other =>
      match world.inodes other with
      | none => none
      | some victim =>
        if inode.linked ∧ source ≠ target ∧ other ≠ oid ∧ victim.linked ∧ victim.relPath = some target then
          some (dropReplaced (renameLower world oid inode source target) inode.lowerPath.mnt target other victim)
        else none
    | none, _ => none

/-- The inode keeps its `lower_path` for those who hold it open. -/
def unlink (world : World) (oid : Oid) : Option World :=
  match world.inodes oid with
  | none => none
  | some inode =>
    match inode.relPath with
    | some rel =>
      if inode.linked then
        some ((world.setName ⟨inode.lowerPath.mnt,rel⟩ none).setInode oid {inode with linked := false, relPath := none})
      else none
    | none => none

def act (world : World) : Action → Option World
  | .create oid tier rel mode => create world oid tier rel mode
  | .write oid content => write world oid content
  | .setAttrs oid attrs => setAttrs world oid attrs
  | .truncate oid => truncate world oid
  | .rename oid target replaced => rename world oid target replaced
  | .unlink oid => unlink world oid
  | .tick => some {world with clock := world.clock + 1}

def takes (world : World) : Action → List Loc
  | .rename oid target replaced =>
    match world.inodes oid with
    | none => []
    | some inode =>
      ⟨inode.lowerPath.mnt,target⟩ :: (inode.relPath.map (Loc.mk inode.lowerPath.mnt)).toList ++
        ((replaced.bind world.inodes).map (fun victim => Loc.mk victim.lowerPath.mnt target)).toList
  | .unlink oid =>
    match world.inodes oid with
    | none => []
    | some inode => (inode.relPath.map (Loc.mk inode.lowerPath.mnt)).toList
  | _ => []

variable (world after : World) {oid : Oid} (target : RelPath) (replaced : Option Oid)

variable (oid) in
theorem rename_spec (renamed : rename world oid target replaced = some after) :
    ∃ inode source, world.inodes oid = some inode ∧ inode.relPath = some source ∧ inode.linked = true ∧ source ≠ target ∧
      ((replaced = none ∧ after = renameLower world oid inode source target) ∨
        ∃ other victim, replaced = some other ∧ world.inodes other = some victim ∧ other ≠ oid ∧ victim.linked = true ∧
          victim.relPath = some target ∧
          after = dropReplaced (renameLower world oid inode source target) inode.lowerPath.mnt target other victim) := by
  unfold rename at renamed
  split at renamed
  · cases renamed
  next inode found =>
  split at renamed
  · next source path =>
    split at renamed
    · next fits =>
      cases renamed
      exact ⟨inode,source,found,path,fits.1,fits.2,.inl ⟨rfl,rfl⟩⟩
    · cases renamed
  · next source other path =>
    split at renamed
    · cases renamed
    next victim known =>
    split at renamed
    · next fits =>
      obtain ⟨linked,elsewhere,different,alive,named⟩ := fits
      cases renamed
      exact ⟨inode,source,found,path,linked,elsewhere,.inr ⟨other,victim,rfl,known,different,alive,named,rfl⟩⟩
    · cases renamed
  · cases renamed

variable (oid) in
theorem unlink_spec (unlinked : unlink world oid = some after) :
    ∃ inode rel, world.inodes oid = some inode ∧ inode.relPath = some rel ∧ inode.linked = true ∧
      after = (world.setName ⟨inode.lowerPath.mnt,rel⟩ none).setInode oid {inode with linked := false, relPath := none} := by
  unfold unlink at unlinked
  split at unlinked
  · cases unlinked
  next inode found =>
  split at unlinked
  · next rel path =>
    split at unlinked
    · next linked =>
      cases unlinked
      exact ⟨inode,rel,found,path,linked,rfl⟩
    · cases unlinked
  · cases unlinked

theorem truncate_spec (truncated : truncate world oid = some after) : write world oid [] = some after ∨
      ∃ inode rel, world.inodes oid = some inode ∧ inode.relPath = some rel ∧
        (¬ world.pool.cacheMode = true ∧ shouldStageTruncate world inode = true) ∧
        stageTruncateToFast world oid inode rel = some after := by
  obtain ⟨inode,found,truncated⟩ := Option.bind_eq_some_iff.mp truncated
  split at truncated
  · next stages =>
    obtain ⟨rel,path,staged⟩ := Option.bind_eq_some_iff.mp truncated
    exact .inr ⟨inode,rel,found,path,stages,staged⟩
  · exact .inl truncated

variable {inode : Inode} (rel : RelPath)

theorem stage_spec (staged : stageTruncateToFast world oid inode rel = some after) :
    (∃ file value, world.names ⟨world.pool.fastestTier,rel⟩ = some file ∧ value.object = oid ∧
      after = (world.setFile file value).setInode oid (rehomedInode world inode file rel)) ∨
      world.names ⟨world.pool.fastestTier,rel⟩ = none ∧ ∃ value : LowerFile, value.object = oid ∧
        after = (world.create ⟨world.pool.fastestTier,rel⟩ value).setInode oid (rehomedInode world inode world.nextFile rel) := by
  unfold stageTruncateToFast at staged
  dsimp only at staged
  split at staged
  · next file named =>
    split at staged
    · cases staged
      exact .inl ⟨file,_,named,rfl,rfl⟩
    · cases staged
  · next absent =>
    cases staged
    exact .inr ⟨absent,_,rfl,rfl⟩

theorem create_spec {tier : Nat} {rel : RelPath} {mode : Nat} (created : create world oid tier rel mode = some after) :
    tier < world.pool.ntiers ∧ world.inodes oid = none ∧ world.names ⟨tier,rel⟩ = none ∧
      after = (world.create ⟨tier,rel⟩ ⟨true,[],⟨mode,world.clock,[]⟩,some oid,false,oid⟩).setInode oid
        (newInode tier world.nextFile rel) := by
  unfold create at created
  split at created
  · next fits =>
    cases created
    exact ⟨fits.1,fits.2.1,fits.2.2,rfl⟩
  · cases created

variable {loc : Loc} {file : FileId}

theorem stage_names (staged : stageTruncateToFast world oid inode rel = some after)
    (named : world.names loc = some file) : after.names loc = some file := by
  rcases stage_spec world after rel staged with ⟨_,_,_,_,rfl⟩ | ⟨absent,_,_,rfl⟩
  · exact named
  · exact World.setName_keeps absent named

variable (oid) in
theorem renameLower_names {source target : RelPath}
    (given : loc ≠ ⟨inode.lowerPath.mnt,source⟩) (taken : loc ≠ ⟨inode.lowerPath.mnt,target⟩) :
    (renameLower world oid inode source target).names loc = world.names loc := by
  change ((world.setName ⟨inode.lowerPath.mnt,source⟩ none).setName ⟨inode.lowerPath.mnt,target⟩ _).names loc = _
  rw [World.setName_names,if_neg taken,World.setName_names,if_neg given]

variable (action : Action)

theorem act_names (acted : act world action = some after)
    (apart : loc ∉ takes world action) (named : world.names loc = some file) : after.names loc = some file := by
  cases action with
  | create oid tier rel mode =>
    obtain ⟨_,_,absent,rfl⟩ := create_spec world after acted
    exact World.setName_keeps absent named
  | write oid content | setAttrs oid attrs =>
    obtain ⟨inode,_,rfl⟩ := Option.map_eq_some_iff.mp acted
    exact named
  | truncate oid =>
    rcases truncate_spec world after acted with written | ⟨inode,rel,_,_,_,staged⟩
    · obtain ⟨inode,_,rfl⟩ := Option.map_eq_some_iff.mp written
      exact named
    · exact stage_names world after rel staged named
  | rename oid target replaced =>
    obtain ⟨inode,source,found,path,_,_,result⟩ := rename_spec world after oid target replaced acted
    simp only [takes,found,path,List.mem_append,List.mem_cons,not_or,Option.map_some,Option.toList_some,
      List.not_mem_nil,not_false_eq_true,and_true] at apart
    obtain ⟨⟨target,source⟩,victims⟩ := apart
    rcases result with ⟨_,rfl⟩ | ⟨other,victim,rfl,known,_,_,_,rfl⟩
    · rw [renameLower_names world oid source target,named]
    unfold dropReplaced
    split
    · change (renameLower world oid inode _ _).names loc = _
      rw [renameLower_names world oid source target,named]
    · change ((renameLower world oid inode _ _).setName _ none).names loc = _
      simp only [Option.bind_some,known,Option.map_some,Option.toList_some,List.mem_singleton] at victims
      rw [World.setName_names,if_neg victims,renameLower_names world oid source target,named]
  | unlink oid =>
    obtain ⟨inode,rel,found,path,_,rfl⟩ := unlink_spec world after oid acted
    simp only [takes,found,path,Option.map_some,Option.toList_some,List.mem_singleton] at apart
    change (world.setName _ none).names loc = _
    rw [World.setName_names,if_neg apart,named]
  | tick =>
    cases acted
    exact named

/-- How an inode changes: it stays where it is, `write_seq` counts a rehome, or
its own name was among those taken. -/
structure Evolves (taken : List Loc) (before after : Inode) : Prop where
  counted : before.writeSeq ≤ after.writeSeq
  stays : (after.lowerPath.mnt = before.lowerPath.mnt ∧ after.lowerPath.file = before.lowerPath.file ∧
      after.relPath = before.relPath ∧ after.intendedTier = before.intendedTier) ∨
    before.writeSeq < after.writeSeq ∨ ∃ rel, before.relPath = some rel ∧ ⟨before.lowerPath.mnt,rel⟩ ∈ taken

variable (taken : List Loc)

theorem evolves_refl (inode : Inode) : Evolves taken inode inode :=
  ⟨Nat.le_refl _,.inl ⟨rfl,rfl,rfl,rfl⟩⟩

theorem write_evolves {other oid : Oid} {content : Bytes}
    (written : write world other content = some after) {inode : Inode} (found : world.inodes oid = some inode) :
    ∃ later, after.inodes oid = some later ∧ Evolves taken inode later := by
  obtain ⟨known,present,rfl⟩ := Option.map_eq_some_iff.mp written
  by_cases self : oid = other
  · subst other
    cases found.symm.trans present
    exact ⟨_,update_self ..,Nat.le_succ _,.inl ⟨rfl,rfl,rfl,rfl⟩⟩
  · exact ⟨inode,(update_of_ne self _ _).trans found,evolves_refl taken inode⟩

theorem rename_evolves {other oid : Oid} {target : RelPath} {replaced : Option Oid}
    (renamed : rename world other target replaced = some after) {inode : Inode} (found : world.inodes oid = some inode) :
    ∃ later, after.inodes oid = some later ∧ Evolves (takes world (.rename other target replaced)) inode later := by
  obtain ⟨known,source,present,path,_,_,result⟩ := rename_spec world after other target replaced renamed
  -- the inode after the lower rename, before a replaced object is dropped
  have lower : ∃ later, (renameLower world other known source target).inodes oid = some later ∧
      Evolves (takes world (.rename other target replaced)) inode later := by
    by_cases self : oid = other
    · subst other
      cases found.symm.trans present
      exact ⟨_,update_self ..,Nat.le_refl _,.inr (.inr ⟨source,path,by simp [takes,found,path]⟩)⟩
    · exact ⟨inode,(update_of_ne self _ _).trans found,evolves_refl _ inode⟩
  rcases result with ⟨_,rfl⟩ | ⟨victim,lost,rfl,alive,different,_,named,rfl⟩
  · exact lower
  by_cases self : oid = victim
  · subst victim
    cases found.symm.trans alive
    have own : Evolves (takes world (.rename other target (some oid))) inode {inode with linked := false} ∧
        Evolves (takes world (.rename other target (some oid))) inode {inode with linked := false, relPath := none} :=
      have taken : ⟨inode.lowerPath.mnt,target⟩ ∈ takes world (.rename other target (some oid)) := by
        simp [takes,present,found]
      ⟨⟨Nat.le_refl _,.inr (.inr ⟨target,named,taken⟩)⟩,⟨Nat.le_refl _,.inr (.inr ⟨target,named,taken⟩)⟩⟩
    unfold dropReplaced
    split
    · exact ⟨_,update_self ..,own.1⟩
    · exact ⟨_,update_self ..,own.2⟩
  · obtain ⟨later,kept,evolves⟩ := lower
    refine ⟨later,?_,evolves⟩
    unfold dropReplaced
    split <;> exact (update_of_ne self _ _).trans kept

theorem act_evolves (acted : act world action = some after) {oid : Oid}
    {inode : Inode} (found : world.inodes oid = some inode) :
    ∃ later, after.inodes oid = some later ∧ Evolves (takes world action) inode later := by
  have same (equal : after.inodes oid = world.inodes oid) :
      ∃ later, after.inodes oid = some later ∧ Evolves (takes world action) inode later :=
    ⟨inode,equal.trans found,evolves_refl _ inode⟩
  cases action with
  | create other tier rel mode =>
    obtain ⟨_,absent,_,rfl⟩ := create_spec world after acted
    apply same
    apply update_of_ne
    rintro rfl
    rw [absent] at found
    cases found
  | write other content => exact write_evolves world after _ acted found
  | setAttrs other attrs =>
    obtain ⟨known,_,rfl⟩ := Option.map_eq_some_iff.mp acted
    exact same rfl
  | truncate other =>
    rcases truncate_spec world after acted with written | ⟨known,rel,present,_,_,staged⟩
    · exact write_evolves world after _ written found
    by_cases self : oid = other
    · subst other
      cases found.symm.trans present
      rcases stage_spec world after rel staged with ⟨_,_,_,_,rfl⟩ | ⟨_,_,_,rfl⟩ <;>
        exact ⟨_,update_self ..,Nat.le_succ _,.inr (.inl (Nat.lt_succ_self _))⟩
    · apply same
      rcases stage_spec world after rel staged with ⟨_,_,_,_,rfl⟩ | ⟨_,_,_,rfl⟩ <;>
        exact update_of_ne self _ _
  | rename other target replaced => exact rename_evolves world after acted found
  | unlink other =>
    obtain ⟨known,rel,present,path,_,rfl⟩ := unlink_spec world after other acted
    by_cases self : oid = other
    · subst other
      cases found.symm.trans present
      exact ⟨_,update_self ..,Nat.le_refl _,.inr (.inr ⟨rel,path,by simp [takes,found,path]⟩)⟩
    · exact same (update_of_ne self _ _)
  | tick =>
    cases acted
    exact same rfl

def touches (world : World) : Action → List Loc
  | .create _ tier rel _ => [⟨tier,rel⟩]
  | .truncate oid =>
    match world.inodes oid with
    | none => []
    | some inode =>
      if ¬ world.pool.cacheMode ∧ shouldStageTruncate world inode then
        (inode.relPath.map (Loc.mk world.pool.fastestTier)).toList
      else []
  | action => takes world action

structure Effect (touched : List Loc) (world after : World) : Prop where
  names : ∀ loc, loc ∉ touched → after.names loc = world.names loc
  points : ∀ loc file, after.names loc = some file → world.names loc = some file ∨
    file = world.nextFile ∧ file < after.nextFile ∨ ∃ oid inode, world.inodes oid = some inode ∧ inode.lowerPath.file = file
  lower : ∀ oid inode, after.inodes oid = some inode →
    (∃ before, world.inodes oid = some before ∧ inode.lowerPath.file = before.lowerPath.file) ∨
      inode.lowerPath.file = world.nextFile ∧ world.nextFile < after.nextFile ∨
      ∃ loc ∈ touched, world.names loc = some inode.lowerPath.file
  files : ∀ file, after.files file = world.files file ∨
    ∃ oid inode, after.inodes oid = some inode ∧ inode.lowerPath.file = file
  nextFile : world.nextFile ≤ after.nextFile
  umask : after.umask = world.umask
  fixed : after.pool = world.pool ∧ after.history = world.history

variable (touched : List Loc)

theorem effect_create {world : World} {value : LowerFile} (oid : Oid) {inode : Inode}
    (inside : loc ∈ touched) (fresh : inode.lowerPath.file = world.nextFile) :
    Effect touched world ((world.create loc value).setInode oid inode) where
  names := by
    intro other outside
    change (world.create loc value).names other = _
    rw [World.create_names,if_neg (by rintro rfl; exact outside inside)]
  points := by
    intro other file found
    change (world.create loc value).names other = some file at found
    rw [World.create_names] at found
    split at found
    · cases found
      exact .inr (.inl ⟨rfl,Nat.lt_succ_self _⟩)
    · exact .inl found
  lower := by
    intro other known found
    rw [World.setInode_inodes] at found
    split at found
    · cases found
      exact .inr (.inl ⟨fresh,Nat.lt_succ_self _⟩)
    · exact .inl ⟨known,found,rfl⟩
  files := by
    intro file
    by_cases same : file = world.nextFile
    · exact .inr ⟨oid,inode,update_self ..,fresh.trans same.symm⟩
    · exact .inl (update_of_ne same _ _)
  nextFile := Nat.le_succ _
  umask := rfl
  fixed := ⟨rfl,rfl⟩

theorem effect_setFile {world : World} {value : LowerFile} {oid : Oid}
    {inode : Inode} (lower : inode.lowerPath.file = file)
    (from_ : (∃ before, world.inodes oid = some before ∧ file = before.lowerPath.file) ∨
      ∃ loc ∈ touched, world.names loc = some file) : Effect touched world ((world.setFile file value).setInode oid inode) where
  names := fun _ _ => rfl
  points := fun _ _ => .inl
  lower := by
    intro other known found
    rw [World.setInode_inodes] at found
    split at found
    · next same =>
      cases found
      subst same
      rw [lower]
      rcases from_ with ⟨before,present,same⟩ | named
      · exact .inl ⟨before,present,same⟩
      · exact .inr (.inr named)
    · exact .inl ⟨known,found,rfl⟩
  files := by
    intro other
    by_cases same : other = file
    · exact .inr ⟨oid,inode,update_self ..,lower.trans same.symm⟩
    · exact .inl (update_of_ne same _ _)
  nextFile := Nat.le_refl _
  umask := rfl
  fixed := ⟨rfl,rfl⟩

theorem write_effect {world after : World} {oid : Oid} {content : Bytes}
    (written : write world oid content = some after) : Effect touched world after := by
  obtain ⟨inode,found,rfl⟩ := Option.map_eq_some_iff.mp written
  exact effect_setFile touched rfl (.inl ⟨inode,found,rfl⟩)

structure Shuffle (touched : List Loc) (world after : World) : Prop where
  names : ∀ loc, loc ∉ touched → after.names loc = world.names loc
  points : ∀ loc file, after.names loc = some file → world.names loc = some file ∨
    ∃ oid inode, world.inodes oid = some inode ∧ inode.lowerPath.file = file
  lower : ∀ oid inode, after.inodes oid = some inode →
    ∃ before, world.inodes oid = some before ∧ inode.lowerPath.file = before.lowerPath.file
  files : after.files = world.files
  nextFile : after.nextFile = world.nextFile
  umask : after.umask = world.umask
  fixed : after.pool = world.pool ∧ after.history = world.history

section Shuffle

variable {touched : List Loc} {world after : World}

theorem shuffle_refl {touched : List Loc} (world : World) : Shuffle touched world world :=
  ⟨fun _ _ => rfl,fun _ _ => .inl,fun _ inode found => ⟨inode,found,rfl⟩,rfl,rfl,rfl,rfl,rfl⟩

theorem Shuffle.effect (shuffle : Shuffle touched world after) : Effect touched world after where
  names := shuffle.names
  points := fun loc file found => (shuffle.points loc file found).imp_right .inr
  lower := fun oid inode found => .inl (shuffle.lower oid inode found)
  files := fun file => .inl (congrFun shuffle.files file)
  nextFile := Nat.le_of_eq shuffle.nextFile.symm
  umask := shuffle.umask
  fixed := shuffle.fixed

theorem Shuffle.setName (shuffle : Shuffle touched world after) (loc : Loc) (value : Option FileId) (inside : loc ∈ touched)
    (live : ∀ file, value = some file → ∃ oid inode, world.inodes oid = some inode ∧ inode.lowerPath.file = file) :
    Shuffle touched world (after.setName loc value) where
  names := by
    intro other outside
    rw [World.setName_names,if_neg (by rintro rfl; exact outside inside),shuffle.names other outside]
  points := by
    intro other file named
    rw [World.setName_names] at named
    split at named
    · exact .inr (live file named)
    · exact shuffle.points other file named
  lower := shuffle.lower
  files := shuffle.files
  nextFile := shuffle.nextFile
  umask := shuffle.umask
  fixed := shuffle.fixed

theorem Shuffle.setInode (shuffle : Shuffle touched world after) (oid : Oid) (inode before : Inode)
    (found : world.inodes oid = some before) (same : inode.lowerPath.file = before.lowerPath.file) :
    Shuffle touched world (after.setInode oid inode) where
  names := shuffle.names
  points := shuffle.points
  lower := by
    intro other known present
    rw [World.setInode_inodes] at present
    split at present
    · next self =>
      cases present
      exact ⟨before,by rw [self,found],same⟩
    · exact shuffle.lower other known present
  files := shuffle.files
  nextFile := shuffle.nextFile
  umask := shuffle.umask
  fixed := shuffle.fixed

end Shuffle

theorem rename_effect (renamed : rename world oid target replaced = some after) :
    Effect (takes world (.rename oid target replaced)) world after := by
  obtain ⟨inode,source,found,path,_,_,result⟩ := rename_spec world after oid target replaced renamed
  have given : ⟨inode.lowerPath.mnt,source⟩ ∈ takes world (.rename oid target replaced) := by simp [takes,found,path]
  have taken : ⟨inode.lowerPath.mnt,target⟩ ∈ takes world (.rename oid target replaced) := by simp [takes,found]
  have lower : Shuffle (takes world (.rename oid target replaced)) world (renameLower world oid inode source target) := by
    have removed := (shuffle_refl world).setName _ none given (by simp)
    have moved := removed.setName _ (some inode.lowerPath.file) taken (fun file same => by
      cases same
      exact ⟨oid,inode,found,rfl⟩)
    exact moved.setInode oid _ inode found rfl
  rcases result with ⟨_,rfl⟩ | ⟨other,victim,rfl,known,_,_,_,rfl⟩
  · exact lower.effect
  have lost : ⟨victim.lowerPath.mnt,target⟩ ∈ takes world (.rename oid target (some other)) := by
    simp [takes,found,known]
  unfold dropReplaced
  split
  · apply Shuffle.effect
    exact lower.setInode other _ victim known rfl
  · apply Shuffle.effect
    exact (lower.setName _ none lost (by simp)).setInode other _ victim known rfl

theorem act_effect (acted : act world action = some after) : Effect (touches world action) world after := by
  cases action with
  | create oid tier rel mode =>
    obtain ⟨_,_,_,rfl⟩ := create_spec world after acted
    exact effect_create _ oid (by simp [touches]) rfl
  | write oid content => exact write_effect _ acted
  | setAttrs oid attrs =>
    obtain ⟨inode,found,rfl⟩ := Option.map_eq_some_iff.mp acted
    refine ⟨fun _ _ => rfl,fun _ _ => .inl,fun _ known present => .inl ⟨known,present,rfl⟩,fun file => ?_,Nat.le_refl _,rfl,rfl,rfl⟩
    by_cases same : file = inode.lowerPath.file
    · exact .inr ⟨oid,inode,found,same.symm⟩
    · exact .inl (update_of_ne same _ _)
  | truncate oid =>
    rcases truncate_spec world after acted with written | ⟨inode,rel,found,path,rehomes,staged⟩
    · exact write_effect _ written
    have inside : ⟨world.pool.fastestTier,rel⟩ ∈ touches world (.truncate oid) := by
      simp [touches,found,path,rehomes.1,rehomes.2]
    rcases stage_spec world after rel staged with ⟨file,_,named,_,rfl⟩ | ⟨_,_,_,rfl⟩
    · exact effect_setFile _ rfl (.inr ⟨_,inside,named⟩)
    · exact effect_create _ oid inside rfl
  | rename oid target replaced => exact rename_effect world after target replaced acted
  | unlink oid =>
    obtain ⟨inode,rel,found,path,_,rfl⟩ := unlink_spec world after oid acted
    have inside : ⟨inode.lowerPath.mnt,rel⟩ ∈ touches world (.unlink oid) := by simp [touches,takes,found,path]
    apply Shuffle.effect
    exact ((shuffle_refl world).setName _ none inside (by simp)).setInode oid _ inode found rfl
  | tick =>
    cases acted
    exact ⟨fun _ _ => rfl,fun _ _ => .inl,fun _ known present => .inl ⟨known,present,rfl⟩,fun _ => .inl rfl,Nat.le_refl _,rfl,rfl,rfl⟩

/-- Identifiers in use are smaller than those of new files. -/
structure Bounded (world : World) : Prop where
  names : ∀ loc file, world.names loc = some file → file < world.nextFile
  lower : ∀ oid inode, world.inodes oid = some inode → inode.lowerPath.file < world.nextFile

theorem Bounded.effect {touched : List Loc} {world after : World} (bounded : Bounded world)
    (effect : Effect touched world after) : Bounded after := by
  constructor
  · intro loc file found
    rcases effect.points loc file found with old | ⟨_,fresh⟩ | ⟨oid,inode,known,rfl⟩
    · exact Nat.lt_of_lt_of_le (bounded.names loc file old) effect.nextFile
    · exact fresh
    · exact Nat.lt_of_lt_of_le (bounded.lower oid inode known) effect.nextFile
  · intro oid inode found
    rcases effect.lower oid inode found with ⟨before,known,same⟩ | ⟨same,fresh⟩ | ⟨loc,_,named⟩
    · rw [same]
      exact Nat.lt_of_lt_of_le (bounded.lower oid before known) effect.nextFile
    · rw [same]
      exact fresh
    · exact Nat.lt_of_lt_of_le (bounded.names loc _ named) effect.nextFile

/-- The file stands at `loc` alone and is no inode's `lower_path`. -/
structure Aside (loc : Loc) (file : FileId) (world : World) : Prop where
  named : world.names loc = some file
  only : ∀ other, world.names other = some file → other = loc
  idle : world.NotLive file
  old : file < world.nextFile

theorem Aside.effect {touched : List Loc} {world after : World} (aside : Aside loc file world)
    (apart : loc ∉ touched) (effect : Effect touched world after) :
    Aside loc file after ∧ after.files file = world.files file := by
  have only (other : Loc) (named : after.names other = some file) : other = loc := by
    rcases effect.points other file named with before | ⟨fresh,_⟩ | ⟨oid,inode,known,same⟩
    · exact aside.only other before
    · exact absurd aside.old (fresh ▸ Nat.lt_irrefl _)
    · exact absurd same (aside.idle oid inode known)
  have idle : after.NotLive file := by
    intro oid inode found same
    rcases effect.lower oid inode found with ⟨before,known,kept⟩ | ⟨fresh,_⟩ | ⟨other,inside,named⟩
    · exact aside.idle oid before known (kept.symm.trans same)
    · exact absurd aside.old (same ▸ fresh ▸ Nat.lt_irrefl _)
    · rw [same] at named
      exact apart (aside.only other named ▸ inside)
  refine ⟨⟨(effect.names loc apart).trans aside.named,only,idle,Nat.lt_of_lt_of_le aside.old effect.nextFile⟩,?_⟩
  rcases effect.files file with kept | ⟨oid,inode,found,same⟩
  · exact kept
  · exact absurd same (idle oid inode found)

end Smoothfs.Namespace
