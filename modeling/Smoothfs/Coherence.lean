import Smoothfs.Control

/-! The invariant of a pool: every linked object stands at its path on its tier,
and whatever stands at that path on another tier is a copy of the same object. -/
namespace Smoothfs.Coherence

open Movement Namespace Control Function

structure Linked (world : World) (oid : Oid) (inode : Inode) (rel : RelPath) : Prop where
  path : inode.relPath = some rel
  named : world.names ⟨inode.lowerPath.mnt,rel⟩ = some inode.lowerPath.file
  tier : inode.currentTier = inode.lowerPath.mnt
  owned : ∀ tier file, world.names ⟨tier,rel⟩ = some file → (world.files file).object = oid

structure Settled (world : World) (oid : Oid) (inode : Inode) : Prop where
  linked : inode.linked = true → ∃ rel, Linked world oid inode rel
  unlinked : inode.linked = false → ∀ loc, world.names loc ≠ some inode.lowerPath.file

structure Coherent (world : World) : Prop where
  bounded : Bounded world
  single : ∀ first second file, world.names first = some file → world.names second = some file → first = second
  settled : ∀ oid inode, world.inodes oid = some inode → Settled world oid inode

section Facts

variable {world : World} {oid other : Oid} {inode known : Inode} {rel : RelPath}

theorem Coherent.linked (coherent : Coherent world) (found : world.inodes oid = some inode) (linked : inode.linked = true) :
    ∃ rel, Linked world oid inode rel :=
  (coherent.settled oid inode found).linked linked

theorem Coherent.at (coherent : Coherent world) (found : world.inodes oid = some inode)
    (linked : inode.linked = true) (path : inode.relPath = some rel) : Linked world oid inode rel := by
  obtain ⟨own,here⟩ := coherent.linked found linked
  cases path.symm.trans here.path
  exact here

theorem Linked.unique (one : Linked world oid inode rel) (two : Linked world other known rel) : oid = other :=
  (one.owned _ _ one.named).symm.trans (two.owned _ _ one.named)

theorem Coherent.live (coherent : Coherent world) (found : world.inodes oid = some inode) (loc : Loc)
    (named : world.names loc = some inode.lowerPath.file) :
    Linked world oid inode loc.rel ∧ inode.lowerPath.mnt = loc.dir := by
  cases linked : inode.linked with
  | false => exact absurd named ((coherent.settled oid inode found).unlinked linked loc)
  | true =>
    obtain ⟨rel,here⟩ := coherent.linked found linked
    cases coherent.single _ _ _ here.named named
    exact ⟨here,rfl⟩

theorem Coherent.copy (coherent : Coherent world) (here : Linked world oid inode rel) (tier : Nat) (file : FileId)
    (found : world.inodes oid = some inode) (elsewhere : tier ≠ inode.lowerPath.mnt) (named : world.names ⟨tier,rel⟩ = some file) :
    world.NotLive file ∧ (world.files file).object = oid := by
  refine ⟨fun other known present same => ?_,here.owned tier file named⟩
  rw [← same] at named
  obtain ⟨there,mnt⟩ := coherent.live present ⟨tier,rel⟩ named
  cases here.unique there
  cases found.symm.trans present
  exact elsewhere mnt.symm

end Facts

structure SamePlace (before after : Inode) : Prop where
  mnt : after.lowerPath.mnt = before.lowerPath.mnt
  file : after.lowerPath.file = before.lowerPath.file
  linked : after.linked = before.linked
  path : after.relPath = before.relPath
  tier : after.currentTier = before.currentTier

theorem samePlace_refl (inode : Inode) : SamePlace inode inode :=
  ⟨rfl,rfl,rfl,rfl,rfl⟩

section Change

variable {world after : World}

theorem Settled.kept {oid : Oid} {inode later : Inode} (settled : Settled world oid inode) (place : SamePlace inode later)
    (home : inode.linked = true → ∀ rel, inode.relPath = some rel →
      after.names ⟨inode.lowerPath.mnt,rel⟩ = world.names ⟨inode.lowerPath.mnt,rel⟩)
    (fewer : inode.linked = true → ∀ rel tier file, inode.relPath = some rel → after.names ⟨tier,rel⟩ = some file →
      world.names ⟨tier,rel⟩ = some file ∧ (after.files file).object = (world.files file).object)
    (gone : inode.linked = false → ∀ loc, after.names loc ≠ some inode.lowerPath.file) : Settled after oid later := by
  constructor
  · intro linked
    rw [place.linked] at linked
    obtain ⟨rel,here⟩ := settled.linked linked
    refine ⟨rel,place.path.trans here.path,?_,?_,?_⟩
    · rw [place.mnt,place.file,home linked rel here.path,here.named]
    · rw [place.tier,place.mnt,here.tier]
    · intro tier file named
      obtain ⟨before,same⟩ := fewer linked rel tier file here.path named
      rw [same,here.owned tier file before]
  · intro unlinked loc
    rw [place.linked] at unlinked
    rw [place.file]
    exact gone unlinked loc

theorem Coherent.still (coherent : Coherent world) (names : after.names = world.names)
    (nextFile : after.nextFile = world.nextFile) (objects : ∀ file, (after.files file).object = (world.files file).object)
    (inodes : ∀ oid inode, after.inodes oid = some inode →
      ∃ before, world.inodes oid = some before ∧ SamePlace before inode) : Coherent after := by
  refine ⟨⟨?_,?_⟩,?_,?_⟩
  · rw [names,nextFile]
    exact coherent.bounded.names
  · intro oid inode found
    obtain ⟨before,known,place⟩ := inodes oid inode found
    rw [nextFile,place.file]
    exact coherent.bounded.lower oid before known
  · rw [names]
    exact coherent.single
  · intro oid inode found
    obtain ⟨before,known,place⟩ := inodes oid inode found
    apply (coherent.settled oid before known).kept place
    · intro _ rel _
      rw [names]
    · intro _ rel tier file _ named
      rw [names] at named
      exact ⟨named,objects file⟩
    · intro unlinked loc
      rw [names]
      exact (coherent.settled oid before known).unlinked unlinked loc

theorem Coherent.change (coherent : Coherent world) (changed : Oid → Prop) (bounded : Bounded after)
    (single : ∀ first second file, after.names first = some file → after.names second = some file → first = second)
    (old : ∀ loc file, after.names loc = some file → file = world.nextFile ∨ ∃ before, world.names before = some file)
    (same : ∀ oid, ¬ changed oid → after.inodes oid = world.inodes oid)
    (home : ∀ oid inode rel, ¬ changed oid → world.inodes oid = some inode → Linked world oid inode rel →
      after.names ⟨inode.lowerPath.mnt,rel⟩ = world.names ⟨inode.lowerPath.mnt,rel⟩)
    (fewer : ∀ oid inode rel tier file, ¬ changed oid → world.inodes oid = some inode → Linked world oid inode rel →
      after.names ⟨tier,rel⟩ = some file →
        world.names ⟨tier,rel⟩ = some file ∧ (after.files file).object = (world.files file).object)
    (settles : ∀ oid inode, changed oid → after.inodes oid = some inode → Settled after oid inode) : Coherent after := by
  refine ⟨bounded,single,fun oid inode found => ?_⟩
  by_cases moved : changed oid
  · exact settles oid inode moved found
  rw [same oid moved] at found
  have settled := coherent.settled oid inode found
  apply settled.kept (samePlace_refl inode)
  · intro linked rel path
    exact home oid inode rel moved found (coherent.at found linked path)
  · intro linked rel tier file path
    exact fewer oid inode rel tier file moved found (coherent.at found linked path)
  · intro unlinked loc named
    rcases old loc _ named with fresh | ⟨before,present⟩
    · exact absurd (coherent.bounded.lower oid inode found) (fresh ▸ Nat.lt_irrefl _)
    · exact settled.unlinked unlinked before present

end Change

variable {replaced : Option Oid}

section Actions

variable {world after : World}

theorem single_create (coherent : Coherent world) (loc : Loc) (value : LowerFile) (first second : Loc) (file : FileId)
    (one : (world.create loc value).names first = some file) (two : (world.create loc value).names second = some file) :
    first = second := by
  have fresh (other : Loc) : world.names other ≠ some world.nextFile :=
    fun named => Nat.lt_irrefl _ (coherent.bounded.names other _ named)
  rw [World.create_names] at one two
  split at one <;> split at two
  · next here there => rw [here,there]
  · cases one
    exact absurd two (fresh second)
  · cases two
    exact absurd one (fresh first)
  · exact coherent.single first second file one two

theorem old_create {loc other : Loc} (value : LowerFile) (file : FileId)
    (named : (world.create loc value).names other = some file) :
    file = world.nextFile ∨ ∃ before, world.names before = some file := by
  rw [World.create_names] at named
  split at named
  · cases named
    exact .inl rfl
  · exact .inr ⟨other,named⟩

theorem Coherent.create (coherent : Coherent world) (loc : Loc) (value : LowerFile) (oid : Oid) (inode : Inode)
    (object : value.object = oid) (absent : world.names loc = none)
    (alone : ∀ other known, other ≠ oid → world.inodes other = some known → ¬ Linked world other known loc.rel)
    (owned : ∀ tier file, world.names ⟨tier,loc.rel⟩ = some file → (world.files file).object = oid)
    (path : inode.relPath = some loc.rel) (linked : inode.linked = true) (tier : inode.currentTier = inode.lowerPath.mnt)
    (own : inode.lowerPath.mnt = loc.dir ∧ inode.lowerPath.file = world.nextFile ∨
      world.names ⟨inode.lowerPath.mnt,loc.rel⟩ = some inode.lowerPath.file) :
    Coherent ((world.create loc value).setInode oid inode) := by
  have content (file : FileId) (at_ : Loc) (named : world.names at_ = some file) :
      (world.create loc value).files file = world.files file :=
    update_of_ne (Nat.ne_of_lt (coherent.bounded.names at_ file named)) _ _
  have elsewhere (other : Oid) (known : Inode) (rel : RelPath) (place : Nat) (different : ¬ other = oid)
      (found : world.inodes other = some known) (there : Linked world other known rel) :
      (world.create loc value).names ⟨place,rel⟩ = world.names ⟨place,rel⟩ := by
    rw [World.create_names,if_neg]
    rintro rfl
    exact alone other known different found there
  have bounded : Bounded ((world.create loc value).setInode oid inode) := by
    constructor
    · intro at_ file named
      rcases old_create value file named with rfl | ⟨before,present⟩
      · exact Nat.lt_succ_self _
      · exact Nat.lt_succ_of_lt (coherent.bounded.names before file present)
    · intro other known found
      rw [World.setInode_inodes] at found
      split at found
      · cases found
        rcases own with ⟨_,fresh⟩ | present
        · rw [fresh]
          exact Nat.lt_succ_self _
        · exact Nat.lt_succ_of_lt (coherent.bounded.names _ _ present)
      · exact Nat.lt_succ_of_lt (coherent.bounded.lower other known found)
  refine coherent.change (· = oid) bounded (single_create coherent loc value) (fun at_ => old_create value)
    (fun other different => update_of_ne different _ _) ?_ ?_ ?_
  · intro other known rel different found there
    exact elsewhere other known rel _ different found there
  · intro other known rel place file different found there named
    have before := (elsewhere other known rel place different found there).symm.trans named
    exact ⟨before,congrArg LowerFile.object (content file _ before)⟩
  · rintro other later rfl found
    cases (update_self other _ _).symm.trans found
    refine ⟨fun _ => ⟨loc.rel,path,?_,tier,fun place file named => ?_⟩,fun unlinked => ?_⟩
    · rcases own with ⟨mnt,fresh⟩ | present
      · rw [mnt,fresh]
        exact update_self ..
      · exact World.setName_keeps absent present
    · change (world.create loc value).names ⟨place,loc.rel⟩ = some file at named
      change ((world.create loc value).files file).object = other
      rw [World.create_names] at named
      split at named
      · cases named
        exact (congrArg LowerFile.object (update_self ..)).trans object
      · rw [content file _ named]
        exact owned place file named
    · rw [linked] at unlinked
      cases unlinked

variable {oid : Oid} {later inode : Inode} {rel : RelPath}

theorem Coherent.relocate (coherent : Coherent world)
    (here : Linked world oid inode rel) (names : after.names = world.names) (nextFile : after.nextFile = world.nextFile)
    (objects : ∀ file, (after.files file).object = (world.files file).object)
    (others : ∀ other, other ≠ oid → after.inodes other = world.inodes other) (present : after.inodes oid = some later)
    (path : later.relPath = some rel) (linked : later.linked = true) (tier : later.currentTier = later.lowerPath.mnt)
    (named : world.names ⟨later.lowerPath.mnt,rel⟩ = some later.lowerPath.file) : Coherent after := by
  have bounded : Bounded after := by
    constructor
    · rw [names,nextFile]
      exact coherent.bounded.names
    · intro other known found
      rw [nextFile]
      by_cases self : other = oid
      · subst self
        cases present.symm.trans found
        exact coherent.bounded.names _ _ named
      · rw [others other self] at found
        exact coherent.bounded.lower other known found
  refine coherent.change (· = oid) bounded (by rw [names]; exact coherent.single) ?_ others ?_ ?_ ?_
  · intro loc file found
    rw [names] at found
    exact .inr ⟨loc,found⟩
  · intro other known path _ _ _
    rw [names]
  · intro other known path place file _ _ _ found
    rw [names] at found
    exact ⟨found,objects file⟩
  · rintro other known rfl found
    cases present.symm.trans found
    refine ⟨fun _ => ⟨rel,path,by rw [names,named],tier,fun place file found => ?_⟩,fun unlinked => ?_⟩
    · rw [names] at found
      rw [objects,here.owned place file found]
    · rw [linked] at unlinked
      cases unlinked

theorem Coherent.dropName (coherent : Coherent world) (loc : Loc) (changed : Oid → Prop)
    (names : after.names = (world.setName loc none).names)
    (nextFile : after.nextFile = world.nextFile) (files : after.files = world.files)
    (same : ∀ oid, ¬ changed oid → after.inodes oid = world.inodes oid)
    (spared : ∀ oid inode, ¬ changed oid → world.inodes oid = some inode → world.names loc ≠ some inode.lowerPath.file)
    (unlinks : ∀ oid inode, changed oid → after.inodes oid = some inode → inode.linked = false ∧
      world.names loc = some inode.lowerPath.file) : Coherent after := by
  have kept (other : Loc) (file : FileId) (found : after.names other = some file) : world.names other = some file ∧ other ≠ loc := by
    rw [names,World.setName_names] at found
    split at found
    · cases found
    · next different => exact ⟨found,different⟩
  have bounded : Bounded after := by
    constructor
    · intro other file found
      rw [nextFile]
      exact coherent.bounded.names other file (kept other file found).1
    · intro oid inode found
      rw [nextFile]
      by_cases moved : changed oid
      · exact coherent.bounded.names loc _ (unlinks oid inode moved found).2
      · rw [same oid moved] at found
        exact coherent.bounded.lower oid inode found
  refine coherent.change changed bounded ?_ (fun other file found => .inr ⟨other,(kept other file found).1⟩) same ?_ ?_ ?_
  · intro first second file one two
    exact coherent.single first second file (kept first file one).1 (kept second file two).1
  · intro oid inode rel unmoved found here
    rw [names,World.setName_names,if_neg]
    intro equal
    exact spared oid inode unmoved found (by rw [← equal,here.named])
  · intro oid inode rel tier file _ _ _ found
    rw [files]
    exact ⟨(kept _ file found).1,rfl⟩
  · intro oid inode moved found
    obtain ⟨unlinked,last⟩ := unlinks oid inode moved found
    refine ⟨fun linked => ?_,fun _ other found => ?_⟩
    · rw [linked] at unlinked
      cases unlinked
    · obtain ⟨before,different⟩ := kept other _ found
      exact different (coherent.single other loc _ before last)

/-- New names go to paths that no other object has left copies at, and only linked objects are
rehomed. -/
def Clear (world : World) : Action → Prop
  | .create _ _ rel _ => ∀ tier, world.names ⟨tier,rel⟩ = none
  | .rename _ target replaced => ∀ tier file, world.names ⟨tier,target⟩ = some file →
      ∃ other victim, replaced = some other ∧ world.inodes other = some victim ∧ victim.lowerPath.file = file
  | .truncate oid => ∀ inode, world.inodes oid = some inode → inode.linked = true
  | _ => True

theorem rename_names (coherent : Coherent world) {oid : Oid} {target : RelPath}
    (clear : Clear world (.rename oid target replaced)) {source : RelPath} (different : source ≠ target)
    (renamed : (replaced = none ∧ after = renameLower world oid inode source target) ∨
      ∃ other victim, replaced = some other ∧ world.inodes other = some victim ∧ other ≠ oid ∧ victim.linked = true ∧
        victim.relPath = some target ∧
        after = dropReplaced (renameLower world oid inode source target) inode.lowerPath.mnt target other victim)
    (loc : Loc) :
    after.names loc = if loc.rel = target then (if loc.dir = inode.lowerPath.mnt then some inode.lowerPath.file else none)
      else if loc = ⟨inode.lowerPath.mnt,source⟩ then none else world.names loc := by
  have lower : (renameLower world oid inode source target).names loc =
      if loc = ⟨inode.lowerPath.mnt,target⟩ then some inode.lowerPath.file
      else if loc = ⟨inode.lowerPath.mnt,source⟩ then none else world.names loc := by
    change ((world.setName _ none).setName _ (some inode.lowerPath.file)).names loc = _
    rw [World.setName_names,World.setName_names]
  obtain ⟨dir,rel⟩ := loc
  by_cases onto : rel = target
  · subst onto
    have away : (⟨dir,rel⟩ : Loc) ≠ ⟨inode.lowerPath.mnt,source⟩ := fun equal => different (congrArg Loc.rel equal).symm
    rw [if_neg away] at lower
    simp only [if_true,Loc.mk.injEq,and_true] at lower ⊢
    rcases renamed with ⟨rfl,rfl⟩ | ⟨other,victim,rfl,known,_,alive,named,rfl⟩
    · rw [lower]
      split
      · rfl
      cases found : world.names ⟨dir,rel⟩ with
      | none => rfl
      | some file =>
        obtain ⟨_,_,absurd_,_⟩ := clear dir file found
        cases absurd_
    · have there := coherent.at known alive named
      have only (elsewhere : dir ≠ victim.lowerPath.mnt) : world.names ⟨dir,rel⟩ = none := by
        cases found : world.names ⟨dir,rel⟩ with
        | none => rfl
        | some file =>
          obtain ⟨third,lost,same,present,rfl⟩ := clear dir file found
          cases same
          cases known.symm.trans present
          exact absurd (congrArg Loc.dir (coherent.single _ _ _ found there.named)) elsewhere
      unfold dropReplaced
      split
      · next together =>
        change (renameLower world oid inode source rel).names ⟨dir,rel⟩ = _
        rw [lower]
        split
        · rfl
        · next elsewhere => exact only (by rw [together]; exact elsewhere)
      · next apart =>
        change ((renameLower world oid inode source rel).setName _ none).names ⟨dir,rel⟩ = _
        rw [World.setName_names,lower]
        simp only [Loc.mk.injEq,and_true]
        split
        · next here => rw [if_neg (fun equal => apart (here.symm.trans equal))]
        next elsewhere =>
        split
        · rfl
        · exact only elsewhere
  · have missed (tier : Nat) : (⟨dir,rel⟩ : Loc) ≠ ⟨tier,target⟩ := fun equal => onto (congrArg Loc.rel equal)
    rw [if_neg (missed _)] at lower
    rw [if_neg onto]
    rcases renamed with ⟨_,rfl⟩ | ⟨other,victim,_,_,_,_,_,rfl⟩
    · exact lower
    unfold dropReplaced
    split
    · exact lower
    · change ((renameLower world oid inode source target).setName _ none).names ⟨dir,rel⟩ = _
      rw [World.setName_names,if_neg (missed _)]
      exact lower

variable {target : RelPath}

theorem rename_named {source : RelPath}
    (names : ∀ loc, after.names loc = if loc.rel = target then (if loc.dir = inode.lowerPath.mnt then some inode.lowerPath.file else none)
      else if loc = ⟨inode.lowerPath.mnt,source⟩ then none else world.names loc)
    {loc : Loc} {file : FileId} (named : after.names loc = some file) :
    loc = ⟨inode.lowerPath.mnt,target⟩ ∧ file = inode.lowerPath.file ∨
      world.names loc = some file ∧ loc.rel ≠ target ∧ loc ≠ ⟨inode.lowerPath.mnt,source⟩ := by
  rw [names] at named
  split at named
  · next onto =>
    split at named
    · next tier =>
      cases named
      obtain ⟨dir,rel⟩ := loc
      cases onto
      cases tier
      exact .inl ⟨rfl,rfl⟩
    · cases named
  · next other =>
    split at named
    · cases named
    · next apart => exact .inr ⟨named,other,apart⟩

theorem rename_files (renamed : rename world oid target replaced = some after) :
    after.files = world.files := by
  obtain ⟨inode,source,_,_,_,_,⟨_,rfl⟩ | ⟨other,victim,_,_,_,_,_,rfl⟩⟩ := rename_spec world after oid target replaced renamed
  · rfl
  · unfold dropReplaced
    split <;> rfl

theorem dropReplaced_victim {tier : Nat} {victim : Oid} {lost : Inode}
    (present : (dropReplaced world tier target victim lost).inodes victim = some later) :
    later.linked = false ∧ later.lowerPath.file = lost.lowerPath.file := by
  unfold dropReplaced at present
  split at present
  · cases (update_self victim _ _).symm.trans present
    exact ⟨rfl,rfl⟩
  · cases (update_self victim _ _).symm.trans present
    exact ⟨rfl,rfl⟩

theorem Coherent.rename (coherent : Coherent world) (oid : Oid) (target : RelPath) (replaced : Option Oid)
    (clear : Clear world (.rename oid target replaced)) (renamed : rename world oid target replaced = some after) :
    Coherent after := by
  have bounded := coherent.bounded.effect (rename_effect world after target replaced renamed)
  obtain ⟨inode,source,found,path,linked,different,result⟩ := rename_spec world after oid target replaced renamed
  have names := rename_names coherent clear different result
  have files := rename_files renamed
  have here := coherent.at found linked path
  have cases (loc : Loc) (file : FileId) (named : after.names loc = some file) := rename_named names named
  have victims (other : Oid) (victim : Inode) (known : world.inodes other = some victim)
      (there : Linked world other victim target) : replaced = some other := by
    obtain ⟨third,lost,same,present,file⟩ := clear _ _ there.named
    have rest := (coherent.live present ⟨victim.lowerPath.mnt,target⟩ (by rw [file]; exact there.named)).1
    rw [same,there.unique rest]
  have untouched (other : Oid) (known : Inode) (rel : RelPath) (unmoved : ¬ (other = oid ∨ replaced = some other))
      (present : world.inodes other = some known) (there : Linked world other known rel) : rel ≠ target ∧ rel ≠ source := by
    constructor
    · rintro rfl
      exact unmoved (.inr (victims other known present there))
    · rintro rfl
      exact unmoved (.inl (there.unique here))
  refine coherent.change (fun other => other = oid ∨ replaced = some other) bounded ?_ ?_ ?_ ?_ ?_ ?_
  · intro first second file one two
    rcases cases first file one with ⟨rfl,same⟩ | ⟨one,_,apart⟩ <;> rcases cases second file two with ⟨rfl,equal⟩ | ⟨two,_,away⟩
    · rfl
    · rw [same] at two
      exact absurd (coherent.single _ _ _ two here.named) away
    · rw [equal] at one
      exact absurd (coherent.single _ _ _ one here.named) apart
    · exact coherent.single first second file one two
  · intro loc file named
    rcases cases loc file named with ⟨_,rfl⟩ | ⟨before,_⟩
    · exact .inr ⟨_,here.named⟩
    · exact .inr ⟨loc,before⟩
  · intro other unmoved
    have self : other ≠ oid := fun equal => unmoved (.inl equal)
    have lower : (renameLower world oid inode source target).inodes other = world.inodes other :=
      update_of_ne self _ _
    rcases result with ⟨_,rfl⟩ | ⟨victim,lost,rfl,_,_,_,_,rfl⟩
    · exact lower
    · have spared : other ≠ victim := fun equal => unmoved (.inr (by rw [equal]))
      unfold dropReplaced
      split <;> exact (update_of_ne spared _ _).trans lower
  · intro other known rel unmoved present there
    obtain ⟨onto,from_⟩ := untouched other known rel unmoved present there
    rw [names,if_neg onto,if_neg (fun equal => from_ (congrArg Loc.rel equal))]
  · intro other known rel tier file unmoved present there named
    obtain ⟨onto,_⟩ := untouched other known rel unmoved present there
    rcases cases _ file named with ⟨equal,_⟩ | ⟨before,_⟩
    · exact absurd (congrArg Loc.rel equal) onto
    · exact ⟨before,by rw [files]⟩
  · intro other later moved present
    have lower (known : Inode) (kept : (renameLower world oid inode source target).inodes oid = some known)
        (final : after.inodes oid = some known) : Settled after oid known := by
      cases (update_self oid _ _).symm.trans kept
      refine ⟨fun _ => ⟨target,rfl,?_,here.tier,fun tier file named => ?_⟩,fun unlinked => ?_⟩
      · simp only [names,if_true]
      · rw [files]
        rcases cases _ file named with ⟨_,rfl⟩ | ⟨_,onto,_⟩
        · exact here.owned _ _ here.named
        · exact absurd rfl onto
      · rw [linked] at unlinked
        cases unlinked
    rcases result with ⟨rfl,rfl⟩ | ⟨victim,lost,rfl,known,apart,alive,named,rfl⟩
    · rcases moved with rfl | absurd_
      · exact lower later present present
      · cases absurd_
    have there := coherent.at known alive named
    have gone (loc : Loc) : (dropReplaced (renameLower world oid inode source target) inode.lowerPath.mnt target victim lost).names
        loc ≠ some lost.lowerPath.file := by
      intro kept
      rcases cases loc _ kept with ⟨_,same⟩ | ⟨before,onto,_⟩
      · have equal := coherent.single _ _ _ there.named (by rw [same]; exact here.named)
        exact different (congrArg Loc.rel equal).symm
      · exact onto (congrArg Loc.rel (coherent.single _ _ _ before there.named))
    by_cases self : other = victim
    · subst self
      have dropped := dropReplaced_victim present
      refine ⟨fun linked => ?_,fun _ loc => ?_⟩
      · rw [linked] at dropped
        cases dropped.1
      · rw [dropped.2]
        exact gone loc
    · have same : other = oid := moved.resolve_right (fun equal => self (Option.some.inj equal).symm)
      subst same
      apply lower later ?_ present
      unfold dropReplaced at present
      split at present <;> exact (update_of_ne self _ _).symm.trans present

theorem setFile_object {file : FileId} (other : FileId) {value : LowerFile} (same : value.object = (world.files file).object) :
    ((world.setFile file value).files other).object = (world.files other).object := by
  change (update world.files file value other).object = _
  by_cases self : other = file
  · subst self
    rw [update_self,same]
  · rw [update_of_ne self]

theorem setInode_place (found : world.inodes oid = some inode)
    (updated : after.inodes = update world.inodes oid (some later)) (place : SamePlace inode later) (other : Oid) (known : Inode)
    (present : after.inodes other = some known) : ∃ before, world.inodes other = some before ∧ SamePlace before known := by
  rw [updated,update_apply] at present
  split at present
  · next self =>
    cases present
    exact ⟨inode,by rw [self,found],place⟩
  · exact ⟨known,present,samePlace_refl known⟩

theorem Coherent.write (coherent : Coherent world) (oid : Oid) (content : Bytes) (written : write world oid content = some after) :
    Coherent after := by
  obtain ⟨inode,found,rfl⟩ := Option.map_eq_some_iff.mp written
  exact coherent.still rfl rfl (fun file => setFile_object file rfl)
    (setInode_place found rfl ⟨rfl,rfl,rfl,rfl,rfl⟩)

theorem Coherent.rehome (coherent : Coherent world)
    (found : world.inodes oid = some inode) (linked : inode.linked = true) (path : inode.relPath = some rel)
    (staged : stageTruncateToFast world oid inode rel = some after) : Coherent after := by
  have here := coherent.at found linked path
  rcases stage_spec world after rel staged with ⟨file,value,named,object,rfl⟩ | ⟨absent,value,object,rfl⟩
  · exact coherent.relocate here rfl rfl
      (fun other => setFile_object other (object.trans (here.owned _ file named).symm))
      (fun other different => update_of_ne different _ _) (update_self ..) rfl linked rfl named
  apply coherent.create _ value oid _ object absent
  · intro other known different present there
    exact different (there.unique here)
  · exact here.owned
  · rfl
  · exact linked
  · rfl
  · exact .inl ⟨rfl,rfl⟩

theorem Coherent.act (coherent : Coherent world) (action : Action) (clear : Clear world action)
    (acted : act world action = some after) : Coherent after := by
  cases action with
  | create oid tier rel mode =>
    obtain ⟨_,_,absent,rfl⟩ := create_spec world after acted
    apply coherent.create _ _ oid _ rfl absent
    · intro other known _ _ there
      exact absurd there.named (by rw [clear]; nofun)
    · intro place file named
      rw [clear place] at named
      cases named
    · rfl
    · rfl
    · rfl
    · exact .inl ⟨rfl,rfl⟩
  | write oid content => exact coherent.write oid content acted
  | setAttrs oid attrs =>
    obtain ⟨inode,found,rfl⟩ := Option.map_eq_some_iff.mp acted
    exact coherent.still rfl rfl (fun file => setFile_object file rfl)
      (fun other known present => ⟨known,present,samePlace_refl known⟩)
  | truncate oid =>
    rcases truncate_spec world after acted with written | ⟨inode,rel,found,path,_,staged⟩
    · exact coherent.write oid [] written
    · exact coherent.rehome found (clear inode found) path staged
  | rename oid target replaced => exact coherent.rename oid target replaced clear acted
  | unlink oid =>
    obtain ⟨inode,rel,found,path,linked,rfl⟩ := unlink_spec world after oid acted
    have here := coherent.at found linked path
    refine coherent.dropName ⟨inode.lowerPath.mnt,rel⟩ (· = oid) rfl rfl rfl
      (fun other different => update_of_ne different _ _) ?_ ?_
    · intro other known different present named
      exact different ((coherent.live present _ named).1.unique here)
    · rintro other known rfl present
      cases (update_self other _ _).symm.trans present
      exact ⟨rfl,here.named⟩
  | tick =>
    cases acted
    exact coherent.still rfl rfl (fun _ => rfl) (fun _ known present => ⟨known,present,samePlace_refl known⟩)

end Actions

section Operations

variable {world after : World}

def Proper (world : World) : Op → Prop
  | .moveCutover oid _ _ => ∀ inode, world.inodes oid = some inode → inode.linked = true
  | .openDestination loc object => ∃ inode, world.inodes object = some inode ∧ inode.linked = true ∧
      inode.relPath = some loc.rel ∧ inode.lowerPath.mnt ≠ loc.dir
  | .remove loc => ∀ file, world.names loc = some file → world.NotLive file
  | .lookupObject _ rel => ∀ tier file oid, world.names ⟨tier,rel⟩ = some file → (world.files file).oid = some oid →
      world.inodes oid = none → ∀ place copy, world.names ⟨place,rel⟩ = some copy → (world.files copy).object = oid
  | _ => True

variable (coherent : Coherent world)
include coherent

theorem Coherent.cutover (oid : Oid) (seq : Nat) (expected : Option Nat) (fault : CutoverFault)
    (linked : ∀ inode, world.inodes oid = some inode → inode.linked = true) :
    Coherent (movementCutover world oid seq expected fault).1 := by
  rcases movementCutover_spec world oid seq expected fault with
    ⟨stopped,errno,result,refused⟩ | ⟨inode,file,found,_,_,_,_,resolved,result⟩
  · rw [result]
    rcases refused with rfl | ⟨inode,state,found,rfl | ⟨file,rfl⟩⟩
    · exact coherent
    · exact coherent.still rfl rfl (fun _ => rfl) (setInode_place found rfl ⟨rfl,rfl,rfl,rfl,rfl⟩)
    · exact coherent.still rfl rfl (fun other => setFile_object other rfl)
        (setInode_place found rfl ⟨rfl,rfl,rfl,rfl,rfl⟩)
  · rw [result]
    obtain ⟨rel,here⟩ := coherent.linked found (linked inode found)
    have named := (resolveCutover_ok world oid resolved).2.1
    rw [cutoverDest,here.path] at named
    exact coherent.relocate here rfl rfl (fun other => setFile_object other rfl)
      (fun other different => update_of_ne different _ _) (update_self ..) here.path (linked inode found) rfl named

theorem Coherent.steady (steady : Steady world after) : Coherent after := by
  apply coherent.still steady.names steady.nextFile
  · intro file
    have same := congrArg LowerFile.object (steady.files file)
    exact same
  · intro oid inode found
    rw [steady.inodes] at found
    exact ⟨inode,found,samePlace_refl inode⟩

theorem Coherent.unused (loc : Loc) (names : after.names = (world.setName loc none).names)
    (nextFile : after.nextFile = world.nextFile) (files : after.files = world.files) (inodes : after.inodes = world.inodes)
    (unused : ∀ file, world.names loc = some file → world.NotLive file) : Coherent after := by
  apply coherent.dropName loc (fun _ => False) names nextFile files
  · intro other _
    rw [inodes]
  · intro other known _ present named
    exact unused _ named other known present rfl
  · exact fun _ _ changed => changed.elim

theorem Coherent.marked {oid : Oid} (marked : Marked oid world after) : Coherent after := by
  obtain rfl | ⟨inode,_,_,_,found,rfl⟩ := marked
  · exact coherent
  · exact coherent.still rfl rfl (fun _ => rfl) (setInode_place found rfl ⟨rfl,rfl,rfl,rfl,rfl⟩)

theorem Coherent.openDestination (loc : Loc) (object : Oid)
    (proper : Proper world (.openDestination loc object)) : Coherent (openDestination world loc object).1 := by
  obtain ⟨inode,found,linked,path,elsewhere⟩ := proper
  have here := coherent.at found linked path
  unfold Control.openDestination
  split
  · next absent =>
    -- The new file is one more copy of the object; its inode stays as it is.
    have created := coherent.create loc ⟨true,[],⟨createMode world.umask,world.clock,[]⟩,none,false,object⟩ object inode rfl absent
      (fun other known different _ there => different (there.unique here)) here.owned path linked here.tier (.inr here.named)
    refine created.still rfl rfl (fun _ => rfl) (fun other known present => ⟨known,?_,samePlace_refl known⟩)
    rw [World.setInode_inodes]
    split
    · next self =>
      subst self
      rw [← found]
      exact present
    · exact present
  · next file named =>
    dsimp only
    split
    · exact coherent.still rfl rfl (fun other => setFile_object other (here.owned loc.dir file named).symm)
        (fun _ known present => ⟨known,present,samePlace_refl known⟩)
    · exact coherent

theorem Coherent.instantiate (oid : Oid) (tier : Nat) (file : FileId) (rel : RelPath)
    (absent : world.inodes oid = none) (named : world.names ⟨tier,rel⟩ = some file)
    (owned : ∀ place copy, world.names ⟨place,rel⟩ = some copy → (world.files copy).object = oid) :
    Coherent (world.setInode oid (newInode tier file rel)) := by
  have bounded : Bounded (world.setInode oid (newInode tier file rel)) := by
    refine ⟨coherent.bounded.names,fun other known present => ?_⟩
    rw [World.setInode_inodes] at present
    split at present
    · cases present
      exact coherent.bounded.names _ _ named
    · exact coherent.bounded.lower other known present
  refine coherent.change (· = oid) bounded coherent.single (fun loc copy found => .inr ⟨loc,found⟩)
    (fun other different => update_of_ne different _ _) ?_ ?_ ?_
  · intro other known path _ _ _
    rfl
  · intro other known path place copy _ _ _ found
    exact ⟨found,rfl⟩
  · rintro other known rfl present
    cases (update_self other _ _).symm.trans present
    exact ⟨fun _ => ⟨rel,rfl,named,rfl,owned⟩,nofun⟩

theorem Coherent.perform (op : Op) (outcome : Outcome) (reply : Reply op) (proper : Proper world op)
    (performed : perform world op outcome = some (after,reply)) : Coherent after := by
  by_cases steady : op.steady = true
  · exact coherent.steady (perform_steady after outcome steady performed)
  rcases perform_after performed with
    rfl | rfl | ⟨oid,seq,expected,fault,rfl,rfl⟩ | ⟨source,destination,count,rfl,rfl⟩
  · exact coherent
  · cases op with
    | movePlan oid | moveComplete oid | moveRollback oid => exact coherent.marked (execOp_marked world oid (by simp [Op.marks]))
    | moveCutover oid seq expected => exact coherent.cutover oid seq expected .none proper
    | openDestination loc object => exact coherent.openDestination loc object proper
    | ioCopy source destination =>
      exact coherent.still rfl rfl (fun other => setFile_object other rfl)
        (fun _ known present => ⟨known,present,samePlace_refl known⟩)
    | remove loc =>
      simp only [execOp,remove]
      split
      · exact coherent
      · next file named => exact coherent.unused loc rfl rfl rfl rfl proper
    | lookupObject order rel =>
      rcases lookupObject_spec world order rel with same | ⟨tier,file,oid,named,stamped,absent,result⟩
      · rw [show (execOp world (.lookupObject order rel)).1 = world from same]
        exact coherent
      · rw [show (execOp world (.lookupObject order rel)).1 = _ from congrArg Prod.fst result]
        exact coherent.instantiate oid tier file rel absent named (proper tier file oid named stamped absent)
    | _ => exact absurd rfl steady
  · exact coherent.cutover oid seq expected fault proper
  · exact coherent.still rfl rfl (fun other => setFile_object other rfl)
      (fun _ known present => ⟨known,present,samePlace_refl known⟩)

omit coherent

end Operations

def displaces (oid : Oid) : Action → Bool
  | .rename source _ replaced => source = oid ∨ replaced = some oid
  | .unlink other => other = oid
  | _ => false

section Inodes

variable {world after : World} {oid : Oid} {before : Inode}

structure Keeps (displaced : Bool) (before later : Inode) : Prop where
  mnt : later.lowerPath.mnt = before.lowerPath.mnt
  staged : later.writeStaged = before.writeStaged
  drainTier : later.writeStagedDrainTier = before.writeStagedDrainTier
  linked : displaced = false → later.linked = before.linked
  path : displaced = false → later.relPath = before.relPath

variable (displaced : Bool)

theorem keeps_refl (inode : Inode) : Keeps displaced inode inode :=
  ⟨rfl,rfl,rfl,fun _ => rfl,fun _ => rfl⟩

variable {other : Oid} {later : Inode}

variable (found : world.inodes oid = some before)
include found

theorem keeps_setInode {inode : Inode}
    (present : world.inodes other = some inode) (updated : after.inodes = update world.inodes other (some later))
    (keeps : oid = other → Keeps displaced inode later) : ∃ later, after.inodes oid = some later ∧ Keeps displaced before later := by
  rw [updated,update_apply]
  split
  · next self =>
    subst self
    cases found.symm.trans present
    exact ⟨later,rfl,keeps rfl⟩
  · exact ⟨before,found,keeps_refl displaced before⟩

theorem write_keeps {content : Bytes}
    (written : write world other content = some after) : ∃ later, after.inodes oid = some later ∧ Keeps displaced before later := by
  obtain ⟨inode,present,rfl⟩ := Option.map_eq_some_iff.mp written
  exact keeps_setInode displaced found present rfl (fun _ => ⟨rfl,rfl,rfl,fun _ => rfl,fun _ => rfl⟩)

theorem rename_keeps {target : RelPath} (renamed : rename world other target replaced = some after) :
    ∃ later, after.inodes oid = some later ∧ Keeps (displaces oid (.rename other target replaced)) before later := by
  obtain ⟨inode,source,present,_,_,_,result⟩ := rename_spec world after other target replaced renamed
  have moved : ∃ later, (renameLower world other inode source target).inodes oid = some later ∧
      Keeps (displaces oid (.rename other target replaced)) before later := by
    apply keeps_setInode _ found present rfl
    rintro rfl
    exact ⟨rfl,rfl,rfl,by simp,by simp [displaces]⟩
  rcases result with ⟨_,rfl⟩ | ⟨victim,known,rfl,alive,different,_,_,rfl⟩
  · exact moved
  by_cases self : oid = victim
  · subst self
    cases found.symm.trans alive
    unfold dropReplaced
    split <;> refine ⟨_,update_self ..,rfl,rfl,rfl,?_,?_⟩ <;> simp [displaces]
  · unfold dropReplaced
    split <;> simpa [World.setInode,World.setName,update_of_ne self] using moved

omit found

def rehomes (world : World) (inode : Inode) : Bool :=
  ¬ world.pool.cacheMode ∧ shouldStageTruncate world inode

theorem rehomes_slower {inode : Inode} (moves : rehomes world inode = true) : inode.currentTier ≠ world.pool.fastestTier :=
  (of_decide_eq_true (of_decide_eq_true moves).2).2.2.1

variable (action : Action)

theorem act_inode (found : world.inodes oid = some before) (acted : act world action = some after) :
    ∃ later, after.inodes oid = some later ∧ (Keeps (displaces oid action) before later ∨
      ∃ file rel, action = .truncate oid ∧ before.relPath = some rel ∧ rehomes world before = true ∧
        later = rehomedInode world before file rel) := by
  have kept (same : after.inodes oid = world.inodes oid) : ∃ later, after.inodes oid = some later ∧
      (Keeps (displaces oid action) before later ∨ ∃ file rel, action = .truncate oid ∧ before.relPath = some rel ∧
        rehomes world before = true ∧ later = rehomedInode world before file rel) :=
    ⟨before,same.trans found,.inl (keeps_refl _ before)⟩
  cases action with
  | create other tier rel mode =>
    obtain ⟨_,absent,_,rfl⟩ := create_spec world after acted
    apply kept
    apply update_of_ne
    rintro rfl
    cases absent.symm.trans found
  | write other content =>
    obtain ⟨later,present,keeps⟩ := write_keeps (displaces oid (.write other content)) found acted
    exact ⟨later,present,.inl keeps⟩
  | setAttrs other attrs =>
    obtain ⟨inode,_,rfl⟩ := Option.map_eq_some_iff.mp acted
    exact kept rfl
  | truncate other =>
    rcases truncate_spec world after acted with written | ⟨inode,rel,present,path,stages,staged⟩
    · obtain ⟨later,present,keeps⟩ := write_keeps (displaces oid (.truncate other)) found written
      exact ⟨later,present,.inl keeps⟩
    have rehomed : ∃ file, after.inodes = update world.inodes other (some (rehomedInode world inode file rel)) := by
      rcases stage_spec world after rel staged with ⟨file,_,_,_,rfl⟩ | ⟨_,_,_,rfl⟩ <;> exact ⟨_,rfl⟩
    obtain ⟨file,updated⟩ := rehomed
    by_cases self : oid = other
    · subst self
      cases found.symm.trans present
      exact ⟨_,by rw [updated,update_self],.inr ⟨file,rel,rfl,path,decide_eq_true stages,rfl⟩⟩
    · exact kept (by rw [updated,update_of_ne self])
  | rename other target replaced =>
    obtain ⟨later,present,keeps⟩ := rename_keeps found acted
    exact ⟨later,present,.inl keeps⟩
  | unlink other =>
    obtain ⟨inode,rel,present,_,_,rfl⟩ := unlink_spec world after other acted
    rw [World.setInode_inodes]
    split
    · next self =>
      subst self
      cases found.symm.trans present
      refine ⟨_,rfl,.inl ⟨rfl,rfl,rfl,?_,?_⟩⟩ <;> simp [displaces]
    · exact ⟨before,found,.inl (keeps_refl _ before)⟩
  | tick =>
    cases acted
    exact kept rfl

theorem absent_setInode {inode : Inode} (absent : world.inodes oid = none)
    (present : world.inodes other = some inode) (updated : after.inodes = update world.inodes other (some later)) :
    after.inodes oid = none := by
  rw [updated,update_of_ne,absent]
  rintro rfl
  cases absent.symm.trans present

theorem act_fresh (absent : world.inodes oid = none) (acted : act world action = some after) {later : Inode}
    (present : after.inodes oid = some later) : later.writeStaged = false := by
  have unknown (gone : after.inodes oid = none) : later.writeStaged = false := by
    cases gone.symm.trans present
  cases action with
  | create other tier rel mode =>
    obtain ⟨_,_,_,rfl⟩ := create_spec world after acted
    rw [World.setInode_inodes] at present
    split at present
    · cases present
      rfl
    · cases absent.symm.trans present
  | write other content =>
    obtain ⟨inode,known,rfl⟩ := Option.map_eq_some_iff.mp acted
    exact unknown (absent_setInode absent known rfl)
  | setAttrs other attrs =>
    obtain ⟨inode,_,rfl⟩ := Option.map_eq_some_iff.mp acted
    exact unknown absent
  | truncate other =>
    rcases truncate_spec world after acted with written | ⟨inode,rel,known,_,_,staged⟩
    · obtain ⟨inode,known,rfl⟩ := Option.map_eq_some_iff.mp written
      exact unknown (absent_setInode absent known rfl)
    · rcases stage_spec world after rel staged with ⟨file,_,_,_,rfl⟩ | ⟨_,_,_,rfl⟩ <;>
        exact unknown (absent_setInode absent known rfl)
  | rename other target replaced =>
    obtain ⟨inode,source,known,_,_,_,result⟩ := rename_spec world after other target replaced acted
    have moved : (renameLower world other inode source target).inodes oid = none := absent_setInode absent known rfl
    rcases result with ⟨_,rfl⟩ | ⟨victim,dropped,rfl,alive,_,_,_,rfl⟩
    · exact unknown moved
    have different : oid ≠ victim := by
      rintro rfl
      cases absent.symm.trans alive
    apply unknown
    unfold dropReplaced
    split <;> simpa [World.setInode,World.setName,update_of_ne different] using moved
  | unlink other =>
    obtain ⟨inode,rel,known,_,_,rfl⟩ := unlink_spec world after other acted
    exact unknown (absent_setInode absent known rfl)
  | tick =>
    cases acted
    exact unknown absent

structure Adjusts (op : Op) (world after : World) : Prop where
  pool : after.pool = world.pool
  inodes : after.inodes = world.inodes ∨
    (∃ other inode later, world.inodes other = some inode ∧ after.inodes = update world.inodes other (some later) ∧
      (Keeps false inode later ∨ ∃ seq expected file, op = .moveCutover other seq expected ∧ later = switchedInode inode file)) ∨
    ∃ other tier file rel, world.inodes other = none ∧
      after.inodes = update world.inodes other (some (newInode tier file rel))

variable (op : Op)

theorem Adjusts.marked (marked : Marked other world after) : Adjusts op world after := by
  obtain rfl | ⟨inode,_,_,_,found,rfl⟩ := marked
  · exact ⟨rfl,.inl rfl⟩
  · exact ⟨rfl,.inr (.inl ⟨other,inode,_,found,rfl,.inl ⟨rfl,rfl,rfl,fun _ => rfl,fun _ => rfl⟩⟩)⟩

theorem cutover_adjusts (world : World) (other : Oid) (seq : Nat) (expected : Option Nat) (fault : CutoverFault) :
    Adjusts (.moveCutover other seq expected) world (movementCutover world other seq expected fault).1 := by
  rcases movementCutover_spec world other seq expected fault with
    ⟨stopped,errno,result,refused⟩ | ⟨inode,file,found,_,_,_,_,_,result⟩
  · rw [result]
    rcases refused with rfl | ⟨inode,state,found,rfl | ⟨file,rfl⟩⟩
    · exact ⟨rfl,.inl rfl⟩
    · exact .marked _ (.inr ⟨inode,_,_,_,found,rfl⟩)
    · exact ⟨rfl,.inr (.inl ⟨other,inode,_,found,rfl,.inl ⟨rfl,rfl,rfl,fun _ => rfl,fun _ => rfl⟩⟩)⟩
  · rw [result]
    exact ⟨rfl,.inr (.inl ⟨other,inode,_,found,rfl,.inr ⟨seq,expected,file,rfl,rfl⟩⟩)⟩

theorem execOp_adjusts (world : World) (op : Op) : Adjusts op world (execOp world op).1 := by
  have same {after : World} (pool : after.pool = world.pool) (inodes : after.inodes = world.inodes) : Adjusts op world after :=
    ⟨pool,.inl inodes⟩
  cases op with
  | movePlan other | moveComplete other | moveRollback other => exact .marked _ (execOp_marked world other (by simp [Op.marks]))
  | moveCutover other seq expected => exact cutover_adjusts world other seq expected .none
  | openDestination loc object =>
    simp only [execOp,openDestination]
    split
    · exact same rfl rfl
    · split <;> exact same rfl rfl
  | remove loc =>
    simp only [execOp,remove]
    split <;> exact same rfl rfl
  | lookupObject order rel =>
    rcases lookupObject_spec world order rel with unchanged | ⟨tier,file,oid,_,_,absent,result⟩
    · rw [show (execOp world (.lookupObject order rel)).1 = world from unchanged]
      exact same rfl rfl
    · rw [show (execOp world (.lookupObject order rel)).1 = _ from congrArg Prod.fst result]
      exact ⟨rfl,.inr (.inr ⟨oid,tier,file,rel,absent,rfl⟩)⟩
  | exec statement => exact same (execStatement_steady world statement).pool (execStatement_steady world statement).inodes
  | setLUNPin loc => exact same (setLUNPin_steady world loc).pool (setLUNPin_steady world loc).inodes
  | _ => exact same rfl rfl

theorem perform_adjusts {outcome : Outcome} {reply : Reply op} (performed : perform world op outcome = some (after,reply)) :
    Adjusts op world after := by
  rcases perform_after performed with
    rfl | rfl | ⟨other,seq,expected,fault,rfl,rfl⟩ | ⟨_,_,_,rfl,rfl⟩
  · exact ⟨rfl,.inl rfl⟩
  · exact execOp_adjusts world op
  · exact cutover_adjusts world other seq expected fault
  · exact ⟨rfl,.inl rfl⟩

theorem Adjusts.inode {op : Op} (adjusts : Adjusts op world after) (found : world.inodes oid = some before) :
    ∃ later, after.inodes oid = some later ∧ (Keeps false before later ∨
      ∃ seq expected file, op = .moveCutover oid seq expected ∧ later = switchedInode before file) := by
  rcases adjusts.inodes with same | ⟨other,inode,later,present,updated,change⟩ | ⟨other,tier,file,rel,absent,updated⟩
  · exact ⟨before,by rw [same,found],.inl (keeps_refl false before)⟩
  · rw [updated,update_apply]
    split
    · next self =>
      subst self
      cases found.symm.trans present
      exact ⟨later,rfl,change⟩
    · exact ⟨before,found,.inl (keeps_refl false before)⟩
  · rw [updated,update_of_ne]
    · exact ⟨before,found,.inl (keeps_refl false before)⟩
    · rintro rfl
      cases absent.symm.trans found

theorem Adjusts.fresh {op : Op} (adjusts : Adjusts op world after) (absent : world.inodes oid = none) (later : Inode)
    (present : after.inodes oid = some later) : later.writeStaged = false := by
  rcases adjusts.inodes with same | ⟨other,inode,later,known,updated,_⟩ | ⟨other,tier,file,rel,_,updated⟩
  · cases (absent.symm.trans (congrFun same oid).symm).trans present
  · cases (absent_setInode absent known updated).symm.trans present
  rw [updated,update_apply] at present
  split at present
  · cases present
    rfl
  · cases absent.symm.trans present

end Inodes

end Smoothfs.Coherence
