import Mathlib.Data.UInt
import Smoothfs.ColdLookup
import Smoothfs.Library.Content

/-! A truncate that moves a file from a slow tier to the fastest one and fails on
the way. Every step of it may fail, and the file is looked up afterwards with no
inode and no dentry in memory. -/
namespace Smoothfs.FailedTruncate

open ColdLookup
open Content (resize)

structure File where
  oid : Option Oid
  gen : Option Nat
  content : Bytes
  deriving DecidableEq, Repr

abbrev TierTree := Tree String File

abbrev LowerEntry := Tree.Entry String File

abbrev Tiers := ColdLookup.Tiers File

def withTree (tiers : Tiers) (tier : Nat) (tree : TierTree) : Tiers :=
  { tiers with trees := fun other => if other = tier then tree else tiers.trees other }

section Truncate

inductive Failure where
  | enotdir
  | eopnotsupp
  | errno (error : Errno)
  deriving DecidableEq, Repr

inductive Stage where
  | prepare
  | materialize (component : Nat) (made : Bool)
  | lookup
  | create
  | notifyChange
  | writeOid
  | writeGen
  | lower
  deriving DecidableEq, Repr

abbrev Faults := Stage → Option Failure

structure Inode where
  oid : Oid
  gen : Nat
  rel : List String
  lower : Place
  currentTier : Nat
  regular : Bool
  pinState : PinState
  deriving DecidableEq, Repr

def newFile : File := ⟨none,none,[]⟩

def amend (tree : TierTree) (path : List String) (change : File → File) : TierTree :=
  match tree.get path with
  | some entry => tree.setValue path (change entry.value)
  | none => tree

def shouldStageTruncate (pool : Pool) (inode : Inode) (size : Nat) : Bool :=
  pool.writeStaging ∧ inode.regular ∧ size = 0 ∧ inode.currentTier ≠ pool.fastestTier ∧ inode.pinState = .none ∧
    ¬pool.fastNearFull

/-- What it has made stays when it fails. -/
def materializeParentOnTier (tree : TierTree) (faults : Faults) : List String → TierTree × Except Failure Unit
  | [] => (tree,.ok ())
  | name::up =>
    match materializeParentOnTier tree faults up with
    | (above,.error failure) => (above,.error failure)
    | (above,.ok ()) =>
      match faults (.materialize up.length false) with
      | some failure => (above,.error failure)
      | none =>
        match above.get (name::up) with
        | some entry => if entry.isDir then (above,.ok ()) else (above,.error .enotdir)
        | none =>
          match above.insert (name::up) ⟨.dir,newFile⟩ with
          | .error _ => (above,.error (.errno .enoent))
          | .ok later =>
            match faults (.materialize up.length true) with
            | some failure => (later,.error failure)
            | none => (later,.ok ())

def createFast (tree : TierTree) (rel : List String) (faults : Faults) : TierTree × Except Failure Unit :=
  match materializeParentOnTier tree faults rel.tail with
  | (above,.error failure) => (above,.error failure)
  | (above,.ok ()) =>
    match faults .lookup with
    | some failure => (above,.error failure)
    | none =>
      match above.get rel with
      | some _ => (above,.ok ())
      | none =>
        match faults .create with
        | some failure => (above,.error failure)
        | none =>
          match above.insert rel ⟨.leaf,newFile⟩ with
          | .error _ => (above,.error (.errno .enoent))
          | .ok later => (later,.ok ())

def changeFast (tree : TierTree) (inode : Inode) (size : Nat) (faults : Faults) : TierTree × Except Failure Unit :=
  match faults .notifyChange with
  | some failure => (tree,.error failure)
  | none =>
    let cut := amend tree inode.rel fun file => { file with content := resize file.content size }
    match faults .writeOid with
    | some failure => (cut,.error failure)
    | none =>
      let named := amend cut inode.rel fun file => { file with oid := file.oid.or (some inode.oid) }
      match faults .writeGen with
      | some failure => (named,.error failure)
      | none => (amend named inode.rel fun file => { file with gen := some inode.gen },.ok ())

/-- No failure takes back what was done on the fastest tier. -/
def stageTruncateToFast (tiers : Tiers) (inode : Inode) (size : Nat) (faults : Faults) :
    Tiers × Except Failure Unit :=
  if tiers.pool.cacheMode || !shouldStageTruncate tiers.pool inode size then (tiers,.error .eopnotsupp)
  else
    match createFast (tiers.trees tiers.pool.fastestTier) inode.rel faults with
    | (tree,.error failure) => (withTree tiers tiers.pool.fastestTier tree,.error failure)
    | (tree,.ok ()) =>
      let changed := changeFast tree inode size faults
      (withTree tiers tiers.pool.fastestTier changed.1,changed.2)

def truncateLower (tiers : Tiers) (inode : Inode) (size : Nat) (faults : Faults) : Tiers × Except Failure Unit :=
  match faults .lower with
  | some failure => (tiers,.error failure)
  | none =>
    (withTree tiers inode.lower.tier (amend (tiers.trees inode.lower.tier) inode.lower.path
      fun file => { file with content := resize file.content size }),.ok ())

def setattrInner (tiers : Tiers) (inode : Inode) (size : Nat) (faults : Faults) :
    Tiers × Except Failure Unit :=
  match faults .prepare with
  | some failure => (tiers,.error failure)
  | none =>
    match stageTruncateToFast tiers inode size faults with
    | (later,.error .eopnotsupp) => truncateLower later inode size faults
    | result => result

/-- No step of the directories of a path fails; one is made where there is none. -/
def ParentMade (tree : TierTree) (faults : Faults) (path : List String) : Prop :=
  ∀ name up, name::up <:+ path → faults (.materialize up.length false) = none ∧
    (tree.get (name::up) = none → faults (.materialize up.length true) = none)

/-- No step fails up to the copy on the fastest tier. -/
structure Copied (tree : TierTree) (rel : List String) (faults : Faults) : Prop where
  parents : ParentMade tree faults rel.tail
  lookup : faults .lookup = none
  create : faults .create = none

/-- The truncate comes to the changes of the copy. -/
structure Late (tiers : Tiers) (inode : Inode) (size : Nat) (faults : Faults) : Prop where
  prepare : faults .prepare = none
  tiered : tiers.pool.cacheMode = false
  staged : shouldStageTruncate tiers.pool inode size = true
  copied : Copied (tiers.trees tiers.pool.fastestTier) inode.rel faults

/-- With all caches dropped the path leads to an object with this OID and content. -/
def Leads (tiers : Tiers) (path : List String) (oid : Oid) (content : Bytes) : Prop :=
  ∃ place entry, lookupCold tiers path = some place ∧ (tiers.trees place.tier).get place.path = some entry ∧
    entry.value.oid = some oid ∧ entry.value.content = content

end Truncate

section Grown

structure Grown (tree later : TierTree) (path : List String) : Prop where
  changes : ∀ other, later.get other = tree.get other ∨
    other <:+ path ∧ tree.get other = none ∧ ∃ value, later.get other = some ⟨.dir,value⟩

variable {tree later : TierTree} {path : List String} {faults : Faults} {failure : Failure}

theorem Grown.refl (tree : TierTree) (path : List String) : Grown tree tree path := ⟨fun _ => .inl rfl⟩

theorem Grown.cons {name : String} (grown : Grown tree later path) : Grown tree later (name::path) := by
  refine ⟨fun other => ?_⟩
  rcases grown.changes other with same | ⟨above,made⟩
  · exact .inl same
  · exact .inr ⟨above.trans (List.suffix_cons name path),made⟩

theorem Grown.insert {name : String} {last : TierTree} {value : File} (grown : Grown tree later path)
    (made : later.insert (name::path) ⟨.dir,value⟩ = .ok last) : Grown tree last (name::path) := by
  refine ⟨fun other => ?_⟩
  rw [Tree.get_insert made]
  split
  next here =>
    have vacant := Tree.absent_of_insert made
    rcases grown.changes (name::path) with same | ⟨above,_⟩
    · rw [vacant] at same
      rw [here]
      exact .inr ⟨List.suffix_rfl,same.symm,value,rfl⟩
    · have longer := above.length_le
      simp at longer
  next => exact grown.cons.changes other

theorem materializeParentOnTier_grown (tree : TierTree) (faults : Faults) (path : List String) :
    Grown tree (materializeParentOnTier tree faults path).1 path := by
  induction path with
  | nil => exact .refl tree []
  | cons name up ih =>
    unfold materializeParentOnTier
    split
    next above failure failed =>
      rw [failed] at ih
      exact ih.cons
    next above passed =>
    rw [passed] at ih
    split
    · exact ih.cons
    split
    · split
      · exact ih.cons
      · exact ih.cons
    split
    · exact ih.cons
    next made =>
    split
    · exact ih.insert made
    · exact ih.insert made

theorem Grown.below (grown : Grown tree later path) (name : String) : later.get (name::path) = tree.get (name::path) := by
  refine (grown.changes (name::path)).resolve_right fun ⟨above,_⟩ => ?_
  have longer := above.length_le
  simp at longer

theorem insert_leaf {rel : List String} {entry : LowerEntry} (proper : rel ≠ []) (absent : tree.get rel = none)
    (directory : tree.isDir rel.tail = true) : ∃ later, tree.insert rel entry = .ok later := by
  unfold Tree.insert
  rw [dif_pos ⟨proper,absent⟩,dif_pos directory]
  exact ⟨_,rfl⟩

theorem parentMade_cons {name : String} {up : List String} : ParentMade tree faults (name::up) ↔ ParentMade tree faults up ∧
    faults (.materialize up.length false) = none ∧ (tree.get (name::up) = none → faults (.materialize up.length true) = none) := by
  constructor
  · exact fun made => ⟨fun other above within => made other above (within.trans (List.suffix_cons _ _)),made name up List.suffix_rfl⟩
  · rintro ⟨above,here⟩ other higher within
    rcases List.suffix_cons_iff.mp within with same | inside
    · cases same
      exact here
    · exact above other higher inside

/-- Where all that is there are directories, the parent is made just when no step of it fails. -/
theorem materialize_spec (dirs : ∀ part ∈ path.tails, (tree.get part).all Tree.Entry.isDir = true) :
    match materializeParentOnTier tree faults path with
    | (above,.ok ()) => above.isDir path = true ∧ ParentMade tree faults path
    | (_,.error _) => ¬ParentMade tree faults path := by
  induction path with
  | nil => exact ⟨Tree.isDir_root,fun name up above => by simp at above⟩
  | cons name up ih =>
    have own := dirs (name::up) ((List.mem_tails _ _).mpr List.suffix_rfl)
    have higher := ih fun part within => dirs part
      ((List.mem_tails _ _).mpr (((List.mem_tails _ _).mp within).trans (List.suffix_cons _ _)))
    have grown := materializeParentOnTier_grown tree faults up
    rw [materializeParentOnTier]
    rcases made : materializeParentOnTier tree faults up with ⟨above,failure | _⟩ <;> rw [made] at higher grown
    · exact fun all => higher (parentMade_cons.mp all).1
    obtain ⟨directory,parents⟩ := higher
    dsimp only
    cases first : faults (.materialize up.length false) with
    | some failure => exact fun all => by simpa [first] using (parentMade_cons.mp all).2.1
    | none =>
      dsimp only
      rw [grown.below name]
      cases there : tree.get (name::up) with
      | some entry =>
        rw [there] at own
        have kept : entry.isDir = true := own
        simp only [kept,if_true]
        exact ⟨Tree.isDir_iff.mpr (.inr ⟨entry,(grown.below name).trans there,kept⟩),parentMade_cons.mpr ⟨parents,first,by simp [there]⟩⟩
      | none =>
        obtain ⟨later,inserted⟩ := @insert_leaf above (name::up) ⟨.dir,newFile⟩ (by simp) ((grown.below name).trans there) directory
        simp only [inserted]
        cases second : faults (.materialize up.length true) with
        | some failure => exact fun all => by simpa [second] using (parentMade_cons.mp all).2.2 there
        | none =>
          refine ⟨Tree.isDir_iff.mpr (.inr ⟨⟨.dir,newFile⟩,?_,rfl⟩),parentMade_cons.mpr ⟨parents,first,fun _ => second⟩⟩
          rw [Tree.get_insert inserted,if_pos rfl]

variable {rel : List String}

/-- On a tier without the path, the copy is made just when no step of it fails. -/
theorem createFast_spec (proper : rel ≠ []) (vacant : tree.get rel = none)
    (dirs : ∀ part ∈ rel.tail.tails, (tree.get part).all Tree.Entry.isDir = true) :
    match createFast tree rel faults with
    | (later,.ok ()) => Copied tree rel faults ∧ ∃ above, Grown tree above rel.tail ∧ above.insert rel ⟨.leaf,newFile⟩ = .ok later
    | (later,.error _) => ¬Copied tree rel faults ∧ Grown tree later rel.tail := by
  have grown := materializeParentOnTier_grown tree faults rel.tail
  have parent := @materialize_spec tree rel.tail faults dirs
  unfold createFast
  rcases made : materializeParentOnTier tree faults rel.tail with ⟨above,failure | _⟩ <;> rw [made] at parent grown
  · exact ⟨fun copied => parent copied.parents,grown⟩
  obtain ⟨directory,parents⟩ := parent
  dsimp only
  cases looked : faults .lookup with
  | some failure => exact ⟨fun copied => by simpa [looked] using copied.lookup,grown⟩
  | none =>
    obtain ⟨name,up,rfl⟩ := List.exists_cons_of_ne_nil proper
    have absent : above.get (name::up) = none := (grown.below name).trans vacant
    rw [absent]
    cases created : faults .create with
    | some failure => exact ⟨fun copied => by simpa [created] using copied.create,grown⟩
    | none =>
      obtain ⟨later,inserted⟩ := @insert_leaf above (name::up) ⟨.leaf,newFile⟩ nofun absent directory
      simp only [inserted]
      exact ⟨⟨parents,looked,created⟩,above,grown,inserted⟩

end Grown

section Failing

variable {tiers later : Tiers} {path : List String}

structure OnlyParents (tiers later : Tiers) (path : List String) : Prop where
  pool : later.pool = tiers.pool
  mask : later.mask = tiers.mask
  grown : ∀ tier, Grown (tiers.trees tier) (later.trees tier) path.tail

theorem OnlyParents.refl (tiers : Tiers) (path : List String) : OnlyParents tiers tiers path :=
  ⟨rfl,rfl,fun tier => .refl (tiers.trees tier) path.tail⟩

theorem OnlyParents.of_grown {tier : Nat} {tree : TierTree} (grown : Grown (tiers.trees tier) tree path.tail) :
    OnlyParents tiers (withTree tiers tier tree) path := by
  refine ⟨rfl,rfl,fun other => ?_⟩
  by_cases here : other = tier
  · simpa [withTree,here] using grown
  · simpa [withTree,here] using Grown.refl (tiers.trees other) path.tail

variable {inode : Inode} {size : Nat} {faults : Faults} {failure : Failure}

/-- The copy is on the fastest tier, and one of its changes failed. -/
structure LeftCopy (tiers later : Tiers) (inode : Inode) (size : Nat) (faults : Faults) : Prop where
  late : Late tiers inode size faults
  left : ∃ above copy, Grown (tiers.trees tiers.pool.fastestTier) above inode.rel.tail ∧
    above.insert inode.rel ⟨.leaf,newFile⟩ = .ok copy ∧
    later = withTree tiers tiers.pool.fastestTier (changeFast copy inode size faults).1

theorem setattrInner_failed (tiered : tiers.pool.cacheMode = false) (proper : inode.rel ≠ [])
    (vacant : (tiers.trees tiers.pool.fastestTier).get inode.rel = none)
    (dirs : ∀ part ∈ inode.rel.tail.tails, ((tiers.trees tiers.pool.fastestTier).get part).all Tree.Entry.isDir = true)
    (failed : setattrInner tiers inode size faults = (later,.error failure)) :
    ¬Late tiers inode size faults ∧ OnlyParents tiers later inode.rel ∨ LeftCopy tiers later inode size faults := by
  have lowered {staged : Tiers} (failed : truncateLower staged inode size faults = (later,.error failure)) : later = staged := by
    unfold truncateLower at failed
    split at failed <;> cases failed
    rfl
  have copying := @createFast_spec (tiers.trees tiers.pool.fastestTier) faults inode.rel proper vacant dirs
  unfold setattrInner at failed
  cases prepared : faults .prepare with
  | some early =>
    rw [prepared] at failed
    cases failed
    exact .inl ⟨fun late => by simpa [prepared] using late.prepare,.refl tiers inode.rel⟩
  | none =>
    rw [prepared] at failed
    dsimp only at failed
    unfold stageTruncateToFast at failed
    by_cases staged : shouldStageTruncate tiers.pool inode size = true
    · rw [if_neg (by simp [tiered,staged])] at failed
      rcases made : createFast (tiers.trees tiers.pool.fastestTier) inode.rel faults with ⟨tree,early | _⟩ <;> rw [made] at failed copying
      · refine .inl ⟨fun late => copying.1 late.copied,?_⟩
        have same : later = withTree tiers tiers.pool.fastestTier tree := by
          dsimp only at failed
          split at failed
          · next stopped => cases stopped; exact lowered failed
          · cases failed; rfl
        rw [same]
        exact .of_grown copying.2
      · obtain ⟨copied,above,grown,inserted⟩ := copying
        refine .inr ⟨⟨prepared,tiered,staged,copied⟩,above,tree,grown,inserted,?_⟩
        split at failed
        · next stopped => exact (lowered failed).trans (congrArg Prod.fst stopped).symm
        · exact (congrArg Prod.fst failed).symm
    · rw [if_pos (by simp [staged])] at failed
      refine .inl ⟨fun late => staged late.staged,?_⟩
      rw [lowered failed]
      exact .refl tiers inode.rel

theorem get_amend {tree : TierTree} {entry : LowerEntry} (there : tree.get path = some entry) (change : File → File) (other : List String) :
    (amend tree path change).get other = if other = path then some ⟨entry.kind,change entry.value⟩ else tree.get other := by
  unfold amend
  rw [there]
  dsimp only
  rw [Tree.get_setValue]
  split
  · next same => rw [same,there]; rfl
  · rfl

/-- What the changes leave of a new copy: empty, and with the OID if that was written. -/
theorem changeFast_get {tree : TierTree} (there : tree.get inode.rel = some ⟨.leaf,newFile⟩) :
    ∃ file, (∀ other, (changeFast tree inode 0 faults).1.get other =
        if other = inode.rel then some ⟨.leaf,file⟩ else tree.get other) ∧ file.content = [] ∧
      (file.oid = some inode.oid ↔ faults .notifyChange = none ∧ faults .writeOid = none) := by
  unfold changeFast
  cases notified : faults .notifyChange with
  | some failure => exact ⟨newFile,fun other => by split <;> simp_all,rfl,by simp [newFile]⟩
  | none =>
    have cut := get_amend there fun file => { file with content := resize file.content 0 }
    have empty : resize newFile.content 0 = [] := rfl
    cases named : faults .writeOid with
    | some failure => exact ⟨_,cut,empty,by simp [newFile]⟩
    | none =>
      have second := get_amend ((cut inode.rel).trans (if_pos rfl)) fun file => { file with oid := file.oid.or (some inode.oid) }
      have oid : newFile.oid.or (some inode.oid) = some inode.oid := rfl
      cases faults .writeGen with
      | some failure => exact ⟨_,fun other => by dsimp only; rw [second,cut]; split <;> rfl,empty,by simp [oid]⟩
      | none =>
        have third := get_amend ((second inode.rel).trans (if_pos rfl)) fun file => { file with gen := some inode.gen }
        exact ⟨_,fun other => by dsimp only; rw [third,second,cut]; split <;> rfl,empty,by simp [oid]⟩

theorem LeftCopy.leads_iff (left : LeftCopy tiers later inode size faults) (proper : inode.rel ≠ [])
    (plain : Plain tiers inode.rel) (content : Bytes) :
    Leads later inode.rel inode.oid content ↔ faults .notifyChange = none ∧ faults .writeOid = none ∧ content = [] := by
  obtain ⟨late,above,copy,grown,inserted,rfl⟩ := left
  have none : size = 0 := (of_decide_eq_true late.staged).2.2.1
  subst none
  obtain ⟨file,gets,empty,oid⟩ := @changeFast_get inode faults copy (by rw [Tree.get_insert inserted,if_pos rfl])
  have tiered := late.tiered
  have listed : order tiers = tiers.pool.fastestTier::Lookup.activeTiers tiers.pool tiers.mask := by
    simp [order,rootTier,tiered]
  have fast : ((withTree tiers tiers.pool.fastestTier (changeFast copy inode 0 faults).1).trees tiers.pool.fastestTier).get inode.rel =
      some ⟨.leaf,file⟩ := by
    simp only [withTree,if_true]
    rw [gets,if_pos rfl]
  have still : Plain (withTree tiers tiers.pool.fastestTier (changeFast copy inode 0 faults).1) inode.rel := by
    intro tier member
    by_cases here : tier = tiers.pool.fastestTier
    · subst here
      obtain ⟨dirs,_⟩ := plain _ (by rw [listed]; exact List.mem_cons_self)
      refine ⟨fun part within => ?_,by rw [fast]; rfl⟩
      have other : part ≠ inode.rel := by
        rintro rfl
        have shorter := ((List.mem_tails _ _).mp within).length_le
        have proper := List.length_pos_iff.mpr proper
        rw [List.length_tail] at shorter
        omega
      simp only [withTree,if_true]
      rw [gets,if_neg other,Tree.get_insert inserted,if_neg other]
      rcases grown.changes part with same | ⟨_,_,value,made⟩
      · rw [same]
        exact dirs part within
      · rw [made]
        rfl
    · have same : (withTree tiers tiers.pool.fastestTier (changeFast copy inode 0 faults).1).trees tier = tiers.trees tier := if_neg here
      rw [same]
      exact plain tier member
  have first : lookupCold (withTree tiers tiers.pool.fastestTier (changeFast copy inode 0 faults).1) inode.rel =
      some ⟨tiers.pool.fastestTier,inode.rel⟩ := by
    have head : firstTier (withTree tiers tiers.pool.fastestTier (changeFast copy inode 0 faults).1) inode.rel =
        some tiers.pool.fastestTier := by
      unfold firstTier
      have same : order (withTree tiers tiers.pool.fastestTier (changeFast copy inode 0 faults).1) = order tiers := rfl
      rw [same,listed,List.find?_cons,has,fast]
      simp
    rw [lookupCold_first still,head]
    rfl
  constructor
  · rintro ⟨place,entry,led,there,named,same⟩
    rw [first] at led
    cases led
    rw [fast] at there
    cases there
    exact ⟨(oid.mp named).1,(oid.mp named).2,same ▸ empty⟩
  · rintro ⟨notified,written,rfl⟩
    exact ⟨_,_,first,fast,oid.mpr ⟨notified,written⟩,empty⟩

variable (parents : OnlyParents tiers later path)

include parents

theorem OnlyParents.order : order later = order tiers := by
  unfold ColdLookup.order
  rw [parents.pool,parents.mask]

theorem OnlyParents.get (proper : path ≠ []) (tier : Nat) : (later.trees tier).get path = (tiers.trees tier).get path := by
  rcases (parents.grown tier).changes path with same | ⟨above,_⟩
  · exact same
  cases path with
  | nil => exact absurd rfl proper
  | cons name up =>
    have longer := above.length_le
    simp at longer

theorem OnlyParents.plain (proper : path ≠ []) (plain : Plain tiers path) : Plain later path := by
  intro tier member
  rw [parents.order] at member
  obtain ⟨dirs,last⟩ := plain tier member
  constructor
  · intro part above
    rcases (parents.grown tier).changes part with same | ⟨_,_,value,made⟩
    · rw [same]
      exact dirs part above
    · rw [made]
      rfl
  · rwa [parents.get proper tier]

theorem OnlyParents.lookupCold (proper : path ≠ []) (plain : Plain tiers path) : lookupCold later path = lookupCold tiers path := by
  have same : has later path = has tiers path := by
    funext tier
    simp [has,parents.get proper tier]
  rw [lookupCold_first plain,lookupCold_first (parents.plain proper plain),firstTier,firstTier,parents.order,same]

end Failing

/-- A truncate that fails leaves what the path leads to just when it failed before the copy was
there, or the file was empty and the copy has its OID. -/
theorem failed_truncate_leaves_the_file {tiers later : Tiers} {inode : Inode} {size : Nat} {faults : Faults}
    {failure : Failure} {entry : LowerEntry} (tiered : tiers.pool.cacheMode = false) (plain : Plain tiers inode.rel)
    (leads : lookupCold tiers inode.rel = some inode.lower) (slow : inode.lower.tier ≠ tiers.pool.fastestTier)
    (there : (tiers.trees inode.lower.tier).get inode.lower.path = some entry) (owned : entry.value.oid = some inode.oid)
    (failed : setattrInner tiers inode size faults = (later,.error failure)) :
    Leads later inode.rel inode.oid entry.value.content ↔ (Late tiers inode size faults →
      faults .notifyChange = none ∧ faults .writeOid = none ∧ entry.value.content = []) := by
  obtain ⟨itself,vacant⟩ : inode.lower.path = inode.rel ∧ (tiers.trees tiers.pool.fastestTier).get inode.rel = none := by
    rw [lookupCold_first plain,Option.map_eq_some_iff] at leads
    obtain ⟨tier,first,same⟩ := leads
    refine ⟨by rw [← same],?_⟩
    by_contra there
    have head : firstTier tiers inode.rel = some tiers.pool.fastestTier := by
      simp [firstTier,order,rootTier,tiered,has,Option.isSome_iff_ne_none,there]
    rw [head] at first
    cases first
    exact slow (by rw [← same])
  have proper : inode.rel ≠ [] := by
    intro root
    rw [itself,root,Tree.get_root] at there
    cases there
  have dirs := (plain tiers.pool.fastestTier (by simp [order,rootTier,tiered])).1
  rcases setattrInner_failed tiered proper vacant dirs failed with ⟨early,parents⟩ | left
  · refine iff_of_true ⟨inode.lower,entry,?_,?_,owned,rfl⟩ fun late => absurd late early
    · rw [parents.lookupCold proper plain,leads]
    · rw [itself,parents.get proper,← itself]
      exact there
  · rw [left.leads_iff proper plain]
    exact ⟨fun met _ => met,fun met => met left.late⟩

section Runs

def twoTiers : Pool := ⟨2,0,false,false,true,false⟩

def storedFile : File := ⟨some 7,some 0,[1,2,3]⟩

def stored : TierTree :=
  ⟨[(["docs"],⟨.dir,newFile⟩),(["report","docs"],⟨.leaf,storedFile⟩)],by decide,by decide,by decide⟩

def slowPool : Tiers := ⟨twoTiers,3,fun tier => if tier = 1 then stored else Tree.empty⟩

def slowInode : Inode := ⟨7,0,["report","docs"],⟨1,["report","docs"]⟩,1,true,.none⟩

def failingAt (stage : Stage) : Faults := fun other => if other = stage then some (.errno .eio) else none

def failing (stage : Stage) : Tiers × Except Failure Unit := setattrInner slowPool slowInode 0 (failingAt stage)

theorem failed_create_leaves_the_file : ∃ later, failing .create = (later,.error (.errno .eio)) ∧
    (later.trees 0).get ["docs"] = some ⟨.dir,newFile⟩ ∧ Leads later ["report","docs"] 7 [1,2,3] := by
  have computed : (failing .create).2 = .error (.errno .eio) ∧
      ((failing .create).1.trees 0).get ["docs"] = some ⟨.dir,newFile⟩ := by decide +kernel
  have failed : failing .create = ((failing .create).1,.error (.errno .eio)) := Prod.ext rfl computed.1
  have plain : Plain slowPool slowInode.rel := by decide +kernel
  have leads : lookupCold slowPool slowInode.rel = some slowInode.lower := by decide +kernel
  have there : (slowPool.trees slowInode.lower.tier).get slowInode.lower.path = some ⟨.leaf,storedFile⟩ := by decide +kernel
  exact ⟨_,failed,computed.2,(failed_truncate_leaves_the_file rfl plain leads (by decide) there rfl failed).mpr
    fun late => nomatch late.copied.create⟩

/-- The identity cannot be written to the copy, and the copy stays. -/
theorem failed_truncate_leaves_an_empty_copy : ∃ later, failing .writeOid = (later,.error (.errno .eio)) ∧
    lookupCold slowPool ["report","docs"] = some ⟨1,["report","docs"]⟩ ∧
    (slowPool.trees 1).get ["report","docs"] = some ⟨.leaf,⟨some 7,some 0,[1,2,3]⟩⟩ ∧
    lookupCold later ["report","docs"] = some ⟨0,["report","docs"]⟩ ∧
    (later.trees 0).get ["report","docs"] = some ⟨.leaf,⟨none,none,[]⟩⟩ := by
  have error : (failing .writeOid).2 = .error (.errno .eio) := by decide +kernel
  refine ⟨(failing .writeOid).1,Prod.ext rfl error,?_⟩
  decide +kernel

end Runs

end Smoothfs.FailedTruncate
