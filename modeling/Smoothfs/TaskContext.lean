import Smoothfs.Library.Mounts

/-! Names that the module spells out and looks up again. The tier roots are held as
places, but the placement log and the files of the recovery index are reached by a
text that `kern_path` resolves for the calling task: from its root or its working
directory, over the mounts of its namespace. -/
namespace Smoothfs.TaskContext
open Mounts (Place Context)

abbrev Vfs := Mounts String Unit

inductive Failure where
  | walk (error : Tree.Error)
  | nameTooLong
  | noMemory
  deriving DecidableEq, Repr

structure Spelling where
  absolute : Bool
  names : List String
  length : Nat
  deriving DecidableEq, Repr

def spelled (names : List String) : Nat :=
  names.foldr (fun name length => name.utf8ByteSize + 1 + length) 0

def Spelling.below (name : Spelling) (rest : List String) : Spelling :=
  ⟨name.absolute,name.names ++ rest,name.length + spelled rest⟩

def rooted (names : List String) : Spelling := ⟨true,names,max 1 (spelled names)⟩

def pathMax : Nat := 4096

def maxLinks : Nat := 40

/-- `%pd4`: the last four names of a dentry, with a slash only when they go up to the root of its
file system. -/
def pd4 (path : List String) : Spelling :=
  if path.length < 4 then rooted path.reverse
  else ⟨false,(path.take 4).reverse,spelled (path.take 4) - 1⟩

def startOf (task : Context String) (name : Spelling) : Place String := if name.absolute then task.root else task.cwd

def kernPath (vfs : Vfs) (task : Context String) (name : Spelling) : Except Failure (Place String) :=
  if pathMax ≤ name.length then .error .nameTooLong
  else (vfs.follow task.root maxLinks (startOf task name) (name.names.map some)).mapError .walk

/-- The place's name as `d_path` renders it for the task; a component takes two bytes
or more. -/
def tierRootString (vfs : Vfs) (task : Context String) (tier : Place String) : Option Spelling :=
  ((vfs.nameOf task.root (pathMax / 2) tier).map rooted).filter fun name => name.length < pathMax

def resolveRelPath (vfs : Vfs) (task : Context String) (tier : Place String) (rel : List String) :
    Except Failure (Place String) :=
  match tierRootString vfs task tier with
  | none => .error .noMemory
  | some root => kernPath vfs task (root.below rel)

def placementDir : String := ".smoothfs"

def placementFile : List String := [placementDir,"placement.log"]

def setTree (vfs : Vfs) (mount : Nat) (tree : Tree String Unit) : Vfs :=
  match vfs.table[mount]? with
  | none => vfs
  | some shown => {vfs with volumes := fun volume => if volume = shown.volume then tree else vfs.volumes volume}

def placementEnsureDir (vfs : Vfs) (tier : Place String) : Except Failure Vfs :=
  match (vfs.tree tier.mount).get (placementDir::tier.path) with
  | some _ => .ok vfs
  | none => (((vfs.tree tier.mount).insert (placementDir::tier.path) ⟨.dir,()⟩).map (setTree vfs tier.mount)).mapError .walk

def dentryOpen (vfs : Vfs) (found : Place String) : Except Failure (Place String) :=
  if vfs.isDir found then .error (.walk .isDirectory) else .ok found

structure Recorded where
  tier : Nat
  rel : List String
  deriving DecidableEq, Repr

structure ReplayRecord where
  chosen : Option Recorded
  fallback : Option Recorded
  deriving DecidableEq, Repr

/-- The pinned tier roots, the objects in memory with their lower files, and the recovered index. -/
structure Pool where
  vfs : Vfs
  tiers : List (Place String)
  fastest : Nat
  cacheMode : Bool
  ready : Bool
  live : Nat → Option (Place String)
  records : Nat → Option ReplayRecord

def recordedPlace (pool : Pool) (record : ReplayRecord) : Option (Place String × List String) :=
  match record.chosen.orElse fun _ => record.fallback with
  | none => none
  | some chosen =>
    if chosen.tier < pool.tiers.length then
      (pool.tiers[if pool.cacheMode then pool.tiers.length - 1 else chosen.tier]?).map fun tier => (tier,chosen.rel)
    else none

def replayInstantiateOne (pool : Pool) (task : Context String) (record : ReplayRecord) : Option (Place String) :=
  (recordedPlace pool record).bind fun (tier,rel) => (resolveRelPath pool.vfs task tier rel).toOption

def recoveryResolveOid (pool : Pool) (task : Context String) (oid : Nat) : Option (Place String) :=
  if pool.ready then (pool.live oid).orElse fun _ => (pool.records oid).bind (replayInstantiateOne pool task)
  else none

/-- The name leads the task to the tier root. -/
def Regains (vfs : Vfs) (task : Context String) (name : Spelling) (tier : Place String) : Prop :=
  vfs.into (startOf task name) name.names = some tier

instance (vfs : Vfs) (task : Context String) (name : Spelling) (tier : Place String) : Decidable (Regains vfs task name tier) :=
  inferInstanceAs (Decidable (_ = some tier))

def Reaches (vfs : Vfs) (task : Context String) (name : Spelling) (found : Place String) : Prop :=
  name.length < pathMax ∧ vfs.descend task.root (startOf task name) (name.names.map some) = .reached found

/-- The task gets back to the tier root by its name, or nothing has the path below the tier root, nor
the text made of both. -/
def Seen (vfs : Vfs) (task : Context String) (tier : Place String) (rel : List String) : Prop :=
  (∃ name ∈ tierRootString vfs task tier, (name.below rel).length < pathMax ∧ Regains vfs task name tier) ∨
    (∀ found, vfs.descend tier tier (rel.map some) ≠ .reached found) ∧
      ∀ name ∈ tierRootString vfs task tier, ∀ found, ¬ Reaches vfs task (name.below rel) found

def LogSeen (vfs : Vfs) (task : Context String) (tier : Place String) : Prop :=
  kernPath vfs task ((pd4 tier.path).below placementFile) = .error (.walk .missing) ∨
    ((pd4 tier.path).below placementFile).length < pathMax ∧ Regains vfs task (pd4 tier.path) tier

instance (vfs : Vfs) (task : Context String) (tier : Place String) : Decidable (LogSeen vfs task tier) :=
  inferInstanceAs (Decidable (_ ∨ _))

structure Clear (pool : Pool) (task : Context String) : Prop where
  log : ∀ tier ∈ pool.tiers[pool.fastest]?, ∀ made, placementEnsureDir pool.vfs tier = .ok made → LogSeen made task tier
  recorded : pool.ready = true → ∀ oid, pool.live oid = none → ∀ record ∈ pool.records oid,
    ∀ place ∈ recordedPlace pool record, Seen pool.vfs task place.1 place.2

/-- The walk meets no link. -/
def Direct (vfs : Vfs) (root start : Place String) (names : List String) : Prop :=
  (vfs.descend root start (names.map some)).isLink = false

instance (vfs : Vfs) (root start : Place String) (names : List String) : Decidable (Direct vfs root start names) :=
  inferInstanceAs (Decidable (_ = false))

/-- The task's root and working directory and the tier roots are places of their mounts, an object
has a name below its tier root, and no link is met on the way to the log or to an object. -/
structure Plain (pool : Pool) (task : Context String) : Prop where
  root : pool.vfs.Inside task.root
  cwd : pool.vfs.Inside task.cwd
  tiers : ∀ tier ∈ pool.tiers, pool.vfs.Inside tier
  log : ∀ tier ∈ pool.tiers[pool.fastest]?, ∀ made, placementEnsureDir pool.vfs tier = .ok made →
    Direct made tier tier placementFile ∧
      Direct made task.root (startOf task (pd4 tier.path)) ((pd4 tier.path).names ++ placementFile)
  recorded : ∀ oid, ∀ record ∈ pool.records oid, ∀ place ∈ recordedPlace pool record, place.2 ≠ [] ∧
    Direct pool.vfs place.1 place.1 place.2 ∧
      ∀ name ∈ tierRootString pool.vfs task place.1, Direct pool.vfs task.root (startOf task name) (name.names ++ place.2)

section Walks

variable {vfs : Vfs} {task : Context String} {tier found : Place String} {rel : List String} {name : Spelling}

/-- A text that leads to what the path from the tier root leads to leads through the tier root. -/
theorem Reaches.regains (start : vfs.Inside (startOf task name)) (inside : vfs.Inside tier) (proper : rel ≠ [])
    (reaches : Reaches vfs task (name.below rel) found) (pinned : vfs.descend tier tier (rel.map some) = .reached found) :
    Regains vfs task name tier := by
  obtain ⟨here,down,ended⟩ := Mounts.into_of_reached proper reaches.2
  cases Mounts.descend_injective (Mounts.into_inside start down) inside ended pinned
  exact down

theorem Regains.descend (regains : Regains vfs task name tier) :
    vfs.descend task.root (startOf task name) ((name.names ++ rel).map some) = vfs.descend tier tier (rel.map some) := by
  rw [List.map_append,Mounts.descend_into regains]
  exact Mounts.descend_root rel

theorem Regains.kernPath (regains : Regains vfs task name tier) (short : (name.below rel).length < pathMax)
    (direct : Direct vfs tier tier rel) :
    TaskContext.kernPath vfs task (name.below rel) = (vfs.follow tier maxLinks tier (rel.map some)).mapError .walk := by
  have same : vfs.descend task.root (startOf task (name.below rel)) ((name.below rel).names.map some) =
      vfs.descend tier tier (rel.map some) := regains.descend
  rw [TaskContext.kernPath,if_neg (Nat.not_le.mpr short)]
  congr 1
  unfold Mounts.follow
  rw [same]
  cases walk : vfs.descend tier tier (rel.map some) with
  | reached found => rfl
  | failed error => rfl
  | link here absolute target rest => rw [Direct,walk] at direct; cases direct

end Walks

section Log

variable {vfs : Vfs} {task : Context String} {tier log : Place String}

end Log

variable {pool : Pool} {task : Context String}

end Smoothfs.TaskContext
