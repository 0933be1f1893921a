import Mathlib.Logic.Function.Basic
import Smoothfs.Types

/-! What the kernel module, the control plane and their users share: the lower
files of every tier, the in-core inodes, the SQL tables, and a record of what the
program under study copied, switched and removed. Directory `t` is the root of
tier `t`; larger numbers are directories outside the pool. -/
namespace Smoothfs

open Function

abbrev Oid := Nat

abbrev LowerDir := Nat

abbrev FileId := Nat

abbrev RelPath := List String

structure Loc where
  dir : LowerDir
  rel : RelPath
  deriving DecidableEq, Repr

/-- Permission bits, modification time, and the `user.*`, `security.*` and ACL xattrs. -/
structure Attrs where
  mode : Nat
  mtime : Nat
  xattrs : List (String × Bytes)
  deriving DecidableEq, Repr

/-- `oid` is the identity xattr, `lunPin` the LUN pin. `object` is whose data the file holds, which
no xattr records. -/
structure LowerFile where
  regular : Bool
  content : Bytes
  attrs : Attrs
  oid : Option Oid
  lunPin : Bool
  object : Oid
  deriving DecidableEq, Repr

/-- The `struct path` of an inode: the tier it is mounted from, the lower file
and the name of its dentry. -/
structure LowerPath where
  mnt : Nat
  file : FileId
  name : String
  deriving DecidableEq, Repr

/-- `linked` says that a name of the namespace still leads to the inode; `relPath` is
`si->rel_path`. -/
structure Inode where
  lowerPath : LowerPath
  linked : Bool
  relPath : Option RelPath
  currentTier : Nat
  intendedTier : Nat
  movementState : MovementState
  pinState : PinState
  transactionSeq : Nat
  cutoverGen : Nat
  writeSeq : Nat
  nlinkObserved : Int
  mapped : Bool
  rangeStaged : Bool
  writeStaged : Bool
  writeStagedDrainTier : Nat
  deriving DecidableEq, Repr

structure Pool where
  ntiers : Nat
  fastestTier : Nat
  cacheMode : Bool
  quiesced : Bool
  writeStaging : Bool
  fastNearFull : Bool
  deriving DecidableEq, Repr

structure Row where
  namespaceID : String
  currentTierID : String
  intendedTierID : Option String
  movementState : MovementState
  pinState : PinState
  transactionSeq : Nat
  relPath : RelPath
  lastCommittedCutoverGen : Nat
  deriving DecidableEq, Repr

structure LogRow where
  objectID : Oid
  transactionSeq : Nat
  fromState : Option MovementState
  toState : MovementState
  sourceTier : String
  destTier : String
  deriving DecidableEq, Repr

inductive Event
  | copied (file : FileId) (time : Nat)
  | switched (old new : FileId) (before after : Attrs)
  | removed (loc : Loc) (file : FileId)
  deriving DecidableEq, Repr

structure World where
  pool : Pool
  inodes : Oid → Option Inode
  names : Loc → Option FileId
  files : FileId → LowerFile
  nextFile : FileId
  rows : Oid → Option Row
  log : List LogRow
  umask : Nat
  clock : Nat
  history : List Event

namespace World

variable (world : World)

def setInode (oid : Oid) (inode : Inode) : World :=
  {world with inodes := update world.inodes oid (some inode)}

def setName (loc : Loc) (file : Option FileId) : World :=
  {world with names := update world.names loc file}

def setFile (file : FileId) (value : LowerFile) : World :=
  {world with files := update world.files file value}

def setRow (oid : Oid) (row : Row) : World :=
  {world with rows := update world.rows oid (some row)}

def record (event : Event) : World :=
  {world with history := world.history ++ [event]}

def create (loc : Loc) (value : LowerFile) : World :=
  {(world.setName loc (some world.nextFile)).setFile world.nextFile value with nextFile := world.nextFile + 1}

def NotLive (file : FileId) : Prop :=
  ∀ oid inode, world.inodes oid = some inode → inode.lowerPath.file ≠ file

structure Tidy : Prop where
  apart : ∀ first second file, world.names first = some file → world.names second = some file → first.dir = second.dir
  fresh : ∀ loc file, world.names loc = some file → file < world.nextFile

variable {world}

theorem Tidy.congr {after : World} (tidy : world.Tidy) (names : after.names = world.names)
    (nextFile : after.nextFile = world.nextFile) : after.Tidy := by
  constructor
  · rw [names]
    exact tidy.apart
  · rw [names,nextFile]
    exact tidy.fresh

theorem setInode_inodes (oid other : Oid) (inode : Inode) :
    (world.setInode oid inode).inodes other = if other = oid then some inode else world.inodes other := by
  simp only [setInode,update_apply]

theorem setName_names (loc other : Loc) (file : Option FileId) :
    (world.setName loc file).names other = if other = loc then file else world.names other := by
  simp only [setName,update_apply]

theorem setName_keeps {loc other : Loc} {value : Option FileId} {file : FileId} (absent : world.names loc = none)
    (named : world.names other = some file) : (world.setName loc value).names other = some file := by
  rw [setName_names,if_neg,named]
  rintro rfl
  rw [absent] at named
  cases named

theorem Tidy.removeName (tidy : world.Tidy) (loc : Loc) : (world.setName loc none).Tidy where
  apart := by
    intro first second file one two
    rw [setName_names] at one two
    split at one
    · cases one
    · split at two
      · cases two
      · exact tidy.apart first second file one two
  fresh := by
    intro other file found
    rw [setName_names] at found
    split at found
    · cases found
    · exact tidy.fresh other file found

theorem create_names (loc other : Loc) (value : LowerFile) :
    (world.create loc value).names other = if other = loc then some world.nextFile else world.names other :=
  setName_names loc other (some world.nextFile)

theorem Tidy.create (tidy : world.Tidy) (loc : Loc) (value : LowerFile) : (world.create loc value).Tidy where
  apart := by
    intro first second file one two
    rw [create_names] at one two
    split at one <;> split at two
    · next same other => rw [same,other]
    · cases one
      exact absurd (tidy.fresh second _ two) (Nat.lt_irrefl _)
    · cases two
      exact absurd (tidy.fresh first _ one) (Nat.lt_irrefl _)
    · exact tidy.apart first second file one two
  fresh := by
    intro other file found
    rw [create_names] at found
    split at found
    · cases found
      exact Nat.lt_succ_self _
    · exact Nat.lt_succ_of_lt (tidy.fresh other file found)

end World

end Smoothfs
