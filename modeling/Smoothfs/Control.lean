import Smoothfs.Library.Program
import Smoothfs.Movement
import Smoothfs.Namespace

/-! The operations the control plane performs: netlink requests to the kernel,
SQL statements, and system calls on the lower file systems. Every one of them
may fail; a remote one may be executed and still be reported as failed. -/
namespace Smoothfs.Control

open Movement Namespace Function

structure MovementPlan where
  objectID : Oid
  namespaceID : String
  relPath : RelPath
  sourceTierID : String
  destTierID : String
  sourceTierRank : Nat
  destTierRank : Nat
  sourceLowerDir : LowerDir
  destLowerDir : LowerDir
  transactionSeq : Nat
  rePinLUN : Bool
  lunTargetID : String
  deriving DecidableEq, Repr

inductive Statement
  | updateRelPath (oid : Oid) (rel : RelPath)
  | persistIntent (plan : MovementPlan)
  | logTransition (plan : MovementPlan) (fromState : Option MovementState) (toState : MovementState)
  | persistObject (plan : MovementPlan) (state : MovementState)
  | abort (plan : MovementPlan)
  | failAfterSwitch (plan : MovementPlan)
  | persistLUNPin (oid : Oid)
  | finalize (plan : MovementPlan)
  | settle (oid : Oid) (tierID : String) (state : MovementState) (rel : RelPath) (generation : Nat)
  deriving DecidableEq, Repr

inductive Op
  | inspect (oid : Oid)
  | movePlan (oid : Oid) (destTier seq : Nat)
  | moveCutover (oid : Oid) (seq : Nat) (expected : Option Nat)
  | moveComplete (oid : Oid) (seq : Nat)
  | moveRollback (oid : Oid) (seq : Nat)
  | exec (statement : Statement)
  | selectRow (oid : Oid)
  | selectLog (oid : Oid) (seq : Nat)
  | mkdirAll (loc : Loc)
  | stat (loc : Loc)
  | lstat (loc : Loc)
  | openSource (loc : Loc)
  | statFile (file : FileId)
  | mkdirAllSync (loc : Loc)
  | openDestination (loc : Loc) (object : Oid)
  | ioCopy (source destination : FileId)
  | syncFile (file : FileId)
  | closeFile (file : FileId)
  | syncDir (loc : Loc)
  | fileSHA256 (loc : Loc)
  | remove (loc : Loc)
  | setLUNPin (loc : Loc)
  | resumeLUNTarget (target : String)
  | readSettings
  | lookupObject (order : List Nat) (rel : RelPath)
  deriving DecidableEq, Repr

structure FileStat where
  file : FileId
  regular : Bool
  size : Nat
  mtime : Nat
  deriving DecidableEq, Repr

abbrev Value : Op → Type
  | .inspect _ => InspectResult
  | .exec _ => Nat
  | .selectRow _ => Option Row
  | .selectLog _ _ => Option (String × String)
  | .stat _ | .lstat _ | .statFile _ => FileStat
  | .openSource _ | .openDestination _ _ => FileId
  | .ioCopy _ _ => Bytes
  | .fileSHA256 _ => Bytes
  | .lookupObject _ _ => Oid
  | _ => Unit

abbrev Reply (op : Op) : Type := Except Errno (Value op)

def logRow (plan : MovementPlan) (fromState : Option MovementState) (toState : MovementState) : LogRow :=
  ⟨plan.objectID,plan.transactionSeq,fromState,toState,plan.sourceTierID,plan.destTierID⟩

def freshRow (plan : MovementPlan) (state : MovementState) (rel : RelPath) : Row :=
  ⟨plan.namespaceID,plan.sourceTierID,some plan.destTierID,state,.none,plan.transactionSeq,rel,0⟩

def updateRow (world : World) (oid : Oid) (change : Row → Row) : World × Nat :=
  match world.rows oid with
  | none => (world,0)
  | some row => (world.setRow oid (change row),1)

/-- An existing row is taken over only when it is `placed`, `cleanup_complete` or `failed`. -/
def persistIntent (world : World) (plan : MovementPlan) : World × Nat :=
  let logged := {world with log := world.log ++ [logRow plan none .planAccepted]}
  match world.rows plan.objectID with
  | none => (logged.setRow plan.objectID (freshRow plan .planAccepted plan.relPath),1)
  | some row =>
    if row.movementState = .placed ∨ row.movementState = .cleanupComplete ∨ row.movementState = .failed then
      (logged.setRow plan.objectID
        {row with intendedTierID := some plan.destTierID, movementState := .planAccepted,
                  transactionSeq := plan.transactionSeq, relPath := plan.relPath},1)
    else (world,0)

def execStatement (world : World) : Statement → World × Nat
  | .updateRelPath oid rel => updateRow world oid (fun row => {row with relPath := rel})
  | .persistIntent plan => persistIntent world plan
  | .logTransition plan fromState toState => ({world with log := world.log ++ [logRow plan fromState toState]},1)
  | .persistObject plan state =>
    match world.rows plan.objectID with
    | none => (world.setRow plan.objectID (freshRow plan state []),1)
    | some row =>
      (world.setRow plan.objectID
        {row with intendedTierID := some plan.destTierID, movementState := state,
                  transactionSeq := plan.transactionSeq},1)
  | .abort plan =>
    updateRow world plan.objectID (fun row => {row with movementState := .failed, intendedTierID := none})
  | .failAfterSwitch plan =>
    updateRow world plan.objectID
      (fun row => {row with currentTierID := plan.destTierID, intendedTierID := none, movementState := .failed})
  | .persistLUNPin oid => updateRow world oid (fun row => {row with pinState := .lun})
  | .finalize plan =>
    updateRow world plan.objectID
      (fun row => {row with currentTierID := plan.destTierID, intendedTierID := none, movementState := .placed,
                            lastCommittedCutoverGen := row.lastCommittedCutoverGen + 1})
  | .settle oid tierID state rel generation =>
    updateRow world oid
      (fun row => {row with currentTierID := tierID, intendedTierID := none, movementState := state, relPath := rel,
                            lastCommittedCutoverGen := max row.lastCommittedCutoverGen generation})

def createMode (umask : Nat) : Nat :=
  0o644 &&& (0o777 ^^^ (umask &&& 0o777))

def statOf (world : World) (file : FileId) : FileStat :=
  ⟨file,(world.files file).regular,(world.files file).content.length,(world.files file).attrs.mtime⟩

def statLoc (world : World) (loc : Loc) : Except Errno FileStat :=
  match world.names loc with
  | none => .error .enoent
  | some file => .ok (statOf world file)

def openLoc (world : World) (loc : Loc) : Except Errno FileId :=
  match world.names loc with
  | none => .error .enoent
  | some file => if (world.files file).regular then .ok file else .error .eio

def openDestination (world : World) (loc : Loc) (object : Oid) : World × Except Errno FileId :=
  match world.names loc with
  | none =>
    (world.create loc ⟨true,[],⟨createMode world.umask,world.clock,[]⟩,none,false,object⟩,.ok world.nextFile)
  | some file =>
    let old := world.files file
    if old.regular then
      (world.setFile file {old with content := [], attrs := {old.attrs with mtime := world.clock}, object := object},.ok file)
    else (world,.error .eloop)

/-- `io.Copy` of the first `count` bytes. The record keeps the modification time left on the
destination. -/
def ioCopy (world : World) (source destination : FileId) (count : Nat) : World × Bytes :=
  let bytes := (world.files source).content.take count
  let old := world.files destination
  let mtime := if bytes = [] then old.attrs.mtime else world.clock
  ((world.setFile destination {old with content := bytes, attrs := {old.attrs with mtime := mtime}}).record
    (.copied source mtime),bytes)

def remove (world : World) (loc : Loc) : World × Except Errno Unit :=
  match world.names loc with
  | none => (world,.error .enoent)
  | some file => ((world.setName loc none).record (.removed loc file),.ok ())

/-- At a path with no cached dentry; an object that has no inode yet gets one. -/
def lookupObject (world : World) (order : List Nat) (rel : RelPath) : World × Except Errno Oid :=
  match order.findSome? (fun tier => (world.names ⟨tier,rel⟩).map (Prod.mk tier)) with
  | none => (world,.error .enoent)
  | some (tier,file) =>
    match (world.files file).oid with
    | none => (world,.error .eio)
    | some oid =>
      if world.inodes oid = none ∧ (world.files file).regular then (world.setInode oid (newInode tier file rel),.ok oid)
      else (world,.ok oid)

def latestLog (world : World) (oid : Oid) (seq : Nat) : Option (String × String) :=
  ((world.log.filter (fun row => row.objectID = oid ∧ row.transactionSeq = seq)).getLast?).map
    (fun row => (row.sourceTier,row.destTier))

def execOp (world : World) : (op : Op) → World × Reply op
  | .inspect oid => (world,Movement.inspect world oid)
  | .movePlan oid destTier seq => movementPlan world oid destTier seq false
  | .moveCutover oid seq expected => movementCutover world oid seq expected .none
  | .moveComplete oid seq => movementComplete world oid seq
  | .moveRollback oid seq => movementRollback world oid seq
  | .exec statement => ((execStatement world statement).1,.ok (execStatement world statement).2)
  | .selectRow oid => (world,.ok (world.rows oid))
  | .selectLog oid seq => (world,.ok (latestLog world oid seq))
  | .mkdirAll _ => (world,.ok ())
  | .stat loc => (world,statLoc world loc)
  | .lstat loc => (world,statLoc world loc)
  | .openSource loc => (world,openLoc world loc)
  | .statFile file => (world,.ok (statOf world file))
  | .mkdirAllSync _ => (world,.ok ())
  | .openDestination loc object => openDestination world loc object
  | .ioCopy source destination =>
    let copied := ioCopy world source destination (world.files source).content.length
    (copied.1,.ok copied.2)
  | .syncFile _ => (world,.ok ())
  | .closeFile _ => (world,.ok ())
  | .syncDir _ => (world,.ok ())
  | .fileSHA256 loc => (world,(openLoc world loc).map (fun file => (world.files file).content))
  | .remove loc => remove world loc
  | .setLUNPin loc =>
    match world.names loc with
    | none => (world,.error .enoent)
    | some file => (world.setFile file {world.files file with lunPin := true},.ok ())
  | .resumeLUNTarget _ => (world,.ok ())
  | .readSettings => (world,.ok ())
  | .lookupObject order rel => lookupObject world order rel

def Op.remote : Op → Bool
  | .inspect _ | .movePlan _ _ _ | .moveCutover _ _ _ | .moveComplete _ _ | .moveRollback _ _ | .exec _ => true
  | _ => false

inductive Outcome
  | done
  | failed (errno : Errno)
  | lost (errno : Errno)
  | fault (fault : CutoverFault)
  | short (count : Nat) (errno : Option Errno)
  deriving DecidableEq, Repr

def perform (world : World) (op : Op) : Outcome → Option (World × Reply op)
  | .done => some (execOp world op)
  | .failed errno => some (world,.error errno)
  | .lost errno => if op.remote then some ((execOp world op).1,.error errno) else none
  | .fault fault =>
    match op with
    | .moveCutover oid seq expected => some (movementCutover world oid seq expected fault)
    | _ => none
  | .short count errno =>
    match op with
    | .ioCopy source destination =>
      let copied := ioCopy world source destination count
      some (copied.1,match errno with | some errno => .error errno | none => .ok copied.2)
    | _ => none

def Op.quiet : Op → Bool
  | .movePlan _ _ _ | .moveCutover _ _ _ | .moveComplete _ _ | .moveRollback _ _ | .openDestination _ _ | .remove _
  | .lookupObject _ _ => false
  | _ => true

def Op.idle : Op → Bool
  | .exec _ | .setLUNPin _ | .ioCopy _ _ => false
  | op => op.quiet

def Op.steady : Op → Bool
  | .ioCopy _ _ => false
  | op => op.quiet

def Op.lunStep : Op → Bool
  | .setLUNPin _ | .resumeLUNTarget _ | .moveCutover _ _ _ => true
  | _ => false

variable (op : Op)

theorem Op.quiet_of_steady (steady : op.steady = true) : op.quiet = true := by
  cases op <;> first | exact steady | rfl

structure SameNames (world after : World) : Prop where
  pool : after.pool = world.pool
  inodes : after.inodes = world.inodes
  names : after.names = world.names
  nextFile : after.nextFile = world.nextFile

variable {world : World}

variable (world) in
theorem execOp_idle {op : Op} (idle : op.idle = true) : (execOp world op).1 = world := by
  cases op with
  | exec | setLUNPin | ioCopy | movePlan | moveCutover | moveComplete | moveRollback | openDestination | remove | lookupObject =>
    cases idle
  | _ => rfl

variable {after : World} {outcome : Outcome}

theorem perform_idle {op : Op} {reply : Reply op}
    (idle : op.idle = true) (performed : perform world op outcome = some (after,reply)) : after = world := by
  have executed := execOp_idle world idle
  cases outcome with
  | done =>
    rw [Option.some.inj performed] at executed
    exact executed
  | failed errno =>
    cases performed
    rfl
  | lost errno =>
    simp only [perform] at performed
    split at performed
    · cases performed
      exact executed
    · cases performed
  | fault fault | short count errno =>
    simp only [perform] at performed
    split at performed
    · cases idle
    · cases performed

variable (statement : Statement)

theorem perform_exec {reply : Reply (.exec statement)}
    (performed : perform world (.exec statement) outcome = some (after,reply)) :
    (after = world ∨ after = (execStatement world statement).1) ∧
      ∀ affected, reply = .ok affected → (after,affected) = execStatement world statement := by
  cases outcome with
  | done =>
    cases performed
    refine ⟨.inr rfl,fun affected same => ?_⟩
    cases same
    rfl
  | failed errno =>
    cases performed
    exact ⟨.inl rfl,fun _ same => nomatch same⟩
  | lost errno =>
    cases performed
    exact ⟨.inr rfl,fun _ same => nomatch same⟩
  | fault | short => cases performed

structure Steady (world after : World) : Prop extends SameNames world after where
  files : ∀ file, {after.files file with lunPin := false} = {world.files file with lunPin := false}
  history : after.history = world.history
  umask : after.umask = world.umask

variable (world) in
theorem steady_refl : Steady world world :=
  ⟨⟨rfl,rfl,rfl,rfl⟩,fun _ => rfl,rfl,rfl⟩

theorem Steady.trans {first second third : World} (before : Steady first second) (after : Steady second third) :
    Steady first third where
  pool := after.pool.trans before.pool
  inodes := after.inodes.trans before.inodes
  names := after.names.trans before.names
  nextFile := after.nextFile.trans before.nextFile
  files := fun file => (after.files file).trans (before.files file)
  history := after.history.trans before.history
  umask := after.umask.trans before.umask

variable (oid : Oid)

variable (world) in
theorem updateRow_steady {change : Row → Row} : Steady world (updateRow world oid change).1 := by
  unfold updateRow
  split <;> exact ⟨⟨rfl,rfl,rfl,rfl⟩,fun _ => rfl,rfl,rfl⟩

variable (world) in
theorem execStatement_steady : Steady world (execStatement world statement).1 := by
  cases statement with
  | persistIntent plan =>
    simp only [execStatement,persistIntent]
    split
    · exact ⟨⟨rfl,rfl,rfl,rfl⟩,fun _ => rfl,rfl,rfl⟩
    · split <;> exact ⟨⟨rfl,rfl,rfl,rfl⟩,fun _ => rfl,rfl,rfl⟩
  | logTransition plan fromState toState => exact ⟨⟨rfl,rfl,rfl,rfl⟩,fun _ => rfl,rfl,rfl⟩
  | persistObject plan state =>
    simp only [execStatement]
    split <;> exact ⟨⟨rfl,rfl,rfl,rfl⟩,fun _ => rfl,rfl,rfl⟩
  | updateRelPath | abort | failAfterSwitch | persistLUNPin | finalize | settle =>
    exact updateRow_steady world _

variable (loc : Loc)

variable (world) in
theorem setLUNPin_steady : Steady world (execOp world (.setLUNPin loc)).1 := by
  simp only [execOp]
  split
  · exact steady_refl world
  next file _ =>
  refine ⟨⟨rfl,rfl,rfl,rfl⟩,fun other => ?_,rfl,rfl⟩
  by_cases same : other = file
  · subst other
    simp only [World.setFile,update_self]
  · simp only [World.setFile,update_of_ne same]

variable (after) in
theorem perform_steady {op : Op} (outcome : Outcome) {reply : Reply op}
    (steady : op.steady = true) (performed : perform world op outcome = some (after,reply)) : Steady world after := by
  by_cases idle : op.idle = true
  · rw [perform_idle idle performed]
    exact steady_refl world
  cases op with
  | exec statement =>
    rcases (perform_exec statement performed).1 with rfl | rfl
    · exact steady_refl _
    · exact execStatement_steady world statement
  | setLUNPin loc =>
    cases outcome with
    | done =>
      have executed := setLUNPin_steady world loc
      rw [Option.some.inj performed] at executed
      exact executed
    | failed errno =>
      cases performed
      exact steady_refl world
    | lost | fault | short => cases performed
  | _ => exact absurd steady idle

theorem perform_ioCopy {source destination : FileId} {reply : Reply (.ioCopy source destination)}
    (performed : perform world (.ioCopy source destination) outcome = some (after,reply)) :
    (after = world ∧ ∃ errno, reply = .error errno) ∨ ∃ count, after = (ioCopy world source destination count).1 ∧
        ∀ bytes, reply = .ok bytes → bytes = (ioCopy world source destination count).2 := by
  cases outcome with
  | done =>
    cases performed
    exact .inr ⟨_,rfl,fun bytes same => (Except.ok.inj same).symm⟩
  | failed errno =>
    cases performed
    exact .inl ⟨rfl,errno,rfl⟩
  | short count errno =>
    cases performed
    refine .inr ⟨count,rfl,fun bytes same => ?_⟩
    cases errno with
    | none => exact (Except.ok.inj same).symm
    | some errno => cases same
  | lost | fault => cases performed

theorem perform_sameNames {op : Op} {reply : Reply op}
    (quiet : op.quiet = true) (performed : perform world op outcome = some (after,reply)) : SameNames world after := by
  by_cases steady : op.steady = true
  · exact (perform_steady after outcome steady performed).toSameNames
  cases op with
  | ioCopy source destination =>
    rcases perform_ioCopy performed with ⟨rfl,_⟩ | ⟨count,rfl,_⟩
    · exact ⟨rfl,rfl,rfl,rfl⟩
    · exact ⟨rfl,rfl,rfl,rfl⟩
  | _ => exact absurd quiet steady

theorem SameNames.tidy {world after : World} (same : SameNames world after) (tidy : world.Tidy) : after.Tidy :=
  tidy.congr same.names same.nextFile

variable (after) in
theorem perform_remove (outcome : Outcome) {reply : Reply (.remove loc)}
    (performed : perform world (.remove loc) outcome = some (after,reply)) :
    after = world ∨ ∃ file, world.names loc = some file ∧ after = (world.setName loc none).record (.removed loc file) := by
  cases outcome with
  | done =>
    simp only [perform,execOp,remove] at performed
    split at performed
    · cases performed
      exact .inl rfl
    · next file found =>
      cases performed
      exact .inr ⟨file,found,rfl⟩
  | failed errno =>
    cases performed
    exact .inl rfl
  | lost | fault | short => cases performed

theorem perform_plain {op : Op} {reply : Reply op}
    (faults : ∀ fault, perform world op (.fault fault) = none)
    (shorts : ∀ count errno, perform world op (.short count errno) = none)
    (performed : perform world op outcome = some (after,reply)) :
    (after = world ∧ ∃ errno, reply = .error errno) ∨ (after,reply) = execOp world op ∨
      op.remote = true ∧ after = (execOp world op).1 ∧ ∃ errno, reply = .error errno := by
  cases outcome with
  | done => exact .inr (.inl (Option.some.inj performed).symm)
  | failed errno =>
    cases performed
    exact .inl ⟨rfl,errno,rfl⟩
  | lost errno =>
    change (if op.remote then some ((execOp world op).1,.error errno) else none) = some (after,reply) at performed
    by_cases remote : op.remote = true
    · rw [if_pos remote] at performed
      cases performed
      exact .inr (.inr ⟨remote,rfl,errno,rfl⟩)
    · rw [if_neg remote] at performed
      cases performed
  | fault fault => cases (faults fault).symm.trans performed
  | short count errno => cases (shorts count errno).symm.trans performed

theorem perform_openDestination {object : Oid} {reply : Reply (.openDestination loc object)}
    (performed : perform world (.openDestination loc object) outcome = some (after,reply)) :
    (after = world ∧ ∃ errno, reply = .error errno) ∨ (after,reply) = openDestination world loc object := by
  obtain refused | executed | ⟨remote,_⟩ := perform_plain (fun _ => rfl) (fun _ _ => rfl) performed
  · exact .inl refused
  · exact .inr executed
  · cases remote

variable (seq : Nat)

theorem perform_moveComplete
    {reply : Reply (.moveComplete oid seq)} (performed : perform world (.moveComplete oid seq) outcome = some (after,reply)) :
    (after = world ∧ ∃ errno, reply = .error errno) ∨ (after,reply) = movementComplete world oid seq ∨
      after = (movementComplete world oid seq).1 ∧ ∃ errno, reply = .error errno :=
  (perform_plain (fun _ => rfl) (fun _ _ => rfl) performed).imp_right (Or.imp_right And.right)

theorem perform_movePlan {destTier seq : Nat} {reply : Reply (.movePlan oid destTier seq)}
    (performed : perform world (.movePlan oid destTier seq) outcome = some (after,reply)) :
    (after = world ∧ ∃ errno, reply = .error errno) ∨ (after,reply) = movementPlan world oid destTier seq false ∨
      after = (movementPlan world oid destTier seq false).1 ∧ ∃ errno, reply = .error errno :=
  (perform_plain (fun _ => rfl) (fun _ _ => rfl) performed).imp_right (Or.imp_right And.right)

variable (expected : Option Nat)

theorem perform_moveCutover {reply : Reply (.moveCutover oid seq expected)}
    (performed : perform world (.moveCutover oid seq expected) outcome = some (after,reply)) :
    (after = world ∧ ∃ errno, reply = .error errno) ∨ (∃ fault, (after,reply) = movementCutover world oid seq expected fault) ∨
      ∃ errno, outcome = .lost errno ∧ after = (movementCutover world oid seq expected .none).1 ∧ reply = .error errno := by
  cases outcome with
  | done => exact .inr (.inl ⟨.none,(Option.some.inj performed).symm⟩)
  | failed errno =>
    cases performed
    exact .inl ⟨rfl,errno,rfl⟩
  | lost errno =>
    cases performed
    exact .inr (.inr ⟨errno,rfl,rfl,rfl⟩)
  | fault fault => exact .inr (.inl ⟨fault,(Option.some.inj performed).symm⟩)
  | short => cases performed

variable (order : List Nat) (rel : RelPath)

variable (world) in
theorem lookupObject_spec : (lookupObject world order rel).1 = world ∨ ∃ tier file oid, world.names ⟨tier,rel⟩ = some file ∧
      (world.files file).oid = some oid ∧ world.inodes oid = none ∧ lookupObject world order rel =
        (world.setInode oid (newInode tier file rel),.ok oid) := by
  unfold lookupObject
  split
  · exact .inl rfl
  next tier file first =>
  split
  · exact .inl rfl
  next oid stamped =>
  split
  · next fits =>
    obtain ⟨place,_,found⟩ := List.exists_of_findSome?_eq_some first
    obtain ⟨_,named,same⟩ := Option.map_eq_some_iff.mp found
    cases same
    exact .inr ⟨tier,file,oid,named,stamped,fits.1,rfl⟩
  · exact .inl rfl

theorem perform_lookupObject
    {reply : Reply (.lookupObject order rel)} (performed : perform world (.lookupObject order rel) outcome = some (after,reply)) :
    after = world ∨ ∃ tier file oid, world.names ⟨tier,rel⟩ = some file ∧ (world.files file).oid = some oid ∧
      world.inodes oid = none ∧ after = world.setInode oid (newInode tier file rel) := by
  cases outcome with
  | done =>
    have result := congrArg Prod.fst (Option.some.inj performed)
    rcases lookupObject_spec world order rel with same | ⟨tier,file,oid,named,stamped,absent,instantiated⟩
    · exact .inl (result.symm.trans same)
    · exact .inr ⟨tier,file,oid,named,stamped,absent,result.symm.trans (congrArg Prod.fst instantiated)⟩
  | failed errno =>
    cases performed
    exact .inl rfl
  | lost | fault | short => cases performed

theorem perform_ok (op : Op) (outcome : Outcome) (value : Value op)
    (whole : ∀ source destination, op ≠ .ioCopy source destination)
    (performed : perform world op outcome = some (after,.ok value)) : execOp world op = (after,.ok value) := by
  cases outcome with
  | done => exact Option.some.inj performed
  | failed errno => cases performed
  | lost errno =>
    simp only [perform] at performed
    split at performed <;> cases performed
  | fault fault =>
    simp only [perform] at performed
    split at performed
    · next oid seq expected =>
      rcases movementCutover_spec world oid seq expected fault with
        ⟨_,_,result,_⟩ | ⟨_,_,_,_,_,_,plain,_,_⟩
      · rw [result] at performed
        cases performed
      · rw [plain] at performed
        exact Option.some.inj performed
    · cases performed
  | short count errno =>
    cases op with
    | ioCopy source destination => exact absurd rfl (whole source destination)
    | _ => cases performed

variable (fault : CutoverFault)

variable (world) in
theorem movementCutover_history : ∃ more, (movementCutover world oid seq expected fault).1.history = world.history ++ more := by
  rcases movementCutover_spec world oid seq expected fault with
    ⟨after,errno,result,refused⟩ | ⟨inode,file,_,_,_,_,_,_,result⟩
  · rw [result]
    rcases refused with rfl | ⟨_,_,_,rfl | ⟨_,rfl⟩⟩ <;> exact ⟨[],(List.append_nil _).symm⟩
  · rw [result]
    exact ⟨_,rfl⟩

def Op.marks (oid : Oid) : Op → Bool
  | .movePlan other _ _ | .moveComplete other _ | .moveRollback other _ => other = oid
  | _ => false

variable (world) in
theorem execOp_marked {op : Op} (marks : op.marks oid = true) : Marked oid world (execOp world op).1 := by
  cases op with
  | movePlan other destTier seq =>
    cases of_decide_eq_true marks
    exact movementPlan_marked world oid destTier seq false
  | moveComplete other seq =>
    cases of_decide_eq_true marks
    exact settle_marked world oid seq _
  | moveRollback other seq =>
    cases of_decide_eq_true marks
    exact settle_marked world oid seq _
  | _ => cases marks

variable (world) in
theorem execOp_history (op : Op) : ∃ more, (execOp world op).1.history = world.history ++ more := by
  have same {after : World} (equal : after.history = world.history) : ∃ more, after.history = world.history ++ more :=
    ⟨[],by rw [equal,List.append_nil]⟩
  cases op with
  | moveCutover oid seq expected => exact movementCutover_history world oid seq expected .none
  | ioCopy source destination => exact ⟨_,rfl⟩
  | exec statement => exact same (execStatement_steady world statement).history
  | setLUNPin loc => exact same (setLUNPin_steady world loc).history
  | remove loc =>
    simp only [execOp,remove]
    split
    · exact same rfl
    · exact ⟨_,rfl⟩
  | openDestination loc object =>
    simp only [execOp,openDestination]
    split
    · exact same rfl
    · split <;> exact same rfl
  | movePlan oid | moveComplete oid | moveRollback oid =>
    exact same (Marked.history (execOp_marked world oid (by simp [Op.marks])))
  | lookupObject order rel =>
    rcases lookupObject_spec world order rel with result | ⟨_,_,_,_,_,_,result⟩ <;>
      exact same (by simp only [execOp,result,World.setInode])
  | _ => exact same rfl

theorem perform_after {op : Op} {reply : Reply op}
    (performed : perform world op outcome = some (after,reply)) : after = world ∨ after = (execOp world op).1 ∨
      (∃ oid seq expected fault, op = .moveCutover oid seq expected ∧
        after = (movementCutover world oid seq expected fault).1) ∨
      ∃ source destination count, op = .ioCopy source destination ∧ after = (ioCopy world source destination count).1 := by
  cases outcome with
  | done => exact .inr (.inl (congrArg Prod.fst (Option.some.inj performed)).symm)
  | failed errno =>
    cases performed
    exact .inl rfl
  | lost errno =>
    simp only [perform] at performed
    split at performed
    · cases performed
      exact .inr (.inl rfl)
    · cases performed
  | fault fault =>
    simp only [perform] at performed
    split at performed
    · next oid seq expected =>
      exact .inr (.inr (.inl ⟨oid,seq,expected,fault,rfl,(congrArg Prod.fst (Option.some.inj performed)).symm⟩))
    · cases performed
  | short count errno =>
    simp only [perform] at performed
    split at performed
    · next source destination =>
      cases performed
      exact .inr (.inr (.inr ⟨source,destination,count,rfl,rfl⟩))
    · cases performed

theorem perform_history {op : Op} {reply : Reply op}
    (performed : perform world op outcome = some (after,reply)) : ∃ more, after.history = world.history ++ more := by
  rcases perform_after performed with
    rfl | rfl | ⟨oid,seq,expected,fault,rfl,rfl⟩ | ⟨source,destination,count,rfl,rfl⟩
  · exact ⟨[],(List.append_nil _).symm⟩
  · exact execOp_history world op
  · exact movementCutover_history world oid seq expected fault
  · exact ⟨_,rfl⟩

def Op.moves (oid : Oid) : Op → Bool
  | .movePlan other _ _ | .moveCutover other _ _ | .moveComplete other _ | .moveRollback other _ => other = oid
  | _ => false

theorem Op.moves_of_steady (steady : op.steady = true) (oid : Oid) : op.moves oid = false := by
  cases op <;> first | rfl | cases steady

theorem Op.ne_remove_of_steady (steady : op.steady = true) (loc : Loc) : op ≠ .remove loc := by
  rintro rfl
  cases steady

structure Commands (oid : Oid) (world after : World) : Prop where
  names : after.names = world.names
  nextFile : after.nextFile = world.nextFile
  others : ∀ other, other ≠ oid → after.inodes other = world.inodes other

variable (world) in
theorem commands_setInode {inode : Inode} : Commands oid world (world.setInode oid inode) :=
  ⟨rfl,rfl,fun _ different => update_of_ne different _ _⟩

variable (world) in
theorem commands_cutover : Commands oid world (movementCutover world oid seq expected fault).1 := by
  rcases movementCutover_spec world oid seq expected fault with ⟨after,_,result,refused⟩ | ⟨inode,file,_,_,_,_,_,_,result⟩
  · rw [result]
    rcases refused with rfl | ⟨inode,state,_,rfl | ⟨file,rfl⟩⟩
    · exact ⟨rfl,rfl,fun _ _ => rfl⟩
    · exact commands_setInode world oid
    · exact ⟨rfl,rfl,fun _ different => update_of_ne different _ _⟩
  · rw [result]
    exact ⟨rfl,rfl,fun _ different => update_of_ne different _ _⟩

theorem commands_marked (marked : Marked oid world after) : Commands oid world after := by
  obtain rfl | ⟨_,_,_,_,_,rfl⟩ := marked
  · exact ⟨rfl,rfl,fun _ _ => rfl⟩
  · exact commands_setInode world oid

variable (world) in
theorem execOp_commands {op : Op} (moves : op.moves oid = true) : Commands oid world (execOp world op).1 := by
  cases op with
  | movePlan other | moveComplete other | moveRollback other => exact commands_marked oid (execOp_marked world oid moves)
  | moveCutover other seq expected =>
    cases of_decide_eq_true moves
    exact commands_cutover world oid seq expected .none
  | _ => cases moves

theorem perform_commands {op : Op} {reply : Reply op} (oid : Oid)
    (moves : op.moves oid = true) (performed : perform world op outcome = some (after,reply)) : Commands oid world after := by
  rcases perform_after performed with
    rfl | rfl | ⟨other,seq,expected,fault,rfl,rfl⟩ | ⟨_,_,_,rfl,_⟩
  · exact ⟨rfl,rfl,fun _ _ => rfl⟩
  · exact execOp_commands world oid moves
  · cases of_decide_eq_true moves
    exact commands_cutover world oid seq expected fault
  · cases moves

theorem perform_changes_names {op : Op} {reply : Reply op}
    (performed : perform world op outcome = some (after,reply)) : after.names = world.names ∨
      (∃ loc object, op = .openDestination loc object ∧ world.names loc = none ∧
        after.names = (world.setName loc (some world.nextFile)).names) ∨
      ∃ loc, op = .remove loc ∧ after.names = (world.setName loc none).names := by
  by_cases quiet : op.quiet = true
  · exact .inl (perform_sameNames quiet performed).names
  cases op with
  | movePlan oid | moveCutover oid | moveComplete oid | moveRollback oid =>
    exact .inl (perform_commands oid (by simp [Op.moves]) performed).names
  | openDestination loc object =>
    rcases perform_openDestination loc performed with ⟨rfl,_⟩ | opened
    · exact .inl rfl
    unfold openDestination at opened
    split at opened
    · next absent =>
      cases opened
      exact .inr (.inl ⟨loc,object,rfl,absent,rfl⟩)
    · dsimp only at opened
      split at opened <;> cases opened <;> exact .inl rfl
  | remove loc =>
    rcases perform_remove after loc outcome performed with rfl | ⟨_,_,rfl⟩
    · exact .inl rfl
    · exact .inr (.inr ⟨loc,rfl,rfl⟩)
  | lookupObject order rel =>
    rcases perform_lookupObject order rel performed with rfl | ⟨_,_,_,_,_,_,rfl⟩ <;> exact .inl rfl
  | _ => exact absurd rfl quiet

theorem perform_names {op : Op} {reply : Reply op}
    (performed : perform world op outcome = some (after,reply)) {loc : Loc} {file : FileId} (kept : op ≠ .remove loc)
    (named : world.names loc = some file) : after.names loc = some file := by
  rcases perform_changes_names performed with
    same | ⟨other,_,_,absent,opened⟩ | ⟨other,rfl,removed⟩
  · rw [same,named]
  · rw [opened]
    exact World.setName_keeps absent named
  · rw [removed,World.setName_names,if_neg (fun equal => kept (by rw [equal])),named]

theorem perform_inodes {op : Op} {reply : Reply op}
    (performed : perform world op outcome = some (after,reply)) {oid : Oid} {inode : Inode} (other : op.moves oid = false)
    (found : world.inodes oid = some inode) : after.inodes oid = some inode := by
  have same (equal : after.inodes = world.inodes) : after.inodes oid = some inode := by
    rw [equal,found]
  by_cases quiet : op.quiet = true
  · exact same (perform_sameNames quiet performed).inodes
  cases op with
  | movePlan moved | moveCutover moved | moveComplete moved | moveRollback moved =>
    rw [(perform_commands moved (by simp [Op.moves]) performed).others oid
      (Ne.symm (of_decide_eq_false other)),found]
  | openDestination loc object =>
    rcases perform_openDestination loc performed with ⟨rfl,_⟩ | opened
    · exact found
    unfold openDestination at opened
    split at opened
    · cases opened
      exact found
    · dsimp only at opened
      split at opened <;> cases opened <;> exact found
  | remove loc =>
    rcases perform_remove after loc outcome performed with rfl | ⟨gone,_,rfl⟩ <;> exact found
  | lookupObject order rel =>
    rcases perform_lookupObject order rel performed with rfl | ⟨tier,file,fresh,_,_,absent,rfl⟩
    · exact found
    · rw [World.setInode_inodes,if_neg,found]
      rintro rfl
      cases absent.symm.trans found
  | _ => exact absurd rfl quiet

/-- Users of the mount, and other processes with operations of their own. -/
inductive Interference
  | user (action : Action)
  | foreign (op : Op) (outcome : Outcome)
  deriving DecidableEq, Repr

def interfere (world : World) : Interference → Option World
  | .user action => act world action
  | .foreign op outcome => (perform world op outcome).map (fun result => {result.1 with history := world.history})

theorem interfere_history {action : Interference} (interfered : interfere world action = some after) :
    after.history = world.history := by
  cases action with
  | user action => exact (act_effect world after action interfered).fixed.2
  | foreign op outcome =>
    obtain ⟨result,_,rfl⟩ := Option.map_eq_some_iff.mp interfered
    rfl

def machine : Program.Machine Op Reply World Outcome Interference where
  perform := perform
  interfere := interfere

end Smoothfs.Control
