import Smoothfs.World

/-! The kernel's movement commands: `smoothfs_movement_plan`, `_cutover`,
`_complete`, `_rollback` and INSPECT, each as one transition of the world. -/
namespace Smoothfs.Movement

/-- `force` passes over a held lease only. -/
def canMove (world : World) (inode : Inode) (force : Bool) : Bool :=
  (inode.pinState = .none ∨ force = true ∧ inode.pinState = .lease) ∧ inode.nlinkObserved ≤ 1 ∧ ¬ inode.mapped ∧
    (world.files inode.lowerPath.file).regular

/-- A plan once the pool is found not to be quiesced. -/
def planAdmitted (world : World) (oid : Oid) (destTier seq : Nat) (force : Bool) : World × Except Errno Unit :=
  if world.pool.ntiers ≤ destTier then (world,.error .einval)
  else if world.pool.cacheMode ∧ destTier ≠ world.pool.ntiers - 1 then (world,.error .einval)
  else
    match world.inodes oid with
    | none => (world,.error .enoent)
    | some inode =>
      if inode.movementState ≠ .placed then (world,.error .ebusy)
      else if destTier = inode.currentTier then (world,.error .ealready)
      else if ¬ canMove world inode force then (world,.error .ebusy)
      else (world.setInode oid
        {inode with intendedTier := destTier, movementState := .planAccepted, transactionSeq := seq},.ok ())

def movementPlan (world : World) (oid : Oid) (destTier seq : Nat) (force : Bool) : World × Except Errno Unit :=
  if world.pool.quiesced then (world,.error .eagain) else planAdmitted world oid destTier seq force

inductive CutoverFault
  | none
  | drainTimeout
  | lowerError (errno : Errno) (stamped : Bool)
  deriving DecidableEq, Repr

def cutoverDest (inode : Inode) : Loc :=
  ⟨inode.intendedTier,inode.relPath.getD [inode.lowerPath.name]⟩

def resolveCutover (world : World) (oid : Oid) (inode : Inode) (expected : Option Nat) : Except Errno FileId :=
  if expected.any (· ≠ inode.writeSeq) then .error .estale
  else
    match world.names (cutoverDest inode) with
    | none => .error .enoent
    | some dest =>
      if (world.files dest).content.length < (world.files inode.lowerPath.file).content.length then .error .eagain
      else if (world.files dest).oid.any (· ≠ oid) then .error .estale
      else .ok dest

def stamp (world : World) (file : FileId) (oid : Oid) : World :=
  world.setFile file {world.files file with oid := some oid}

def switchedInode (inode : Inode) (dest : FileId) : Inode :=
  {inode with
    lowerPath := ⟨inode.intendedTier,dest,(cutoverDest inode).rel.getLastD inode.lowerPath.name⟩
    currentTier := inode.intendedTier
    cutoverGen := inode.cutoverGen + 1
    movementState := .switched
    pinState := if inode.pinState = .lease then .none else inode.pinState}

def publish (world : World) (oid : Oid) (inode : Inode) (dest : FileId) : World :=
  ((stamp world dest oid).setInode oid (switchedInode inode dest)).record
    (.switched inode.lowerPath.file dest (world.files inode.lowerPath.file).attrs (world.files dest).attrs)

/-- What is tested before the writers are held back. -/
def cutoverAdmits (world : World) (oid : Oid) (seq : Nat) : Except Errno Inode :=
  match world.inodes oid with
  | none => .error .enoent
  | some inode =>
    if world.pool.ntiers ≤ inode.intendedTier then .error .einval
    else if ¬ inode.movementState.preCutover then .error .ebusy
    else if inode.transactionSeq ≠ seq then .error .estale
    else if inode.mapped then .error .ebusy
    else .ok inode

/-- From the drain of the writers on. -/
def cutoverEnd (world : World) (oid : Oid) (inode : Inode) (expected : Option Nat) (fault : CutoverFault) :
    World × Except Errno Unit :=
  match fault, resolveCutover world oid inode expected with
  | .drainTimeout, _ => (world.setInode oid {inode with movementState := .copyVerified},.error .ebusy)
  | _, .error errno => (world.setInode oid {inode with movementState := .failed},.error errno)
  | .lowerError errno stamped, .ok dest =>
    ((if stamped then stamp world dest oid else world).setInode oid {inode with movementState := .failed},.error errno)
  | .none, .ok dest => (publish world oid inode dest,.ok ())

def movementCutover (world : World) (oid : Oid) (seq : Nat) (expected : Option Nat) (fault : CutoverFault) :
    World × Except Errno Unit :=
  if world.pool.quiesced then (world,.error .eagain)
  else
    match cutoverAdmits world oid seq with
    | .error errno => (world,.error errno)
    | .ok inode => cutoverEnd world oid inode expected fault

/-- Back to `placed` from the states of the command. -/
def settle (leaves : MovementState → Prop) [DecidablePred leaves] (world : World) (oid : Oid) (seq : Nat) :
    World × Except Errno Unit :=
  match world.inodes oid with
  | none => (world,.error .enoent)
  | some inode =>
    if inode.transactionSeq ≠ seq then (world,.error .estale)
    else if inode.movementState = .placed then (world,.ok ())
    else if ¬ leaves inode.movementState then (world,.error .ebusy)
    else (world.setInode oid {inode with movementState := .placed, intendedTier := inode.currentTier},.ok ())

def movementComplete (world : World) (oid : Oid) (seq : Nat) : World × Except Errno Unit :=
  settle (· = .switched) world oid seq

def movementRollback (world : World) (oid : Oid) (seq : Nat) : World × Except Errno Unit :=
  settle (fun state => state.preCutover = true ∨ state = .failed) world oid seq

/-- The INSPECT reply. `currentTierPath` is `none` where the reply has no path: `doit_inspect` sends the root of the current tier. -/
structure InspectResult where
  currentTier : Nat
  intendedTier : Nat
  movementState : MovementState
  pinState : PinState
  generation : Nat
  transactionSeq : Nat
  writeSeq : Nat
  hasWriteSeq : Bool
  rangeStaged : Bool
  relPath : RelPath
  currentTierPath : Option Loc
  deriving DecidableEq, Repr

def inspectReply (inode : Inode) : InspectResult where
  currentTier := inode.currentTier
  intendedTier := inode.intendedTier
  movementState := inode.movementState
  pinState := inode.pinState
  generation := inode.cutoverGen
  transactionSeq := inode.transactionSeq
  writeSeq := inode.writeSeq
  hasWriteSeq := true
  rangeStaged := inode.rangeStaged
  relPath := inode.relPath.getD []
  currentTierPath := some ⟨inode.currentTier,[]⟩

def inspect (world : World) (oid : Oid) : Except Errno InspectResult :=
  match world.inodes oid with
  | none => .error .enoent
  | some inode => .ok (inspectReply inode)

variable (world : World) (oid : Oid)

theorem inspect_ok (ins : InspectResult) :
    inspect world oid = .ok ins ↔ ∃ inode, world.inodes oid = some inode ∧ ins = inspectReply inode := by
  unfold inspect
  cases world.inodes oid with
  | none => simp
  | some inode => simp [eq_comm]

theorem inspect_root {world : World} {oid : Oid} {ins : InspectResult} (replied : inspect world oid = .ok ins) :
    ∃ place, ins.currentTierPath = some place ∧ place.rel = [] := by
  obtain ⟨inode,-,rfl⟩ := (inspect_ok world oid ins).mp replied
  exact ⟨_,rfl,rfl⟩

variable (destTier seq : Nat) (force : Bool)

theorem planAdmitted_spec : (∃ errno, planAdmitted world oid destTier seq force = (world,.error errno)) ∨
      ∃ inode, world.inodes oid = some inode ∧ inode.movementState = .placed ∧ destTier ≠ inode.currentTier ∧
        destTier < world.pool.ntiers ∧ canMove world inode force = true ∧
        planAdmitted world oid destTier seq force = (world.setInode oid
          {inode with intendedTier := destTier, movementState := .planAccepted, transactionSeq := seq},.ok ()) := by
  unfold planAdmitted
  split
  · exact .inl ⟨_,rfl⟩
  next bound =>
  split
  · exact .inl ⟨_,rfl⟩
  split
  · exact .inl ⟨_,rfl⟩
  next inode found =>
  split
  · exact .inl ⟨_,rfl⟩
  next placed =>
  split
  · exact .inl ⟨_,rfl⟩
  next elsewhere =>
  split
  · exact .inl ⟨_,rfl⟩
  next movable =>
  exact .inr ⟨inode,found,not_not.mp placed,elsewhere,Nat.lt_of_not_le bound,not_not.mp movable,rfl⟩

theorem movementPlan_spec : (∃ errno, movementPlan world oid destTier seq force = (world,.error errno)) ∨
      ∃ inode, world.inodes oid = some inode ∧ inode.movementState = .placed ∧ destTier ≠ inode.currentTier ∧
        destTier < world.pool.ntiers ∧ canMove world inode force = true ∧
        movementPlan world oid destTier seq force = (world.setInode oid
          {inode with intendedTier := destTier, movementState := .planAccepted, transactionSeq := seq},.ok ()) := by
  unfold movementPlan
  split
  · exact .inl ⟨_,rfl⟩
  · exact planAdmitted_spec world oid destTier seq force

def Refused (world after : World) (oid : Oid) : Prop :=
  after = world ∨ ∃ inode state, world.inodes oid = some inode ∧
    (after = world.setInode oid {inode with movementState := state} ∨
      ∃ file, after = (stamp world file oid).setInode oid {inode with movementState := state})

theorem resolveCutover_ok {inode : Inode} {expected : Option Nat} {dest : FileId}
    (resolved : resolveCutover world oid inode expected = .ok dest) :
    (∀ seq, expected = some seq → seq = inode.writeSeq) ∧ world.names (cutoverDest inode) = some dest ∧
      (world.files inode.lowerPath.file).content.length ≤ (world.files dest).content.length ∧
      ((world.files dest).oid = none ∨ (world.files dest).oid = some oid) := by
  unfold resolveCutover at resolved
  split at resolved
  · cases resolved
  next unchanged =>
  split at resolved
  · cases resolved
  next found =>
  split at resolved
  · cases resolved
  next complete =>
  split at resolved
  · cases resolved
  next identity =>
  cases resolved
  refine ⟨fun seq same => ?_,found,Nat.le_of_not_lt complete,?_⟩
  · rw [same] at unchanged
    simpa using unchanged
  · cases stamped : (world.files dest).oid with
    | none => exact .inl rfl
    | some other =>
      rw [stamped] at identity
      exact .inr (by simpa using identity)

variable (expected : Option Nat) (fault : CutoverFault)

theorem cutoverAdmits_ok {inode : Inode} (admitted : cutoverAdmits world oid seq = .ok inode) :
    world.inodes oid = some inode ∧ inode.intendedTier < world.pool.ntiers ∧ inode.movementState.preCutover = true ∧
      inode.transactionSeq = seq ∧ inode.mapped = false := by
  unfold cutoverAdmits at admitted
  split at admitted
  · cases admitted
  next found =>
  split at admitted
  · cases admitted
  next bound =>
  split at admitted
  · cases admitted
  next early =>
  split at admitted
  · cases admitted
  next same =>
  split at admitted
  · cases admitted
  next unmapped =>
  cases admitted
  exact ⟨found,Nat.lt_of_not_le bound,not_not.mp early,not_not.mp same,by simpa using unmapped⟩

theorem cutoverEnd_cases (inode : Inode) :
    (∃ state errno, cutoverEnd world oid inode expected fault =
        (world.setInode oid {inode with movementState := state},.error errno)) ∨
      ∃ dest, resolveCutover world oid inode expected = .ok dest ∧ ((∃ errno, cutoverEnd world oid inode expected fault =
            ((stamp world dest oid).setInode oid {inode with movementState := .failed},.error errno)) ∨
          fault = .none ∧ cutoverEnd world oid inode expected fault = (publish world oid inode dest,.ok ())) := by
  unfold cutoverEnd
  split
  · exact .inl ⟨_,_,rfl⟩
  · exact .inl ⟨_,_,rfl⟩
  · next stamped dest resolved =>
    cases stamped
    · exact .inl ⟨_,_,rfl⟩
    · exact .inr ⟨dest,resolved,.inl ⟨_,rfl⟩⟩
  · next dest resolved => exact .inr ⟨dest,resolved,.inr ⟨rfl,rfl⟩⟩

theorem movementCutover_cases : (∃ errno, movementCutover world oid seq expected fault = (world,.error errno)) ∨
      ∃ inode, cutoverAdmits world oid seq = .ok inode ∧
        movementCutover world oid seq expected fault = cutoverEnd world oid inode expected fault := by
  unfold movementCutover
  split
  · exact .inl ⟨_,rfl⟩
  split
  · exact .inl ⟨_,rfl⟩
  next inode admitted =>
  exact .inr ⟨inode,admitted,rfl⟩

variable {world oid expected fault} in
theorem cutoverEnd_refused {inode : Inode} (found : world.inodes oid = some inode) :
    (∃ after errno, cutoverEnd world oid inode expected fault = (after,.error errno) ∧ Refused world after oid) ∨
      ∃ dest, resolveCutover world oid inode expected = .ok dest ∧ fault = .none ∧
        cutoverEnd world oid inode expected fault = (publish world oid inode dest,.ok ()) := by
  obtain ⟨state,errno,result⟩ | ⟨dest,resolved,⟨errno,result⟩ | ⟨fine,result⟩⟩ := cutoverEnd_cases world oid expected fault inode
  · exact .inl ⟨_,errno,result,.inr ⟨inode,state,found,.inl rfl⟩⟩
  · exact .inl ⟨_,errno,result,.inr ⟨inode,.failed,found,.inr ⟨dest,rfl⟩⟩⟩
  · exact .inr ⟨dest,resolved,fine,result⟩

theorem movementCutover_spec :
    (∃ after errno, movementCutover world oid seq expected fault = (after,.error errno) ∧ Refused world after oid) ∨
      ∃ inode dest, world.inodes oid = some inode ∧ inode.movementState.preCutover = true ∧
        inode.transactionSeq = seq ∧ inode.intendedTier < world.pool.ntiers ∧ fault = .none ∧
        resolveCutover world oid inode expected = .ok dest ∧
        movementCutover world oid seq expected fault = (publish world oid inode dest,.ok ()) := by
  obtain ⟨errno,result⟩ | ⟨inode,admitted,result⟩ := movementCutover_cases world oid seq expected fault
  · exact .inl ⟨_,errno,result,.inl rfl⟩
  obtain ⟨found,bound,before,same,_⟩ := cutoverAdmits_ok world oid seq admitted
  rw [result]
  exact (cutoverEnd_refused found).imp_right fun ⟨dest,resolved,fine,done⟩ =>
    ⟨inode,dest,found,before,same,bound,fine,resolved,done⟩

section Settle

variable (leaves : MovementState → Prop) [DecidablePred leaves]

theorem settle_cases : (∃ errno, settle leaves world oid seq = (world,.error errno)) ∨
      ∃ inode, world.inodes oid = some inode ∧ inode.transactionSeq = seq ∧
        (inode.movementState = .placed ∧ settle leaves world oid seq = (world,.ok ()) ∨
          leaves inode.movementState ∧ settle leaves world oid seq =
            (world.setInode oid {inode with movementState := .placed, intendedTier := inode.currentTier},.ok ())) := by
  unfold settle
  split
  · exact .inl ⟨_,rfl⟩
  next inode found =>
  split
  · exact .inl ⟨_,rfl⟩
  next same =>
  split
  · next placed => exact .inr ⟨inode,found,not_not.mp same,.inl ⟨placed,rfl⟩⟩
  split
  · exact .inl ⟨_,rfl⟩
  next left =>
  exact .inr ⟨inode,found,not_not.mp same,.inr ⟨not_not.mp left,rfl⟩⟩

theorem settle_spec : (settle leaves world oid seq).1 = world ∨
      ∃ inode, world.inodes oid = some inode ∧ leaves inode.movementState ∧ inode.transactionSeq = seq ∧
        settle leaves world oid seq =
          (world.setInode oid {inode with movementState := .placed, intendedTier := inode.currentTier},.ok ()) := by
  obtain ⟨errno,refused⟩ | ⟨inode,found,same,⟨_,settled⟩ | ⟨left,settled⟩⟩ := settle_cases world oid seq leaves
  · exact .inl (by rw [refused])
  · exact .inl (by rw [settled])
  · exact .inr ⟨inode,found,left,same,settled⟩

variable {world oid} in
theorem settle_leaves {inode : Inode} (found : world.inodes oid = some inode)
    (moves : inode.movementState ≠ .placed) (left : leaves inode.movementState) :
    settle leaves world oid inode.transactionSeq =
      (world.setInode oid {inode with movementState := .placed, intendedTier := inode.currentTier},.ok ()) := by
  simp [settle,found,moves,left]

end Settle

/-- Nothing but the movement fields of one inode is another. -/
def Marked (oid : Oid) (world after : World) : Prop :=
  after = world ∨ ∃ inode intended state seq, world.inodes oid = some inode ∧
    after = world.setInode oid {inode with intendedTier := intended, movementState := state, transactionSeq := seq}

theorem Marked.history {world after : World} {oid : Oid} (marked : Marked oid world after) : after.history = world.history := by
  obtain rfl | ⟨_,_,_,_,_,rfl⟩ := marked <;> rfl

theorem movementPlan_marked : Marked oid world (movementPlan world oid destTier seq force).1 := by
  obtain ⟨_,refused⟩ | ⟨inode,found,_,_,_,_,accepted⟩ := movementPlan_spec world oid destTier seq force
  · exact .inl (by rw [refused])
  · exact .inr ⟨inode,_,_,_,found,by rw [accepted]⟩

theorem settle_marked (leaves : MovementState → Prop) [DecidablePred leaves] :
    Marked oid world (settle leaves world oid seq).1 := by
  obtain same | ⟨inode,found,_,_,settled⟩ := settle_spec world oid seq leaves
  · exact .inl same
  · exact .inr ⟨inode,_,_,_,found,by rw [settled]⟩

def recordPlaced (world : World) (oid : Oid) (failure : Option Errno) (settled : World × Except Errno Unit) :
    World × Except Errno Unit :=
  match failure, settled.2 with
  | some errno, .ok () => if (world.inodes oid).any (·.movementState ≠ .placed) then (world,.error errno) else settled
  | _, _ => settled

theorem recordPlaced_spec (failure : Option Errno) (settled : World × Except Errno Unit) :
    recordPlaced world oid failure settled = settled ∨ ∃ errno, recordPlaced world oid failure settled = (world,.error errno) := by
  unfold recordPlaced
  split
  · split
    · exact .inr ⟨_,rfl⟩
    · exact .inl rfl
  · exact .inl rfl

end Smoothfs.Movement
