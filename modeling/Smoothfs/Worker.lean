import Smoothfs.Control
import Smoothfs.Library.Filepath

/-! `Worker.execute`, the movement of one object by one plan. -/
namespace Smoothfs.Worker

open Program Control Movement Run

inductive GoError
  | new (text : String)
  | wrap (text : String) (cause : GoError)
  | errno (errno : Errno)
  | join (first second : GoError)
  deriving DecidableEq, Repr

def errLUNQuiesceRequired : GoError := .new "lun backing file requires target quiesce before movement"
def errRangeStagedMovement : GoError := .new "range-staged object requires drain or merged-view copy before movement"
def errLUNPlacementStale : GoError := .new "quiesced LUN placement is stale"
def errLUNRecordRequired : GoError := .new "tracked LUN record required for active LUN movement"
def errDestinationTierBad : GoError := .new "destination tier is not valid for active LUN movement"
def errLUNResumeRequired : GoError := .new "lun target resume hook required after movement"
def errLUNDestinationStale : GoError := .new "lun destination placement is stale after cutover"
def errLUNPinNotVisible : GoError := .new "lun destination pin is not visible after re-pin"
def errLUNSourcePinNotVisible : GoError := .new "lun source pin is not visible after rollback re-pin"
def errSourceRaced : GoError := .new "source changed during copy; cutover aborted"

abbrev Act (α : Type) : Type := Prog Op Reply GoError α

def request (op : Op) (text : String) : Act (Value op) :=
  .call op fun
    | .ok value => .done value
    | .error errno => .fail (.wrap text (.errno errno))

def ignore (op : Op) : Act Unit :=
  .call op fun _ => .done ()

structure Hooks where
  resumeLUNTarget : Bool
  deriving DecidableEq, Repr

def oidHex (oid : Oid) : String :=
  String.ofList (List.leftpad 32 '0' (Nat.toDigits 16 oid))

def lacksPath (rel : RelPath) (oid : Oid) : Bool :=
  rel = [] ∨ rel = [oidHex oid]

def joinPath (dir : LowerDir) (rel : RelPath) : Loc :=
  ⟨dir,Filepath.clean rel⟩

def require (condition : Bool) (error : GoError) : Act Unit :=
  if condition then .done () else .fail error

def checkLUNPlacement (plan : MovementPlan) (ins : InspectResult) (rank : Nat) (dir : LowerDir) (stale : GoError) :
    Act Unit := do
  require (ins.currentTier = rank) (.wrap "kernel tier rank" stale)
  require (ins.relPath = [] ∨ plan.relPath = [] ∨ ins.relPath = plan.relPath) (.wrap "kernel rel_path" stale)
  require (ins.currentTierPath = none ∨ plan.relPath = [] ∨ ins.currentTierPath = some (joinPath dir plan.relPath))
    (.wrap "kernel path" stale)

def verifyLUNSourceRePin (plan : MovementPlan) : Act Unit := do
  let ins ← request (.inspect plan.objectID) "inspect after source lun re-pin"
  checkLUNPlacement plan ins plan.sourceTierRank plan.sourceLowerDir errLUNPlacementStale
  require (ins.pinState = .lun) errLUNSourcePinNotVisible

def verifyLUNDestination (plan : MovementPlan) : Act Unit := do
  let ins ← request (.inspect plan.objectID) "inspect after lun cutover"
  checkLUNPlacement plan ins plan.destTierRank plan.destLowerDir errLUNDestinationStale

def verifyLUNRePin (plan : MovementPlan) : Act Unit := do
  let ins ← request (.inspect plan.objectID) "inspect after lun re-pin"
  checkLUNPlacement plan ins plan.destTierRank plan.destLowerDir errLUNDestinationStale
  require (ins.pinState = .lun) errLUNPinNotVisible

def requireLUNMoveRecord (plan : MovementPlan) : Act Unit := do
  let found ← request (.selectRow plan.objectID) "read lun movement record"
  match found with
  | none => .fail errLUNRecordRequired
  | some row =>
    require (row.namespaceID = plan.namespaceID) (.wrap "namespace" errLUNRecordRequired)
    require (row.pinState = .lun) (.wrap "pin_state" errLUNRecordRequired)
    require (row.movementState = .placed) (.wrap "movement_state" errLUNRecordRequired)
    require (row.currentTierID = plan.sourceTierID) (.wrap "db source tier" errLUNPlacementStale)
    require (row.relPath = [] ∨ ¬ lacksPath plan.relPath plan.objectID)
      (.wrap "requires explicit rel_path" errLUNPlacementStale)
    require (row.relPath = [] ∨ row.relPath = plan.relPath) (.wrap "db rel_path" errLUNPlacementStale)

def checkQuiescedLUN (plan : MovementPlan) (ins : InspectResult) : Act Unit := do
  require (¬ lacksPath plan.relPath plan.objectID)
    (.wrap "requires explicit rel_path in movement plan" errLUNPlacementStale)
  require (Filepath.normalized plan.relPath) (.wrap "is not normalized relative path" errLUNPlacementStale)
  require (plan.sourceLowerDir ≠ plan.destLowerDir)
    (.wrap "requires distinct source and destination lower directories in movement plan" errLUNPlacementStale)
  require (plan.sourceTierID ≠ "" ∧ plan.destTierID ≠ "") errDestinationTierBad
  require (plan.destTierID ≠ plan.sourceTierID ∧ plan.destTierRank ≠ plan.sourceTierRank) errDestinationTierBad
  requireLUNMoveRecord plan
  require (ins.pinState = .none) (.new "quiesced lun has incompatible pin state")
  checkLUNPlacement plan ins plan.sourceTierRank plan.sourceLowerDir errLUNPlacementStale

def checkLUN (plan : MovementPlan) (ins : InspectResult) : Act Unit :=
  if plan.rePinLUN then checkQuiescedLUN plan ins else .done ()

def logTransition (plan : MovementPlan) (fromState : Option MovementState) (toState : MovementState) : Act Unit :=
  ignore (.exec (.logTransition plan fromState toState))

def persistObject (plan : MovementPlan) (state : MovementState) : Act Unit :=
  ignore (.exec (.persistObject plan state))

variable {α : Type}

def abort (plan : MovementPlan) (cause : GoError) : Act α := do
  logTransition plan none .failed
  ignore (.exec (.abort plan))
  .fail cause

def resumeTarget (hooks : Hooks) (plan : MovementPlan) : Act Unit :=
  if hooks.resumeLUNTarget then request (.resumeLUNTarget plan.lunTargetID) "resume lun target"
  else .fail errLUNResumeRequired

def repinSource (plan : MovementPlan) (source : Loc) : Act Unit := do
  request (.setLUNPin source) "repin source lun"
  verifyLUNSourceRePin plan
  ignore (.exec (.persistLUNPin plan.objectID))

def rollbackLUNBeforeSwitch (hooks : Hooks) (plan : MovementPlan) (source : Loc) (cause : GoError) : Act α :=
  if plan.rePinLUN then do
    match ← (repinSource plan source).attempt with
    | .error error => abort plan (.join cause error)
    | .ok () =>
      if plan.lunTargetID = "" then abort plan cause
      else
        match ← (resumeTarget hooks plan).attempt with
        | .error error => abort plan (.join cause error)
        | .ok () => abort plan cause
  else abort plan cause

def dropDestination (hooks : Hooks) (plan : MovementPlan) (source destination : Loc) (cause : GoError) : Act α := do
  ignore (.remove destination)
  rollbackLUNBeforeSwitch hooks plan source cause

def failAfterSwitch (plan : MovementPlan) (cause : GoError) : Act α := do
  logTransition plan (some .switched) .failed
  ignore (.exec (.failAfterSwitch plan))
  .fail cause

def fillDestination (src dst : FileId) (size : Nat) (destination : Loc) : Act Bytes := do
  match ← (request (.ioCopy src dst) "copy").attempt with
  | .error error => do
    ignore (.closeFile dst)
    .fail error
  | .ok bytes =>
    if bytes.length ≠ size then do
      ignore (.closeFile dst)
      .fail (.new "short copy")
    else do
      match ← (request (.syncFile dst) "sync destination").attempt with
      | .error error => do
        ignore (.closeFile dst)
        .fail error
      | .ok () =>
        request (.closeFile dst) "close destination"
        request (.syncDir destination) "sync destination directory"
        .done bytes

def copyWithChecksum (object : Oid) (source destination : Loc) : Act Bytes := do
  let src ← request (.openSource source) "open source"
  let info ← request (.statFile src) "stat source"
  request (.mkdirAllSync destination) "mkdir destination"
  let dst ← request (.openDestination destination object) "open destination (nofollow)"
  fillDestination src dst info.size destination

def resolveRelPath (plan : MovementPlan) (ins : InspectResult) : Act MovementPlan :=
  if lacksPath plan.relPath plan.objectID then
    if ins.relPath = [] then .fail (.new "kernel returned empty rel_path for object")
    else do
      ignore (.exec (.updateRelPath plan.objectID ins.relPath))
      .done {plan with relPath := ins.relPath}
  else .done plan

def acceptPlan (plan : MovementPlan) (ins : InspectResult) : Act (InspectResult × MovementPlan) := do
  require (ins.pinState ≠ .lun) errLUNQuiesceRequired
  require (¬ ins.rangeStaged) errRangeStagedMovement
  checkLUN plan ins
  let plan ← resolveRelPath plan ins
  require (ins.movementState = .placed) (.new "kernel movement requires recovery")
  .done (ins,plan)

def preflight (plan : MovementPlan) : Act (InspectResult × MovementPlan) := do
  let ins ← request (.inspect plan.objectID) "inspect before movement"
  acceptPlan plan ins

def persistIntent (plan : MovementPlan) : Act Unit := do
  let affected ← request (.exec (.persistIntent plan)) "persist movement intent"
  require (affected = 1) (.wrap "persist movement intent" (.new "object already has an interrupted movement"))

def orDrop (hooks : Hooks) (plan : MovementPlan) (source destination : Loc) (text : String) (step : Act α) : Act α := do
  match ← step.attempt with
  | .ok value => .done value
  | .error error => dropDestination hooks plan source destination (.wrap text error)

def orRollback (hooks : Hooks) (plan : MovementPlan) (source : Loc) (text : String) (step : Act α) : Act α := do
  match ← step.attempt with
  | .ok value => .done value
  | .error error => rollbackLUNBeforeSwitch hooks plan source (.wrap text error)

def dropIf (hooks : Hooks) (plan : MovementPlan) (source destination : Loc) (raced : Bool) (cause : GoError) : Act Unit :=
  if raced then dropDestination hooks plan source destination cause else .done ()

def reserve (hooks : Hooks) (plan : MovementPlan) (source destination : Loc) : Act FileStat := do
  orRollback hooks plan source "mkdir dest parent" (request (.mkdirAll destination) "mkdir")
  logTransition plan (some .planAccepted) .destinationReserved
  persistObject plan .destinationReserved
  orDrop hooks plan source destination "pre-copy stat" (request (.stat source) "stat")

/-- Read the copy back; the source must not have changed by its times, its size,
its content or the kernel's `write_seq`. -/
def verifyCopy (hooks : Hooks) (ins : InspectResult) (plan : MovementPlan) (source destination : Loc)
    (before : FileStat) (sum : Bytes) : Act Unit := do
  logTransition plan (some .destinationReserved) .copyInProgress
  persistObject plan .copyInProgress
  let written ← orDrop hooks plan source destination "verify dst" (request (.fileSHA256 destination) "sha256")
  dropIf hooks plan source destination (written ≠ sum) (.new "checksum mismatch")
  let after ← orDrop hooks plan source destination "post-copy stat" (request (.stat source) "stat")
  dropIf hooks plan source destination (after.mtime ≠ before.mtime ∨ after.size ≠ before.size) errSourceRaced
  let again ← orDrop hooks plan source destination "verify source stable" (request (.fileSHA256 source) "sha256")
  dropIf hooks plan source destination (again ≠ sum) errSourceRaced
  let stable ← orDrop hooks plan source destination "inspect source stable" (request (.inspect plan.objectID) "inspect")
  dropIf hooks plan source destination (ins.hasWriteSeq ∧ (¬ stable.hasWriteSeq ∨ stable.writeSeq ≠ ins.writeSeq))
    errSourceRaced
  dropIf hooks plan source destination stable.rangeStaged errRangeStagedMovement
  logTransition plan (some .copyInProgress) .copyVerified
  persistObject plan .copyVerified

def copyAndVerify (hooks : Hooks) (ins : InspectResult) (plan : MovementPlan) (source destination : Loc) : Act Unit := do
  let before ← reserve hooks plan source destination
  let sum ← orDrop hooks plan source destination "copy" (copyWithChecksum plan.objectID source destination)
  verifyCopy hooks ins plan source destination before sum

def cutover (hooks : Hooks) (ins : InspectResult) (plan : MovementPlan) (source destination : Loc) : Act Unit := do
  orDrop hooks plan source destination "move_cutover"
    (request (.moveCutover plan.objectID plan.transactionSeq (if ins.hasWriteSeq then some ins.writeSeq else none)) "cutover")
  logTransition plan (some .copyVerified) .switched
  persistObject plan .switched

def repinDestination (hooks : Hooks) (plan : MovementPlan) (destination : Loc) : Act Unit := do
  verifyLUNDestination plan
  request (.setLUNPin destination) "repin lun"
  verifyLUNRePin plan
  ignore (.exec (.persistLUNPin plan.objectID))
  if plan.lunTargetID = "" then .done () else resumeTarget hooks plan

def cleanupFailed (plan : MovementPlan) (cause : GoError) : Act α := do
  logTransition plan (some .switched) .cleanupInProgress
  persistObject plan .cleanupInProgress
  .fail cause

def removeSource (source : Loc) : Act Unit :=
  .call (.remove source) fun reply =>
    if reply = .ok () ∨ reply = .error .enoent then request (.syncDir source) "sync source cleanup"
    else .fail (.new "cleanup source")

def cleanup (plan : MovementPlan) (source : Loc) : Act Unit := do
  let cleaned ← (do
    removeSource source
    request (.moveComplete plan.objectID plan.transactionSeq) "move_complete" : Act Unit).attempt
  match cleaned with
  | .error error => cleanupFailed plan error
  | .ok () =>
    logTransition plan (some .switched) .cleanupComplete
    ignore (.exec (.finalize plan))

def move (hooks : Hooks) (ins : InspectResult) (plan : MovementPlan) : Act Unit := do
  let source := joinPath plan.sourceLowerDir plan.relPath
  let destination := joinPath plan.destLowerDir plan.relPath
  persistIntent plan
  orRollback hooks plan source "move_plan"
    (request (.movePlan plan.objectID plan.destTierRank plan.transactionSeq) "plan")
  copyAndVerify hooks ins plan source destination
  cutover hooks ins plan source destination
  if plan.rePinLUN then
    match ← (repinDestination hooks plan destination).attempt with
    | .error error => failAfterSwitch plan error
    | .ok () => cleanup plan source
  else cleanup plan source

def execute (hooks : Hooks) (plan : MovementPlan) : Act Unit := do
  let (ins,plan) ← preflight plan
  move hooks ins plan

section Requests

variable {S Result Env : Type} {system : Machine Op Reply S Result Env} {rely : Rely Op S Result Env} {check : S → Op → Prop}
variable {pre bad : S → Prop}

theorem triple_request {op : Op} {ok : Value op → S → Prop} (text : String) (stable : Stable system rely pre)
    (steady : ∀ value, Stable system rely (ok value)) (settled : Stable system rely bad)
    (checked : ∀ world, pre world → check world op)
    (performed : ∀ world outcome after reply, pre world → rely.outcome world op outcome →
      system.perform world op outcome = some (after,reply) → Ends ok bad reply after) :
    Triple system rely check pre (request op text) (Ends ok bad) := by
  refine triple_call stable (Ends ok bad) checked performed fun reply => ?_
  cases reply with
  | ok value => exact triple_done (steady value) (fun _ => id)
  | error errno => exact triple_fail settled (fun _ => id)

theorem triple_require (condition : Bool) (error : GoError) (stable : Stable system rely pre) :
    Triple system rely check pre (require condition error) (Ends (fun _ world => condition = true ∧ pre world) pre) := by
  unfold require
  split
  · next met => exact triple_done stable (fun _ holds => ⟨met,holds⟩)
  · exact triple_fail stable (fun _ => id)

end Requests

def chosenPath (plan : MovementPlan) (ins : InspectResult) : RelPath :=
  if lacksPath plan.relPath plan.objectID then ins.relPath else plan.relPath

def effectivePath (world : World) (plan : MovementPlan) : RelPath :=
  if lacksPath plan.relPath plan.objectID then ((world.inodes plan.objectID).bind (·.relPath)).getD [] else plan.relPath

theorem effectivePath_inspect {world : World} {plan : MovementPlan} {ins : InspectResult}
    (inspected : inspect world plan.objectID = .ok ins) : effectivePath world plan = chosenPath plan ins := by
  obtain ⟨inode,found,rfl⟩ := (inspect_ok ..).mp inspected
  simp only [effectivePath,chosenPath,found,Option.bind_some,inspectReply]

variable (plan : MovementPlan)

theorem returns_resolveRelPath (ins : InspectResult) :
    Returns (fun value => value = {plan with relPath := chosenPath plan ins}) (resolveRelPath plan ins) := by
  unfold resolveRelPath
  split
  · next lacks =>
    split
    · exact trivial
    · rw [chosenPath,if_pos lacks]
      exact fun _ => rfl
  · next has => simp only [Returns,chosenPath,if_neg has]

theorem returns_acceptPlan (ins : InspectResult) :
    Returns (fun value => value = (ins,{plan with relPath := chosenPath plan ins})) (acceptPlan plan ins) := by
  refine returns_bind (returns_any _) fun _ _ => returns_bind (returns_any _) fun _ _ => ?_
  refine returns_bind (returns_any _) fun _ _ => returns_bind (returns_resolveRelPath plan ins) fun value same => ?_
  subst same
  exact returns_bind (returns_any _) fun _ _ => rfl

theorem returns_preflight : Returns (fun value => ∃ rel, value.2 = {plan with relPath := rel}) (preflight plan) := by
  intro reply
  cases reply with
  | error errno => exact trivial
  | ok ins =>
    refine returns_mono _ (fun value same => ?_) (returns_acceptPlan plan ins)
    rw [same]
    exact ⟨_,rfl⟩

theorem fails_abort {cause : GoError} : Fails (abort plan cause : Act α) :=
  fails_bind fun _ => fails_bind fun _ => trivial

variable (hooks : Hooks)

theorem fails_rollback (plan : MovementPlan) (source : Loc) (cause : GoError) :
    Fails (rollbackLUNBeforeSwitch hooks plan source cause : Act α) := by
  unfold rollbackLUNBeforeSwitch
  split
  · refine fails_bind fun repinned => ?_
    split
    · exact fails_abort _
    split
    · exact fails_abort _
    · refine fails_bind fun resumed => ?_
      split <;> exact fails_abort _
  · exact fails_abort _

theorem fails_dropDestination {plan : MovementPlan} {source destination : Loc} {cause : GoError} :
    Fails (dropDestination hooks plan source destination cause : Act α) :=
  fails_bind fun _ => fails_rollback hooks plan source cause

section Steps

variable {S Result Env : Type} {system : Machine Op Reply S Result Env} {rely : Rely Op S Result Env} {check : S → Op → Prop}
variable {pre bad final : S → Prop} {ok : α → S → Prop} {hooks : Hooks} (plan : MovementPlan) {source : Loc} (destination : Loc)

variable (text : String) (step : Act α)

theorem triple_orDrop (runs : Triple system rely check pre step (Ends ok bad)) (steady : ∀ value, Stable system rely (ok value))
    (drops : ∀ cause, Triple system rely check bad (dropDestination hooks plan source destination cause : Act α)
      (Ends ok final)) : Triple system rely check pre (orDrop hooks plan source destination text step) (Ends ok final) :=
  triple_handle runs (fun value => triple_done (steady value) (fun _ => id)) (fun _ => drops _)

theorem triple_orRollback (runs : Triple system rely check pre step (Ends ok bad))
    (steady : ∀ value, Stable system rely (ok value))
    (rolls : ∀ cause, Triple system rely check bad (rollbackLUNBeforeSwitch hooks plan source cause : Act α) (Ends ok final)) :
    Triple system rely check pre (orRollback hooks plan source text step) (Ends ok final) :=
  triple_handle runs (fun value => triple_done (steady value) (fun _ => id)) (fun _ => rolls _)

end Steps

section Uses

variable {allowed : Op → Prop} (quiet : ∀ op, op.steady = true → allowed op)

variable (op : Op)

theorem uses_request (text : String) (fits : allowed op) : Uses allowed (request op text) :=
  ⟨fits,fun reply => by cases reply <;> exact trivial⟩

theorem uses_ignore (fits : allowed op) : Uses allowed (ignore op) :=
  ⟨fits,fun _ => trivial⟩

theorem uses_require {condition : Bool} {error : GoError} : Uses allowed (require condition error) := by
  unfold require
  split <;> exact trivial

variable (plan : MovementPlan) (ins : InspectResult)

theorem uses_placement {rank : Nat} {dir : LowerDir} {stale : GoError} :
    Uses allowed (checkLUNPlacement plan ins rank dir stale) :=
  uses_bind uses_require fun _ => uses_bind uses_require fun _ => uses_require

theorem uses_checkQuiescedLUN (reads : allowed (.selectRow plan.objectID)) : Uses allowed (checkQuiescedLUN plan ins) := by
  refine uses_bind uses_require fun _ => uses_bind uses_require fun _ => ?_
  refine uses_bind uses_require fun _ => uses_bind uses_require fun _ => ?_
  refine uses_bind uses_require fun _ => uses_bind ?_ fun _ => ?_
  · refine uses_bind (uses_request _ _ reads) fun found => ?_
    split
    · exact trivial
    · refine uses_bind uses_require fun _ => uses_bind uses_require fun _ => ?_
      refine uses_bind uses_require fun _ => uses_bind uses_require fun _ => ?_
      exact uses_bind uses_require fun _ => uses_require
  · exact uses_bind uses_require fun _ => uses_placement _ _

section Calm

variable (calm : ∀ op, op.steady = true → op.lunStep = false → allowed op)

include calm

theorem uses_fill {src dst : FileId} {size : Nat} {destination : Loc} (copies : allowed (.ioCopy src dst)) :
    Uses allowed (fillDestination src dst size destination) := by
  refine uses_bind (uses_attempt (uses_request _ _ copies)) fun copied => ?_
  split
  · exact uses_bind (uses_ignore _ (calm _ rfl rfl)) fun _ => trivial
  split
  · exact uses_bind (uses_ignore _ (calm _ rfl rfl)) fun _ => trivial
  refine uses_bind (uses_attempt (uses_request _ _ (calm _ rfl rfl))) fun synced => ?_
  split
  · exact uses_bind (uses_ignore _ (calm _ rfl rfl)) fun _ => trivial
  · refine uses_bind (uses_request _ _ (calm _ rfl rfl)) fun _ => ?_
    exact uses_bind (uses_request _ _ (calm _ rfl rfl)) fun _ => trivial

theorem uses_copy {object : Oid} {source destination : Loc} (opens : allowed (.openDestination destination object))
    (copies : ∀ src dst, allowed (.ioCopy src dst)) : Uses allowed (copyWithChecksum object source destination) := by
  refine uses_bind (uses_request _ _ (calm _ rfl rfl)) fun src => ?_
  refine uses_bind (uses_request _ _ (calm _ rfl rfl)) fun info => ?_
  refine uses_bind (uses_request _ _ (calm _ rfl rfl)) fun _ => ?_
  exact uses_bind (uses_request _ _ opens) fun dst => uses_fill calm (copies src dst)

variable (plan : MovementPlan)

theorem uses_log {fromState : Option MovementState} {toState : MovementState} :
    Uses allowed (logTransition plan fromState toState) :=
  uses_ignore _ (calm _ rfl rfl)

theorem uses_persist {state : MovementState} : Uses allowed (persistObject plan state) :=
  uses_ignore _ (calm _ rfl rfl)

variable (cause : GoError)

theorem uses_abort : Uses allowed (abort plan cause : Act α) :=
  uses_bind (uses_log calm _) fun _ => uses_bind (uses_ignore _ (calm _ rfl rfl)) fun _ => trivial

theorem uses_failAfterSwitch : Uses allowed (failAfterSwitch plan cause : Act α) :=
  uses_bind (uses_log calm _) fun _ => uses_bind (uses_ignore _ (calm _ rfl rfl)) fun _ => trivial

theorem uses_cleanup {source : Loc} (removes : allowed (.remove source))
    (completes : allowed (.moveComplete plan.objectID plan.transactionSeq)) : Uses allowed (cleanup plan source) := by
  refine uses_bind (uses_attempt (uses_bind ⟨removes,fun reply => ?_⟩ fun _ => uses_request _ _ completes))
    fun cleaned => ?_
  · dsimp only
    split
    · exact uses_request _ _ (calm _ rfl rfl)
    · exact trivial
  · split
    · refine uses_bind (uses_log calm _) fun _ => ?_
      exact uses_bind (uses_persist calm _) fun _ => trivial
    · exact uses_bind (uses_log calm _) fun _ => uses_ignore _ (calm _ rfl rfl)

variable (ins : InspectResult)

theorem uses_resolveRelPath : Uses allowed (resolveRelPath plan ins) := by
  unfold resolveRelPath
  split
  · split
    · exact trivial
    · exact uses_bind (uses_ignore _ (calm _ rfl rfl)) fun _ => trivial
  · exact trivial

theorem uses_acceptPlan : Uses allowed (acceptPlan plan ins) := by
  refine uses_bind uses_require fun _ => uses_bind uses_require fun _ => ?_
  refine uses_bind ?_ fun _ => uses_bind (uses_resolveRelPath calm plan ins) fun resolved => ?_
  · unfold checkLUN
    split
    · exact uses_checkQuiescedLUN plan ins (calm _ rfl rfl)
    · exact trivial
  · exact uses_bind uses_require fun _ => trivial

theorem uses_preflight : Uses allowed (preflight plan) :=
  uses_bind (uses_request _ _ (calm _ rfl rfl)) fun ins => uses_acceptPlan calm plan ins

theorem uses_persistIntent : Uses allowed (persistIntent plan) :=
  uses_bind (uses_request _ _ (calm _ rfl rfl)) fun _ => uses_require

end Calm

include quiet

theorem calmed (steady : op.steady = true) (_ : op.lunStep = false) : allowed op :=
  quiet op steady

variable (hooks : Hooks)

theorem uses_resumeTarget (plan : MovementPlan) : Uses allowed (resumeTarget hooks plan) := by
  unfold resumeTarget
  split
  · exact uses_request _ _ (quiet _ rfl)
  · exact trivial

theorem uses_repinSource (source : Loc) : Uses allowed (repinSource plan source) := by
  refine uses_bind (uses_request _ _ (quiet _ rfl)) fun _ => uses_bind ?_ fun _ => uses_ignore _ (quiet _ rfl)
  refine uses_bind (uses_request _ _ (quiet _ rfl)) fun ins => ?_
  exact uses_bind (uses_placement _ _) fun _ => uses_require

theorem uses_rollback (plan : MovementPlan) (source : Loc) (cause : GoError) :
    Uses allowed (rollbackLUNBeforeSwitch hooks plan source cause : Act α) := by
  unfold rollbackLUNBeforeSwitch
  split
  · refine uses_bind (uses_attempt (uses_repinSource quiet plan source)) fun repinned => ?_
    split
    · exact uses_abort (calmed quiet) _ _
    split
    · exact uses_abort (calmed quiet) _ _
    · refine uses_bind (uses_attempt (uses_resumeTarget quiet hooks plan)) fun resumed => ?_
      split <;> exact uses_abort (calmed quiet) _ _
  · exact uses_abort (calmed quiet) _ _

variable {destination : Loc}

theorem uses_dropDestination (plan : MovementPlan) (source : Loc) (cause : GoError)
    (drops : allowed (.remove destination)) : Uses allowed (dropDestination hooks plan source destination cause : Act α) :=
  uses_bind (uses_ignore _ drops) fun _ => uses_rollback quiet hooks plan source cause

variable {source : Loc}

theorem uses_orDrop {plan : MovementPlan} {text : String} {step : Act α}
    (drops : allowed (.remove destination)) (uses : Uses allowed step) :
    Uses allowed (orDrop hooks plan source destination text step) := by
  refine uses_bind (uses_attempt uses) fun result => ?_
  split
  · exact trivial
  · exact uses_dropDestination quiet hooks plan source _ drops

theorem uses_orRollback {plan : MovementPlan} {text : String} {step : Act α}
    (uses : Uses allowed step) : Uses allowed (orRollback hooks plan source text step) := by
  refine uses_bind (uses_attempt uses) fun result => ?_
  split
  · exact trivial
  · exact uses_rollback quiet hooks plan source _

theorem uses_dropIf {plan : MovementPlan} {raced : Bool} {cause : GoError}
    (drops : allowed (.remove destination)) : Uses allowed (dropIf hooks plan source destination raced cause) := by
  unfold dropIf
  split
  · exact uses_dropDestination quiet hooks plan source cause drops
  · exact trivial

theorem uses_reserve {plan : MovementPlan}
    (drops : allowed (.remove destination)) : Uses allowed (reserve hooks plan source destination) := by
  refine uses_bind (uses_orRollback quiet _ (uses_request _ _ (quiet _ rfl))) fun _ => ?_
  refine uses_bind (uses_log (calmed quiet) _) fun _ => uses_bind (uses_persist (calmed quiet) _) fun _ => ?_
  exact uses_orDrop quiet _ drops (uses_request _ _ (quiet _ rfl))

theorem uses_verifyCopy {ins : InspectResult} {plan : MovementPlan}
    {before : FileStat} {sum : Bytes} (drops : allowed (.remove destination)) :
    Uses allowed (verifyCopy hooks ins plan source destination before sum) := by
  have asks (op : Op) (text label : String) (fits : op.steady = true) :
      Uses allowed (orDrop hooks plan source destination label (request op text)) :=
    uses_orDrop quiet _ drops (uses_request op text (quiet op fits))
  have guards (raced : Bool) (cause : GoError) : Uses allowed (dropIf hooks plan source destination raced cause) :=
    uses_dropIf quiet _ drops
  refine uses_bind (uses_log (calmed quiet) _) fun _ => uses_bind (uses_persist (calmed quiet) _) fun _ => ?_
  refine uses_bind (asks _ _ _ rfl) fun written => uses_bind (guards _ _) fun _ => ?_
  refine uses_bind (asks _ _ _ rfl) fun after => uses_bind (guards _ _) fun _ => ?_
  refine uses_bind (asks _ _ _ rfl) fun again => uses_bind (guards _ _) fun _ => ?_
  refine uses_bind (asks _ _ _ rfl) fun stable => uses_bind (guards _ _) fun _ => ?_
  refine uses_bind (guards _ _) fun _ => ?_
  exact uses_bind (uses_log (calmed quiet) _) fun _ => uses_persist (calmed quiet) _

theorem uses_copyAndVerify (ins : InspectResult) (plan : MovementPlan) (source destination : Loc)
    (drops : allowed (.remove destination)) (opens : allowed (.openDestination destination plan.objectID))
    (copies : ∀ src dst, allowed (.ioCopy src dst)) : Uses allowed (copyAndVerify hooks ins plan source destination) := by
  refine uses_bind (uses_reserve quiet _ drops) fun before => uses_bind ?_ fun sum => ?_
  · exact uses_orDrop quiet _ drops (uses_copy (calmed quiet) opens copies)
  · exact uses_verifyCopy quiet _ drops

theorem uses_repinDestination {plan : MovementPlan} :
    Uses allowed (repinDestination hooks plan destination) := by
  refine uses_bind ?_ fun _ => uses_bind (uses_request _ _ (quiet _ rfl)) fun _ => uses_bind ?_ fun _ => ?_
  · exact uses_bind (uses_request _ _ (quiet _ rfl)) fun ins => uses_placement _ _
  · refine uses_bind (uses_request _ _ (quiet _ rfl)) fun ins => ?_
    exact uses_bind (uses_placement _ _) fun _ => uses_require
  · refine uses_bind (uses_ignore _ (quiet _ rfl)) fun _ => ?_
    split
    · exact trivial
    · exact uses_resumeTarget quiet hooks plan

end Uses

section Verification

variable {S Result Env : Type} {system : Machine Op Reply S Result Env} {rely : Rely Op S Result Env} {check : S → Op → Prop}
variable {good bad : S → Prop} {hooks : Hooks} {plan : MovementPlan} {source destination : Loc}

theorem triple_dropIf (stable : Stable system rely good) (raced : Bool) {cause : GoError}
    (drops : Triple system rely check good (dropDestination hooks plan source destination cause : Act Unit) (Ends (fun _ => good) bad)) :
    Triple system rely check good (dropIf hooks plan source destination raced cause) (Ends (fun _ => good) bad) := by
  unfold dropIf
  split
  · exact drops
  · exact triple_done stable (fun _ => id)

theorem triple_verifies {failed : S → Prop} (stable : Stable system rely good) (weakens : ∀ state, good state → failed state)
    (asks : ∀ (op : Op) (text : String), op.steady = true → op.lunStep = false →
      Triple system rely check good (request op text) (Ends (fun _ => good) failed))
    (notes : ∀ op : Op, op.steady = true → op.lunStep = false →
      Triple system rely check good (ignore op) (Ends (fun _ => good) bad))
    (drops : ∀ {β : Type} (cause : GoError),
      Triple system rely check failed (dropDestination hooks plan source destination cause : Act β) (Ends (fun _ => good) bad))
    (ins : InspectResult) (before : FileStat) (sum : Bytes) :
    Triple system rely check good (verifyCopy hooks ins plan source destination before sum) (Ends (fun _ => good) bad) := by
  have asks (op : Op) (text reason : String) (quiet : op.steady = true) (calm : op.lunStep = false) :
      Triple system rely check good (orDrop hooks plan source destination text (request op reason)) (Ends (fun _ => good) bad) :=
    triple_orDrop plan destination text _ (asks op reason quiet calm) (fun _ => stable) drops
  have guards (raced : Bool) (cause : GoError) := triple_dropIf stable raced ((drops cause).consequence weakens fun _ _ => id)
  refine triple_seq (notes _ rfl rfl) (fun _ => triple_seq (notes _ rfl rfl) (fun _ => ?_))
  refine triple_seq (asks _ _ _ rfl rfl) (fun written => triple_seq (guards _ _) (fun _ => ?_))
  refine triple_seq (asks _ _ _ rfl rfl) (fun after => triple_seq (guards _ _) (fun _ => ?_))
  refine triple_seq (asks _ _ _ rfl rfl) (fun again => triple_seq (guards _ _) (fun _ => ?_))
  refine triple_seq (asks _ _ _ rfl rfl) (fun still => triple_seq (guards _ _) (fun _ => ?_))
  refine triple_seq (guards _ _) fun _ => ?_
  exact triple_seq (notes _ rfl rfl) (fun _ => notes _ rfl rfl)

theorem triple_verifyCopy (stable : Stable system rely good) (weakens : ∀ state, good state → bad state)
    (steady : ∀ {β : Type} (program : Act β), Uses (fun op => op.steady = true) program →
      Triple system rely check good program (Ends (fun _ => good) bad))
    (drops : ∀ {β : Type} (cause : GoError),
      Triple system rely check bad (dropDestination hooks plan source destination cause : Act β) (Ends (fun _ => good) bad))
    (ins : InspectResult) (before : FileStat) (sum : Bytes) :
    Triple system rely check good (verifyCopy hooks ins plan source destination before sum) (Ends (fun _ => good) bad) :=
  triple_verifies stable weakens (fun op text quiet _ => steady _ (uses_request op text quiet))
    (fun op quiet _ => steady _ (uses_ignore op quiet)) drops ins before sum

end Verification

section Success

variable (rely : Rely Op World Outcome Interference)

abbrev Succeeds (pre : World → Prop) (program : Act α) (ok : α → World → Prop) : Prop :=
  Triple machine rely (fun _ _ => True) pre program (Ends ok (fun _ => True))

structure Robust (holds : World → Prop) : Prop where
  stable : Stable machine rely holds
  steady : ∀ world op outcome after reply, op.steady = true → holds world →
    perform world op outcome = some (after,reply) → holds after

theorem robust_record (record : List Event → Prop) : Robust rely (fun world => record world.history) := by
  constructor
  · rintro world next ⟨action,_,interfered⟩ holds
    rw [interfere_history interfered]
    exact holds
  · intro world op outcome after reply steady holds performed
    rw [(perform_steady after outcome steady performed).history]
    exact holds

theorem robust_pure (fact : Prop) : Robust rely (fun _ => fact) :=
  ⟨fun _ _ _ => id,fun _ _ _ _ _ _ holds _ => holds⟩

variable {rely} {pre holds planned opened copied switched settled : World → Prop} {ok : α → World → Prop}

theorem Robust.and {first second : World → Prop} (one : Robust rely first) (two : Robust rely second) :
    Robust rely (fun world => first world ∧ second world) := by
  constructor
  · intro world next interferes holds
    exact ⟨one.stable world next interferes holds.1,two.stable world next interferes holds.2⟩
  · intro world op outcome after reply steady holds performed
    exact ⟨one.steady world op outcome after reply steady holds.1 performed,
      two.steady world op outcome after reply steady holds.2 performed⟩

theorem Robust.exists {ι : Type} {family : ι → World → Prop} (robust : ∀ index, Robust rely (family index)) :
    Robust rely (fun world => ∃ index, family index world) := by
  constructor
  · rintro world next interferes ⟨index,holds⟩
    exact ⟨index,(robust index).stable world next interferes holds⟩
  · rintro world op outcome after reply steady ⟨index,holds⟩ performed
    exact ⟨index,(robust index).steady world op outcome after reply steady holds performed⟩

theorem succeeds_never {program : Act α} (fails : Fails program) : Succeeds rely pre program ok := by
  have runs : Triple machine rely (fun _ _ => True) (fun _ => True) program (Ends (fun _ _ => True) (fun _ => True)) :=
    triple_uses (fun _ _ _ _ => trivial) (fun _ _ _ _ => trivial) (fun _ _ _ _ _ _ _ _ _ => trivial) (uses_any program)
  exact (triple_fails program fails runs).consequence (fun _ _ => trivial) (fun _ _ => id)

theorem succeeds_uses (robust : Robust rely holds) (program : Act α) (uses : Uses (fun op => op.steady = true) program) :
    Succeeds rely holds program (fun _ => holds) :=
  (triple_uses robust.stable (fun _ _ _ _ => trivial) (fun world op outcome after reply steady before _ =>
    robust.steady world op outcome after reply steady before) uses).onError (fun _ _ => trivial)

theorem succeeds_request {op : Op} {ok : Value op → World → Prop} (text : String) (stable : Stable machine rely pre)
    (steady : ∀ value, Stable machine rely (ok value))
    (performed : ∀ world outcome after value, pre world → perform world op outcome = some (after,.ok value) → ok value after) :
    Succeeds rely pre (request op text) ok := by
  apply triple_request text stable steady (fun _ _ _ _ => trivial) (fun _ _ => trivial)
  intro world outcome after reply before _ result
  cases reply with
  | ok value => exact performed world outcome after value before result
  | error errno => trivial

variable (hooks : Hooks) (plan : MovementPlan) (source : Loc) {destination : Loc}

theorem succeeds_orDrop {text : String} {step : Act α}
    (runs : Succeeds rely pre step ok) (steady : ∀ value, Stable machine rely (ok value)) :
    Succeeds rely pre (orDrop hooks plan source destination text step) ok :=
  triple_orDrop plan destination text step runs steady
    (fun _ => succeeds_never (fails_dropDestination _))

theorem succeeds_orRollback {text : String} {step : Act α}
    (runs : Succeeds rely pre step ok) (steady : ∀ value, Stable machine rely (ok value)) :
    Succeeds rely pre (orRollback hooks plan source text step) ok :=
  triple_orRollback plan text step runs steady (fun _ => succeeds_never (fails_rollback _ _ _ _))

theorem succeeds_reserve (robust : Robust rely holds) {hooks : Hooks} {plan : MovementPlan} {source : Loc} :
    Succeeds rely holds (reserve hooks plan source destination) (fun _ => holds) := by
  have runs {β : Type} (program : Act β) (uses : Uses (fun op => op.steady = true) program) :=
    succeeds_uses robust program uses
  refine triple_seq (succeeds_orRollback _ _ _ (runs _ (uses_request _ _ rfl)) (fun _ => robust.stable)) fun _ => ?_
  refine triple_seq (runs _ (uses_log (calmed (fun _ => id)) _)) fun _ => ?_
  refine triple_seq (runs _ (uses_persist (calmed (fun _ => id)) _)) fun _ => ?_
  exact succeeds_orDrop _ _ _ (runs _ (uses_request _ _ rfl)) (fun _ => robust.stable)

theorem succeeds_verifyCopy (robust : Robust rely holds) {hooks : Hooks} {ins : InspectResult} {plan : MovementPlan}
    {source : Loc} {before : FileStat} {sum : Bytes} :
    Succeeds rely holds (verifyCopy hooks ins plan source destination before sum) (fun _ => holds) :=
  triple_verifyCopy robust.stable (fun _ _ => trivial) (succeeds_uses robust)
    (fun _ => succeeds_never (fails_dropDestination _)) ins before sum

theorem succeeds_fill (before : Stable machine rely opened) (robust : Robust rely copied) {src dst : FileId} (size : Nat)
    (destination : Loc)
    (copies : ∀ world outcome after bytes, opened world →
      perform world (.ioCopy src dst) outcome = some (after,.ok bytes) → copied after) :
    Succeeds rely opened (fillDestination src dst size destination) (fun _ => copied) := by
  have fails (error : GoError) {holds : World → Prop} {ok : Bytes → World → Prop} :
      Succeeds rely holds (do ignore (.closeFile dst); .fail error) ok :=
    succeeds_never (fails_bind fun _ => trivial)
  refine triple_handle (succeeds_request "copy" before (fun _ => robust.stable) copies) (fun bytes => ?_) (fun error => fails error)
  dsimp only
  split
  · exact fails _
  · refine triple_handle (succeeds_uses robust _ (uses_request _ _ rfl)) (fun _ => ?_) (fun error => fails error)
    apply succeeds_uses robust
    exact uses_bind (uses_request _ _ rfl) fun _ => uses_bind (uses_request _ _ rfl) fun _ => trivial

theorem succeeds_copy {read : FileId → World → Prop} {opened : FileId → FileId → World → Prop} {object : Oid}
    {source : Loc} (before : Robust rely planned) (reads : ∀ src, Robust rely (read src))
    (opens : ∀ src dst, Stable machine rely (opened src dst)) (ends : Robust rely copied)
    (reading : ∀ world outcome after src, planned world →
      perform world (.openSource source) outcome = some (after,.ok src) → read src after)
    (opening : ∀ src world outcome after dst, read src world →
      perform world (.openDestination destination object) outcome = some (after,.ok dst) → opened src dst after)
    (copying : ∀ src dst world outcome after bytes, opened src dst world →
      perform world (.ioCopy src dst) outcome = some (after,.ok bytes) → copied after) :
    Succeeds rely planned (copyWithChecksum object source destination) (fun _ => copied) := by
  have asks (src : FileId) (op : Op) (text : String) (steady : op.steady = true) :=
    succeeds_uses (reads src) (request op text) (uses_request op text steady)
  refine triple_seq (succeeds_request _ before.stable (fun src => (reads src).stable) reading) fun src => ?_
  refine triple_seq (asks src _ _ rfl) fun info => ?_
  refine triple_seq (asks src _ _ rfl) fun _ => ?_
  refine triple_seq (succeeds_request _ (reads src).stable (opens src) (opening src)) fun dst => ?_
  exact succeeds_fill (opens src dst) ends info.size destination (copying src dst)

theorem succeeds_cleanup (before : Robust rely switched) (ends : Robust rely settled)
    (removing : ∀ world outcome after reply, switched world →
      perform world (.remove source) outcome = some (after,reply) → settled after)
    (completing : ∀ world outcome after reply, settled world →
      perform world (.moveComplete plan.objectID plan.transactionSeq) outcome = some (after,reply) → settled after) :
    Succeeds rely switched (cleanup plan source) (fun _ => settled) := by
  have removes : Succeeds rely switched (removeSource source) (fun _ => settled) := by
    apply triple_call before.stable (fun _ => settled) (fun _ _ => trivial)
    · intro world outcome after reply holds _
      exact removing world outcome after reply holds
    · intro reply
      split
      · exact succeeds_uses ends _ (uses_request _ _ rfl)
      · exact succeeds_never trivial
  have completes : Succeeds rely settled (request (.moveComplete plan.objectID plan.transactionSeq) "move_complete")
      (fun _ => settled) :=
    succeeds_request _ ends.stable (fun _ => ends.stable) (fun world outcome after _ => completing world outcome after _)
  have cleans := triple_seq removes (fun _ => completes)
  refine triple_handle cleans (fun _ => ?_) (fun error => ?_)
  · apply succeeds_uses ends
    exact uses_bind (uses_log (calmed (fun _ => id)) _) fun _ => uses_ignore _ rfl
  · exact succeeds_never (fails_bind fun _ => fails_bind fun _ => trivial)

theorem succeeds_move {ins : InspectResult} {plan : MovementPlan} (begins : Robust rely pre)
    (plans : Robust rely planned) (copies : Robust rely copied) (switches : Robust rely switched) (ends : Robust rely settled)
    (planning : ∀ world outcome after value, pre world →
      perform world (.movePlan plan.objectID plan.destTierRank plan.transactionSeq) outcome = some (after,.ok value) →
        planned after)
    (copying : Succeeds rely planned (copyWithChecksum plan.objectID (joinPath plan.sourceLowerDir plan.relPath)
      (joinPath plan.destLowerDir plan.relPath)) (fun _ => copied)) (switching : ∀ world outcome after value, copied world →
      perform world (.moveCutover plan.objectID plan.transactionSeq (if ins.hasWriteSeq then some ins.writeSeq else none))
        outcome = some (after,.ok value) → switched after) (removing : ∀ world outcome after reply, switched world →
      perform world (.remove (joinPath plan.sourceLowerDir plan.relPath)) outcome = some (after,reply) → settled after)
    (completing : ∀ world outcome after reply, settled world →
      perform world (.moveComplete plan.objectID plan.transactionSeq) outcome = some (after,reply) → settled after) :
    Succeeds rely pre (move hooks ins plan) (fun _ => settled) := by
  have cleans := succeeds_cleanup plan _ switches ends removing completing
  refine triple_seq (succeeds_uses begins _ (uses_persistIntent (calmed (fun _ => id)) plan)) fun _ => ?_
  refine triple_seq (succeeds_orRollback _ _ _ (succeeds_request _ begins.stable (fun _ => plans.stable) planning)
    (fun _ => plans.stable)) fun _ => ?_
  have verifies : Succeeds rely planned (copyAndVerify hooks ins plan (joinPath plan.sourceLowerDir plan.relPath)
      (joinPath plan.destLowerDir plan.relPath)) (fun _ => copied) := by
    refine triple_seq (succeeds_reserve plans) fun before => ?_
    refine triple_seq (succeeds_orDrop _ _ _ copying (fun _ => copies.stable)) fun sum => ?_
    exact succeeds_verifyCopy copies
  refine triple_seq verifies fun _ => ?_
  have cuts : Succeeds rely copied (cutover hooks ins plan (joinPath plan.sourceLowerDir plan.relPath)
      (joinPath plan.destLowerDir plan.relPath)) (fun _ => switched) := by
    refine triple_seq (succeeds_orDrop _ _ _ (succeeds_request _ copies.stable (fun _ => switches.stable) switching)
      (fun _ => switches.stable)) fun _ => ?_
    exact succeeds_uses switches _ (uses_bind (uses_log (calmed (fun _ => id)) _) fun _ => uses_persist (calmed (fun _ => id)) _)
  refine triple_seq cuts fun _ => ?_
  split
  · refine triple_handle (succeeds_uses switches _ (uses_repinDestination (fun _ => id) _)) (fun _ => cleans) (fun error => ?_)
    exact succeeds_never (fails_bind fun _ => fails_bind fun _ => trivial)
  · exact cleans

theorem execute_returns (shown : InspectResult → World → Prop) (settled : World → Prop) (hooks : Hooks) (plan : MovementPlan)
    (world : World) (outcome : Outcome) (labels : List (Label Outcome Interference)) (config : Config Op Reply World GoError Unit)
    (robust : ∀ ins, Robust rely (shown ins))
    (shows : ∀ ins, inspect world plan.objectID = .ok ins → shown ins world)
    (moves : ∀ ins, inspect world plan.objectID = .ok ins →
      Succeeds rely (shown ins) (move hooks ins {plan with relPath := chosenPath plan ins}) (fun _ => settled))
    (guarded : Guarded (step machine) rely.guard ⟨execute hooks plan,world⟩ (.call outcome::labels))
    (reached : run (step machine) ⟨execute hooks plan,world⟩ (.call outcome::labels) = some config)
    (returned : config.program = .done ()) : settled config.world := by
  obtain ⟨⟨program,next⟩,taken,reached⟩ := (run_cons _ _ _ _ _).mp reached
  have guarded := guarded.2 _ taken
  obtain ⟨⟨after,reply⟩,performed,same⟩ := Option.map_eq_some_iff.mp taken
  cases same
  have finishes (rest : Act Unit)
      (holds : wp machine rely (fun _ _ => True) rest (Ends (fun _ => settled) (fun _ => True)) after)
      (guarded : Guarded (step machine) rely.guard ⟨rest,after⟩ labels)
      (reached : run (step machine) ⟨rest,after⟩ labels = some config) : settled config.world := by
    have ended := wp_run _ holds guarded reached
    rw [returned] at ended
    exact ended config.world .refl
  cases reply with
  | error errno => exact finishes (.fail _) (fun _ _ => trivial) guarded reached
  | ok ins =>
    have inspected : inspect world plan.objectID = .ok ins :=
      congrArg Prod.snd (perform_ok (.inspect plan.objectID) outcome ins (by nofun) performed)
    have idle := perform_idle rfl performed
    have admits := triple_returns _ (returns_acceptPlan plan ins)
      (succeeds_uses (robust ins) _ (uses_acceptPlan (calmed (fun _ => id)) plan ins))
    refine finishes (do let (ins,plan) ← acceptPlan plan ins; move hooks ins plan) ?_ guarded reached
    refine triple_seq admits (fun value => triple_pure fun chosen => ?_) (fun _ _ => id) after ?_
    · subst chosen
      exact moves ins inspected
    · rw [idle]
      exact shows ins inspected

end Success

end Smoothfs.Worker
