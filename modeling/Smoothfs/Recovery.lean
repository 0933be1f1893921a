import Smoothfs.Worker

/-! `recoverObject`, which settles an interrupted movement under a running mount. -/
namespace Smoothfs.Recovery

open Program Control Movement Worker

/-- A `tier_targets` row. `absolute` says that `backing_ref` is an absolute path,
and `lower` is the directory it leads to. -/
structure Tier where
  id : String
  rank : Nat
  absolute : Bool
  lower : LowerDir
  deriving DecidableEq, Repr

/-- A `managed_namespaces` row with its tiers. `pooled` says that `backend_ref` is a pool UUID,
`exposed` that `exposed_path` lies below a mounted smoothfs root. -/
structure NamespaceRow where
  pooled : Bool
  exposed : Bool
  tiers : List Tier
  keyed : (tiers.map (·.id)).Nodup

structure Client where
  moveComplete : Bool
  moveRollback : Bool
  deriving DecidableEq, Repr

structure Setting where
  client : Option Client
  namespaces : String → Option NamespaceRow
  lookupOrder : RelPath → List Nat

structure InterruptedObject where
  oid : Oid
  namespaceID : String
  source : String
  destination : String
  state : MovementState
  pin : PinState
  rel : RelPath
  seq : Nat
  deriving DecidableEq, Repr

def interrupted (oid : Oid) (row : Row) : Option InterruptedObject :=
  if row.movementState = .placed ∨ row.movementState = .cleanupComplete ∨ row.movementState = .stale then none
  else some ⟨oid,row.namespaceID,row.currentTierID,row.intendedTierID.getD "",row.movementState,row.pinState,row.relPath,
    row.transactionSeq⟩

def stateName : MovementState → String
  | .placed => "placed"
  | .planAccepted => "plan_accepted"
  | .destinationReserved => "destination_reserved"
  | .copyInProgress => "copy_in_progress"
  | .copyComplete => "copy_complete"
  | .copyVerified => "copy_verified"
  | .cutoverInProgress => "cutover_in_progress"
  | .switched => "switched"
  | .cleanupInProgress => "cleanup_in_progress"
  | .cleanupComplete => "cleanup_complete"
  | .failed => "failed"
  | .stale => "stale"

def within {α : Type} (text : String) (step : Act α) : Act α := do
  match ← step.attempt with
  | .ok value => .done value
  | .error error => .fail (.wrap text error)

def warmRecoveryObject (exposed : Bool) (order : RelPath → List Nat) (rel : RelPath) (oid : Oid) : Act Unit := do
  require (exposed ∧ Filepath.normalized rel) (.new "namespace has no usable exposed recovery path")
  request .readSettings "read mountinfo"
  let found ← request (.lookupObject (order rel) rel) "lstat"
  require (found = oid) (.new "persisted recovery path belongs to another object")

def inspectObject (exposed : Bool) (order : RelPath → List Nat) (p : InterruptedObject) : Act InspectResult :=
  .call (.inspect p.oid) fun
    | .ok ins => .done ins
    | .error errno =>
      if errno = .enoent then do
        within "instantiate interrupted object" (warmRecoveryObject exposed order p.rel p.oid)
        request (.inspect p.oid) "inspect"
      else .fail (.wrap "inspect" (.errno errno))

def recoveryPath (p : InterruptedObject) (ins : InspectResult) : RelPath :=
  if ins.relPath = [] then p.rel else ins.relPath

def tierOfRank (tiers : List Tier) (rank : Nat) : Option Tier :=
  tiers.reverse.find? (·.rank = rank)

def tierOfID (tiers : List Tier) (id : String) : Option Tier :=
  tiers.reverse.find? (·.id = id)

def requireTier (found : Option Tier) (text : String) : Act Tier :=
  match found with
  | some tier => .done tier
  | none => .fail (.new text)

def recordedTiers (p : InterruptedObject) : Act (String × String) :=
  if p.destination = "" then do
    let found ← request (.selectLog p.oid p.seq) "read movement log"
    .done (found.getD (p.source,p.destination))
  else .done (p.source,p.destination)

structure Sides where
  current : Tier
  other : Tier
  source : String
  destination : String
  deriving DecidableEq, Repr

def chooseSides (tiers : List Tier) (p : InterruptedObject) (ins : InspectResult) : Act Sides := do
  require (tiers.all (·.absolute)) (.new "tier has no absolute backing path")
  let current ← requireTier (tierOfRank tiers ins.currentTier) "kernel tier is not in namespace"
  require (current.id ≠ "") (.new "kernel tier is not in namespace")
  let (source,destination) ← recordedTiers p
  require (destination ≠ "" ∧ source ≠ destination) (.new "interrupted movement has no distinct recorded tiers")
  let from_ ← requireTier (tierOfID tiers source) "recorded source tier is unavailable"
  let into ← requireTier (tierOfID tiers destination) "recorded destination tier is unavailable"
  require (current.id = source ∨ current.id = destination) (.new "kernel placement is outside recorded movement")
  .done ⟨current,if current.id = destination then from_ else into,source,destination⟩

def findCopy (live : FileStat) (other : Loc) : Act Bool :=
  .call (.lstat other) fun
    | .ok info => do
      require (info.regular ∧ info.file ≠ live.file) (.new "cleanup path is not a distinct regular copy")
      .done true
    | .error errno => if errno = .enoent then .done false else .fail (.errno errno)

def checkPhase (client : Client) (ins : InspectResult) (sides : Sides) : Act Unit :=
  match ins.movementState with
  | .switched => do
    require (sides.current.id = sides.destination) (.new "switched object is not on recorded destination")
    require client.moveComplete (.new "kernel completion acknowledgement unavailable")
  | .planAccepted | .destinationReserved | .copyInProgress | .copyComplete | .copyVerified | .failed => do
    require (sides.current.id = sides.source) (.new "pre-cutover object is not on recorded source")
    require client.moveRollback (.new "kernel rollback acknowledgement unavailable")
  | .placed => .done ()
  | .cutoverInProgress | .cleanupInProgress | .cleanupComplete | .stale =>
    .fail (.new ("kernel movement is still " ++ stateName ins.movementState))

def syncParents (dir : LowerDir) : List String → Act Unit
  | [] => request (.syncDir ⟨dir,[]⟩) "sync interrupted cleanup"
  | name::parents =>
    .call (.syncDir ⟨dir,(name::parents).reverse⟩) fun
      | .ok () => .done ()
      | .error errno =>
        if errno = .enoent ∧ parents ≠ [] then syncParents dir parents
        else .fail (.wrap "sync interrupted cleanup" (.errno errno))

def removeCopy (present : Bool) (other : Loc) : Act Unit := do
  if present then request (.remove other) "remove interrupted copy" else .done ()

def acknowledge (p : InterruptedObject) (ins : InspectResult) : Act Unit :=
  match ins.movementState with
  | .switched => request (.moveComplete p.oid ins.transactionSeq) "kernel recovery acknowledgement"
  | .placed => .done ()
  | _ => request (.moveRollback p.oid ins.transactionSeq) "kernel recovery acknowledgement"

def restoreLUNPin (pin : PinState) (authoritative : Loc) : Act Unit :=
  if pin = .lun then do
    request .readSettings "recover pin"
    request (.setLUNPin authoritative) "recover pin"
  else .done ()

def settledState (p : InterruptedObject) : MovementState :=
  if p.pin = .lun ∧ p.state = .failed then .failed else .placed

def settleObject (p : InterruptedObject) (ins : InspectResult) (sides : Sides) (rel : RelPath) : Act Unit := do
  acknowledge p ins
  let settled ← request (.inspect p.oid) "inspect"
  require (settled.movementState = .placed ∧ settled.currentTier = ins.currentTier)
    (.new "kernel recovery did not settle on authoritative tier")
  restoreLUNPin p.pin (joinPath sides.current.lower rel)
  let _ ← request (.exec (.settle p.oid sides.current.id (settledState p) rel settled.generation)) "update object"
  .done ()

def cleanCopies (client : Client) (p : InterruptedObject) (ins : InspectResult) (sides : Sides) (rel : RelPath) : Act Unit := do
  let other := joinPath sides.other.lower rel
  let live ← request (.lstat (joinPath sides.current.lower rel)) "authoritative copy"
  require live.regular (.new "authoritative copy is not regular")
  let present ← findCopy live other
  checkPhase client ins sides
  removeCopy present other
  syncParents sides.other.lower rel.reverse
  settleObject p ins sides rel

def recoverKnown (client : Client) (space : NamespaceRow) (order : RelPath → List Nat) (p : InterruptedObject) : Act Unit := do
  let ins ← inspectObject space.exposed order p
  require (ins.movementState = .placed ∨ ins.transactionSeq = p.seq)
    (.new "kernel transaction differs from interrupted movement")
  let rel := recoveryPath p ins
  require (Filepath.normalized rel) (.new "invalid recovery relative path")
  request .readSettings "read tier targets"
  let sides ← chooseSides space.tiers p ins
  cleanCopies client p ins sides rel

def recoverObject (setting : Setting) (p : InterruptedObject) : Act Unit :=
  match setting.client with
  | none => .fail (.new "kernel client unavailable")
  | some client => do
    request .readSettings "read namespace"
    match setting.namespaces p.namespaceID with
    | none => .fail (.new "namespace not found")
    | some space => do
      require space.pooled (.new "namespace has no pool UUID")
      recoverKnown client space setting.lookupOrder p

section Alone

variable {world after : World}

theorem yields_request (op : Op) (text : String) (value : Value op) :
    Yields execOp (request op text) world value after ↔ execOp world op = (after,.ok value) := by
  unfold request
  rw [yields_call]
  rcases execOp world op with ⟨reached,errno | found⟩
  · simp
  · simp only [yields_done,Prod.mk.injEq,Except.ok.injEq]
    exact ⟨fun both => ⟨both.2.symm,both.1.symm⟩,fun both => ⟨both.2.symm,both.1.symm⟩⟩

@[simp] theorem yields_require (condition : Bool) (error : GoError) (value : Unit) :
    Yields execOp (require condition error) world value after ↔ condition = true ∧ after = world := by
  unfold require
  split
  · next met => simp [met]
  · next unmet => simp [unmet]

theorem eval_attempt {α : Type} (step : Act α) (world : World) :
    eval execOp (step.attempt : Act (Except GoError α)) world = ((eval execOp step world).1,.ok (eval execOp step world).2) := by
  induction step generalizing world with
  | done value => rfl
  | fail error => rfl
  | call op next ih => exact ih _ _

@[simp] theorem yields_within {α : Type} (text : String) (step : Act α) (value : α) :
    Yields execOp (within text step) world value after ↔ Yields execOp step world value after := by
  unfold within Yields
  rw [eval_bind,eval_attempt]
  rcases eval execOp step world with ⟨reached,error | found⟩ <;> simp [eval]

@[simp] theorem yields_syncParents (dir : LowerDir) (path : List String) (value : Unit) :
    Yields execOp (syncParents dir path) world value after ↔ after = world := by
  cases path with
  | nil =>
    rw [syncParents,yields_request (.syncDir ⟨dir,[]⟩)]
    simp only [execOp,Prod.mk.injEq,and_true]
    exact eq_comm
  | cons name parents => simp [syncParents,execOp]

theorem yields_functional {α : Type} {program : Act α} {first second : α} {one two : World}
    (yields : Yields execOp program world first one) (again : Yields execOp program world second two) : first = second ∧ one = two := by
  cases yields.symm.trans again
  exact ⟨rfl,rfl⟩

end Alone

theorem triple_within {α S Env : Type} {system : Machine Op Reply S Outcome Env} {rely : Rely Op S Outcome Env} {check : S → Op → Prop}
    {pre bad : S → Prop} {ok : α → S → Prop} (text : String) (step : Act α) (runs : Triple system rely check pre step (Ends ok bad))
    (steady : ∀ value, Stable system rely (ok value)) (settled : Stable system rely bad) :
    Triple system rely check pre (within text step) (Ends ok bad) :=
  triple_handle runs (fun value => triple_done (steady value) (fun _ => id)) (fun _ => triple_fail settled (fun _ => id))

section Uses

variable {allowed : Op → Prop} {p : InterruptedObject}

section Idle

variable (idle : ∀ op, op.idle = true → allowed op)

include idle

theorem uses_chooseSides (tiers : List Tier) (ins : InspectResult) : Uses allowed (chooseSides tiers p ins) := by
  have tier (found : Option Tier) (text : String) : Uses allowed (requireTier found text) := by
    cases found <;> trivial
  have recorded : Uses allowed (recordedTiers p) := by
    unfold recordedTiers
    split
    · exact uses_bind (uses_request _ _ (idle _ rfl)) (fun _ => trivial)
    · trivial
  refine uses_bind uses_require fun _ => uses_bind (tier _ _) fun _ => uses_bind uses_require fun _ => ?_
  refine uses_bind recorded fun _ => uses_bind uses_require fun _ => uses_bind (tier _ _) fun _ => ?_
  exact uses_bind (tier _ _) fun _ => uses_bind uses_require fun _ => trivial

theorem uses_findCopy (live : FileStat) {other : Loc} : Uses allowed (findCopy live other) := by
  refine ⟨idle _ rfl,fun reply => ?_⟩
  cases reply with
  | ok info => exact uses_bind uses_require fun _ => trivial
  | error errno =>
    dsimp only
    split <;> trivial

end Idle

theorem uses_checkPhase (client : Client) (ins : InspectResult) (sides : Sides) : Uses allowed (checkPhase client ins sides) := by
  unfold checkPhase
  split
  · exact uses_bind uses_require fun _ => uses_require
  all_goals first | trivial | exact uses_bind uses_require fun _ => uses_require

section Steady

variable (quiet : ∀ op, op.steady = true → allowed op)

include quiet

theorem uses_syncParents {dir : LowerDir} {path : List String} : Uses allowed (syncParents dir path) := by
  induction path with
  | nil => exact uses_request _ _ (quiet _ rfl)
  | cons name parents ih =>
    refine ⟨quiet _ rfl,fun reply => ?_⟩
    cases reply with
    | ok value => trivial
    | error errno =>
      dsimp only
      split
      · exact ih
      · trivial

theorem uses_settleObject (completes : ∀ seq, allowed (.moveComplete p.oid seq)) (rolls : ∀ seq, allowed (.moveRollback p.oid seq))
    (ins : InspectResult) (sides : Sides) (rel : RelPath) : Uses allowed (settleObject p ins sides rel) := by
  have acknowledges : Uses allowed (acknowledge p ins) := by
    unfold acknowledge
    split
    · exact uses_request _ _ (completes _)
    · trivial
    · exact uses_request _ _ (rolls _)
  have restores : Uses allowed (restoreLUNPin p.pin (joinPath sides.current.lower rel)) := by
    unfold restoreLUNPin
    split
    · exact uses_bind (uses_request _ _ (quiet _ rfl)) fun _ => uses_request _ _ (quiet _ rfl)
    · trivial
  refine uses_bind acknowledges fun _ => uses_bind (uses_request _ _ (quiet _ rfl)) fun _ => ?_
  refine uses_bind uses_require fun _ => uses_bind restores fun _ => ?_
  exact uses_bind (uses_request _ _ (quiet _ rfl)) fun _ => trivial

end Steady

end Uses

end Smoothfs.Recovery
