import Mathlib.Data.List.Nodup
import Smoothfs.Recovery
import Smoothfs.WorkerRemoval

/-! When a run of `recoverObject` in which no operation fails settles the
movement it was started for. -/
namespace Smoothfs.RecoverySettles

open Program Control Movement Worker Recovery Run WorkerRemoval Function

/-- The tiers that the row records, or else the movement log. -/
def recorded (p : InterruptedObject) (world : World) : String × String :=
  if p.destination = "" then (latestLog world p.oid p.seq).getD (p.source,p.destination) else (p.source,p.destination)

def Locates (space : NamespaceRow) (order : RelPath → List Nat) (p : InterruptedObject) (world found : World) (inode : Inode) : Prop :=
  (world.inodes p.oid = some inode ∧ found = world) ∨
    world.inodes p.oid = none ∧ space.exposed = true ∧ Filepath.normalized p.rel = true ∧
      lookupObject world (order p.rel) p.rel = (found,.ok p.oid) ∧ found.inodes p.oid = some inode

structure Chosen (tiers : List Tier) (p : InterruptedObject) (rank : Nat) (world : World) (sides : Sides) : Prop where
  absolute : tiers.all (·.absolute) = true
  current : tierOfRank tiers rank = some sides.current
  named : sides.current.id ≠ ""
  pair : recorded p world = (sides.source,sides.destination)
  distinct : sides.destination ≠ "" ∧ sides.source ≠ sides.destination
  within : sides.current.id = sides.source ∨ sides.current.id = sides.destination
  other : tierOfID tiers (if sides.current.id = sides.destination then sides.source else sides.destination) = some sides.other

def Phase (client : Client) (state : MovementState) (sides : Sides) : Prop :=
  match state with
  | .switched => sides.current.id = sides.destination ∧ client.moveComplete = true
  | .planAccepted | .destinationReserved | .copyInProgress | .copyComplete | .copyVerified | .failed =>
    sides.current.id = sides.source ∧ client.moveRollback = true
  | .placed => True
  | .cutoverInProgress | .cleanupInProgress | .cleanupComplete | .stale => False

section Stages

variable {world after : World} {p : InterruptedObject} {ins : InspectResult} {sides : Sides}

variable (tiers : List Tier)

theorem tierOfID_member {tier : Tier} (member : tier ∈ tiers) : ∃ found, tierOfID tiers tier.id = some found := by
  have found : (tiers.reverse.find? (·.id = tier.id)).isSome = true := by
    simp only [List.find?_isSome,List.mem_reverse,decide_eq_true_eq]
    exact ⟨tier,member,rfl⟩
  exact Option.isSome_iff_exists.mp found

theorem tierOfRank_spec {rank : Nat} {tier : Tier} (found : tierOfRank tiers rank = some tier) :
    tier ∈ tiers ∧ tier.rank = rank := by
  have matches_ := List.find?_some found
  exact ⟨List.mem_reverse.mp (List.mem_of_find?_eq_some found),of_decide_eq_true matches_⟩

theorem tierOfID_spec {id : String} {tier : Tier} (found : tierOfID tiers id = some tier) : tier ∈ tiers ∧ tier.id = id := by
  have matches_ := List.find?_some found
  exact ⟨List.mem_reverse.mp (List.mem_of_find?_eq_some found),of_decide_eq_true matches_⟩

@[simp] theorem yields_requireTier (found : Option Tier) (text : String) (tier : Tier) :
    Yields execOp (requireTier found text) world tier after ↔ found = some tier ∧ after = world := by
  unfold requireTier
  cases found with
  | none => simp
  | some known => simp [eq_comm]

theorem yields_warm (exposed : Bool) (order : RelPath → List Nat) (rel : RelPath) (oid : Oid) (value : Unit) :
    Yields execOp (warmRecoveryObject exposed order rel oid) world value after ↔
      (exposed = true ∧ Filepath.normalized rel = true) ∧ lookupObject world (order rel) rel = (after,.ok oid) := by
  simp only [warmRecoveryObject,yields_bind,yields_require,decide_eq_true_eq,
    yields_request (.lookupObject (order rel) rel)]
  constructor
  · rintro ⟨_,_,⟨usable,rfl⟩,_,_,read,found,reached,looked,same,rfl⟩
    cases read
    exact ⟨usable,same ▸ looked⟩
  · rintro ⟨usable,looked⟩
    exact ⟨(),world,⟨usable,rfl⟩,(),world,rfl,oid,after,looked,rfl,rfl⟩

theorem yields_recordedTiers (pair : String × String) :
    Yields execOp (recordedTiers p) world pair after ↔ pair = recorded p world ∧ after = world := by
  unfold recordedTiers recorded
  split
  · simp only [yields_bind,yields_done]
    constructor
    · rintro ⟨found,between,read,rfl,rfl⟩
      cases read
      exact ⟨rfl,rfl⟩
    · rintro ⟨rfl,rfl⟩
      exact ⟨_,_,rfl,rfl,rfl⟩
  · simp

theorem yields_chooseSides :
    Yields execOp (chooseSides tiers p ins) world sides after ↔ Chosen tiers p ins.currentTier world sides ∧ after = world := by
  simp only [chooseSides,yields_bind,yields_require,yields_requireTier,yields_recordedTiers,decide_eq_true_eq,yields_done]
  constructor
  · rintro ⟨_,_,⟨absolute,rfl⟩,current,_,⟨ranked,rfl⟩,_,_,⟨named,rfl⟩,⟨source,destination⟩,_,⟨pair,rfl⟩,_,_,⟨distinct,rfl⟩,
      from_,_,⟨fromFound,rfl⟩,into,_,⟨intoFound,rfl⟩,_,_,⟨within,rfl⟩,rfl,rfl⟩
    refine ⟨⟨absolute,ranked,named,pair.symm,distinct,within,?_⟩,rfl⟩
    split
    · exact fromFound
    · exact intoFound
  · rintro ⟨chosen,rfl⟩
    obtain ⟨self,own⟩ := tierOfID_member tiers (tierOfRank_spec tiers chosen.current).1
    have other := chosen.other
    obtain ⟨current,found,source,destination⟩ := sides
    refine ⟨(),after,⟨chosen.absolute,rfl⟩,current,after,⟨chosen.current,rfl⟩,(),after,⟨chosen.named,rfl⟩,(source,destination),
      after,⟨chosen.pair.symm,rfl⟩,(),after,⟨chosen.distinct,rfl⟩,?_⟩
    by_cases switched : current.id = destination
    · rw [if_pos switched] at other
      refine ⟨found,after,⟨other,rfl⟩,self,after,⟨switched ▸ own,rfl⟩,(),after,⟨.inr switched,rfl⟩,?_,rfl⟩
      rw [if_pos switched]
    rw [if_neg switched] at other
    have home : current.id = source := chosen.within.resolve_right switched
    refine ⟨self,after,⟨home ▸ own,rfl⟩,found,after,⟨other,rfl⟩,(),after,⟨.inl home,rfl⟩,?_,rfl⟩
    rw [if_neg switched]

theorem yields_findCopy (live : FileStat) (other : Loc) (present : Bool) :
    Yields execOp (findCopy live other) world present after ↔ after = world ∧
      ((∃ file, world.names other = some file ∧ (world.files file).regular = true ∧ file ≠ live.file ∧ present = true) ∨
        world.names other = none ∧ present = false) := by
  simp only [findCopy,yields_call,execOp,statLoc]
  split
  · next info found =>
    cases named : world.names other with
    | none =>
      rw [named] at found
      cases found
    | some file =>
      rw [named] at found
      cases found
      simp only [yields_bind,yields_require,yields_done]
      constructor
      · rintro ⟨_,_,⟨checked,rfl⟩,rfl,rfl⟩
        obtain ⟨regular,different⟩ := of_decide_eq_true checked
        exact ⟨rfl,.inl ⟨file,rfl,regular,different,rfl⟩⟩
      · rintro ⟨rfl,⟨_,same,regular,different,rfl⟩ | ⟨absurd_,_⟩⟩
        · cases same
          exact ⟨(),_,⟨decide_eq_true ⟨regular,different⟩,rfl⟩,rfl,rfl⟩
        · cases absurd_
  · next errno found =>
    cases named : world.names other with
    | none =>
      rw [named] at found
      cases found
      simp [and_comm]
    | some file =>
      rw [named] at found
      cases found

variable (client : Client)

theorem yields_checkPhase (value : Unit) :
    Yields execOp (checkPhase client ins sides) world value after ↔ Phase client ins.movementState sides ∧ after = world := by
  unfold checkPhase Phase
  cases ins.movementState <;> simp [and_assoc]

theorem yields_inspectObject (space : NamespaceRow) (order : RelPath → List Nat) :
    Yields execOp (inspectObject space.exposed order p) world ins after ↔
      ∃ inode, Locates space order p world after inode ∧ ins = inspectReply inode := by
  simp only [inspectObject,yields_call,execOp,inspect]
  cases found : world.inodes p.oid with
  | some inode =>
    simp only [yields_done,Locates,found]
    constructor
    · rintro ⟨rfl,rfl⟩
      exact ⟨inode,.inl ⟨rfl,rfl⟩,rfl⟩
    · rintro ⟨_,⟨same,rfl⟩ | ⟨absurd_,_⟩,rfl⟩
      · cases same
        exact ⟨rfl,rfl⟩
      · cases absurd_
  | none =>
    simp only [↓reduceIte,yields_bind,yields_within,yields_warm,yields_request (.inspect p.oid),Locates,found]
    constructor
    · rintro ⟨_,between,⟨⟨exposed,normal⟩,looked⟩,inspected⟩
      obtain ⟨rfl,replied⟩ := Prod.mk.inj inspected
      obtain ⟨inode,present,rfl⟩ := (inspect_ok ..).mp replied
      exact ⟨inode,.inr ⟨trivial,exposed,normal,looked,present⟩,rfl⟩
    · rintro ⟨inode,⟨absurd_,_⟩ | ⟨_,exposed,normal,looked,present⟩,rfl⟩
      · cases absurd_
      · exact ⟨(),after,⟨⟨exposed,normal⟩,looked⟩,Prod.ext rfl ((inspect_ok ..).mpr ⟨inode,present,rfl⟩)⟩

def placedInode (inode : Inode) : Inode :=
  {inode with movementState := .placed, intendedTier := inode.currentTier}

variable {oid : Oid} {inode : Inode}

structure Same (world after : World) : Prop where
  names : after.names = world.names
  objects : ∀ file, (after.files file).object = (world.files file).object

theorem Same.trans {first second third : World} (one : Same first second) (two : Same second third) : Same first third :=
  ⟨two.names.trans one.names,fun file => (two.objects file).trans (one.objects file)⟩

theorem yields_acknowledge (found : world.inodes p.oid = some inode) (phase : Phase client inode.movementState sides) :
    ∃ acked later, Yields execOp (acknowledge p (inspectReply inode)) world () acked ∧ acked.inodes p.oid = some later ∧
      later.movementState = .placed ∧ later.currentTier = inode.currentTier ∧ acked.rows = world.rows ∧ Same world acked := by
  have replied (state : inode.movementState.preCutover = true ∨ inode.movementState = .failed)
      (ack : acknowledge p (inspectReply inode) = request (.moveRollback p.oid inode.transactionSeq) "kernel recovery acknowledgement") :
      ∃ acked later, Yields execOp (acknowledge p (inspectReply inode)) world () acked ∧ acked.inodes p.oid = some later ∧
        later.movementState = .placed ∧ later.currentTier = inode.currentTier ∧ acked.rows = world.rows ∧ Same world acked := by
    refine ⟨world.setInode p.oid (placedInode inode),_,?_,update_self ..,rfl,rfl,rfl,rfl,fun _ => rfl⟩
    rw [ack]
    have moving : inode.movementState ≠ .placed := by
      intro placed
      simp [placed,MovementState.preCutover] at state
    exact (yields_request (.moveRollback p.oid inode.transactionSeq) _ ()).mpr
      (settle_leaves (fun movement => movement.preCutover = true ∨ movement = .failed) found moving state)
  cases state : inode.movementState with
  | switched =>
    refine ⟨world.setInode p.oid (placedInode inode),_,?_,update_self ..,rfl,rfl,rfl,rfl,fun _ => rfl⟩
    rw [inspectReply,state]
    exact (yields_request (.moveComplete p.oid inode.transactionSeq) _ ()).mpr
      (settle_leaves (· = .switched) found (by simp [state]) state)
  | placed =>
    refine ⟨world,inode,?_,found,state,rfl,rfl,rfl,fun _ => rfl⟩
    rw [inspectReply,state]
    exact (yields_done () ()).mpr ⟨rfl,rfl⟩
  | planAccepted | destinationReserved | copyInProgress | copyComplete | copyVerified =>
    exact replied (by rw [state]; exact .inl rfl) (by rw [acknowledge,inspectReply,state])
  | failed => exact replied (.inr state) (by rw [acknowledge,inspectReply,state])
  | cutoverInProgress | cleanupInProgress | cleanupComplete | stale =>
    rw [state] at phase
    exact phase.elim

theorem yields_restoreLUNPin (pin : PinState) {loc : Loc} {file : FileId} (named : world.names loc = some file) :
    ∃ pinned, Yields execOp (restoreLUNPin pin loc) world () pinned ∧ pinned.inodes = world.inodes ∧ pinned.rows = world.rows ∧
      Same world pinned := by
  unfold restoreLUNPin
  split
  · refine ⟨world.setFile file {world.files file with lunPin := true},?_,rfl,rfl,rfl,fun other => ?_⟩
    · simp only [yields_bind,yields_request (.setLUNPin loc)]
      refine ⟨(),world,rfl,?_⟩
      rw [execOp,named]
    · change (update world.files file _ other).object = _
      by_cases self : other = file
      · subst self
        rw [update_self]
      · rw [update_of_ne self]
  · exact ⟨world,(yields_done () ()).mpr ⟨rfl,rfl⟩,rfl,rfl,rfl,fun _ => rfl⟩

structure Ended (p : InterruptedObject) (tier : Tier) (rank : Nat) (after : World) : Prop where
  kernel : ∃ later, after.inodes p.oid = some later ∧ later.movementState = .placed ∧ later.currentTier = rank
  row : ∃ row, after.rows p.oid = some row ∧ row.movementState = settledState p ∧ row.currentTierID = tier.id

variable {row : Row}

theorem execOp_settle (tierID : String) (state : MovementState) (rel : RelPath) (generation : Nat)
    (stored : world.rows oid = some row) :
    ∃ updated, execOp world (.exec (.settle oid tierID state rel generation)) = (updated,.ok 1) ∧
      updated.inodes = world.inodes ∧ Same world updated ∧
      ∃ later, updated.rows oid = some later ∧ later.movementState = state ∧ later.currentTierID = tierID := by
  refine ⟨world.setRow oid {row with
    currentTierID := tierID, intendedTierID := none, movementState := state, relPath := rel,
    lastCommittedCutoverGen := max row.lastCommittedCutoverGen generation},?_,rfl,⟨rfl,fun _ => rfl⟩,_,update_self ..,rfl,rfl⟩
  rw [execOp,execStatement,updateRow,stored]

theorem yields_settleObject {file : FileId} {rel : RelPath}
    (found : world.inodes p.oid = some inode) (stored : world.rows p.oid = some row)
    (named : world.names (joinPath sides.current.lower rel) = some file) (phase : Phase client inode.movementState sides) :
    ∃ after, Yields execOp (settleObject p (inspectReply inode) sides rel) world () after ∧
      Ended p sides.current inode.currentTier after ∧ Same world after := by
  obtain ⟨acked,later,acks,present,placed,tier,rows,same⟩ := yields_acknowledge client found phase
  obtain ⟨pinned,pins,inodes,kept,again⟩ :=
    yields_restoreLUNPin p.pin (same.names ▸ named)
  obtain ⟨updated,executed,unmoved,last,final,written⟩ :=
    execOp_settle sides.current.id (settledState p) rel (inspectReply later).generation
      ((congrFun (kept.trans rows) p.oid).trans stored)
  refine ⟨updated,?_,⟨⟨later,by rw [unmoved,inodes,present],placed,tier⟩,final,written⟩,(same.trans again).trans last⟩
  simp only [settleObject,yields_bind,yields_request (.inspect p.oid),yields_require,decide_eq_true_eq,yields_request (.exec _),
    yields_done]
  have inspected : execOp acked (.inspect p.oid) = (acked,.ok (inspectReply later)) :=
    Prod.ext rfl ((inspect_ok ..).mpr ⟨later,present,rfl⟩)
  exact ⟨(),acked,acks,inspectReply later,acked,inspected,(),acked,⟨⟨placed,tier⟩,rfl⟩,(),pinned,pins,1,updated,executed,trivial,rfl⟩

def Copies (world : World) (current other : Loc) : Prop :=
  ∃ file, world.names current = some file ∧ (world.files file).regular = true ∧
    ∀ copy, world.names other = some copy → (world.files copy).regular = true ∧ copy ≠ file

structure Cleared (other : Loc) (world after : World) : Prop where
  gone : after.names other = none
  kept : ∀ loc, loc ≠ other → after.names loc = world.names loc
  objects : ∀ file, (after.files file).object = (world.files file).object

theorem yields_removeCopy {other : Loc} {present : Bool} (seen : world.names other = none ∧ present = false ∨
      (∃ file, world.names other = some file) ∧ present = true) :
    ∃ cleared, Yields execOp (removeCopy present other) world () cleared ∧ cleared.inodes = world.inodes ∧
      cleared.rows = world.rows ∧ Cleared other world cleared := by
  rcases seen with ⟨absent,rfl⟩ | ⟨⟨file,named⟩,rfl⟩
  · exact ⟨world,(yields_done () ()).mpr ⟨rfl,rfl⟩,rfl,rfl,absent,fun _ _ => rfl,fun _ => rfl⟩
  refine ⟨(world.setName other none).record (.removed other file),(yields_request (.remove other) _ ()).mpr ?_,rfl,rfl,?_,?_,fun _ => rfl⟩
  · rw [execOp,remove,named]
  · exact update_self ..
  · intro loc different
    exact update_of_ne different _ _

theorem yields_cleanCopies {rel : RelPath} (found : world.inodes p.oid = some inode) (stored : world.rows p.oid = some row)
    (copies : Copies world (joinPath sides.current.lower rel) (joinPath sides.other.lower rel))
    (phase : Phase client inode.movementState sides) :
    ∃ after, Yields execOp (cleanCopies client p (inspectReply inode) sides rel) world () after ∧
      Ended p sides.current inode.currentTier after ∧ Cleared (joinPath sides.other.lower rel) world after := by
  obtain ⟨file,named,regular,distinct⟩ := copies
  have seen : ∃ present, Yields execOp (findCopy (statOf world file) (joinPath sides.other.lower rel)) world present world ∧
      (world.names (joinPath sides.other.lower rel) = none ∧ present = false ∨
        (∃ copy, world.names (joinPath sides.other.lower rel) = some copy) ∧ present = true) := by
    simp only [yields_findCopy,true_and]
    cases other : world.names (joinPath sides.other.lower rel) with
    | none => exact ⟨false,.inr ⟨rfl,rfl⟩,.inl ⟨rfl,rfl⟩⟩
    | some copy =>
      obtain ⟨plain,different⟩ := distinct copy other
      exact ⟨true,.inl ⟨copy,rfl,plain,different,rfl⟩,.inr ⟨⟨copy,rfl⟩,rfl⟩⟩
  have apart : joinPath sides.current.lower rel ≠ joinPath sides.other.lower rel := by
    intro same
    rw [← same] at distinct
    exact (distinct file named).2 rfl
  obtain ⟨present,finds,seen⟩ := seen
  obtain ⟨cleared,removes,inodes,rows,gone⟩ := yields_removeCopy seen
  obtain ⟨after,settles,ended,same⟩ := yields_settleObject client
    ((congrFun inodes p.oid).trans found) ((congrFun rows p.oid).trans stored) ((gone.kept _ apart).trans named) phase
  refine ⟨after,?_,ended,?_,?_,?_⟩
  · simp only [cleanCopies,yields_bind,yields_request (.lstat _),yields_require,yields_checkPhase,yields_syncParents]
    have stated : execOp world (.lstat (joinPath sides.current.lower rel)) = (world,.ok (statOf world file)) := by
      rw [execOp,statLoc,named]
    exact ⟨statOf world file,world,stated,(),world,⟨regular,rfl⟩,present,world,finds,(),world,⟨phase,rfl⟩,(),cleared,removes,
      (),cleared,rfl,settles⟩
  · rw [same.names,gone.gone]
  · intro loc different
    rw [same.names,gone.kept loc different]
  · exact fun other => (same.objects other).trans (gone.objects other)

theorem cleanCopies_found {rel : RelPath} (yields : Yields execOp (cleanCopies client p ins sides rel) world () after) :
    Copies world (joinPath sides.current.lower rel) (joinPath sides.other.lower rel) ∧ Phase client ins.movementState sides := by
  simp only [cleanCopies,yields_bind,yields_request (.lstat _),yields_require,yields_checkPhase,yields_findCopy] at yields
  obtain ⟨live,_,stated,_,_,⟨regular,rfl⟩,present,_,⟨rfl,seen⟩,_,_,⟨phase,_⟩,_⟩ := yields
  refine ⟨?_,phase⟩
  simp only [execOp,statLoc] at stated
  split at stated
  · cases stated
  next file named =>
  cases stated
  refine ⟨file,named,regular,fun copy other => ?_⟩
  rcases seen with ⟨found,same,plain,different,_⟩ | ⟨absent,_⟩
  · cases same.symm.trans other
    exact ⟨plain,different⟩
  · cases absent.symm.trans other

end Stages

structure Settleable (client : Client) (tiers : List Tier) (p : InterruptedObject) (inode : Inode) (sides : Sides) (world : World) :
    Prop where
  sequence : inode.movementState = .placed ∨ inode.transactionSeq = p.seq
  path : Filepath.normalized (recoveryPath p (inspectReply inode)) = true
  chosen : Chosen tiers p inode.currentTier world sides
  copies : Copies world (joinPath sides.current.lower (recoveryPath p (inspectReply inode)))
    (joinPath sides.other.lower (recoveryPath p (inspectReply inode)))
  phase : Phase client inode.movementState sides
  leftover : joinPath sides.other.lower p.rel = joinPath sides.other.lower (recoveryPath p (inspectReply inode)) ∨
    ∀ file, world.names (joinPath sides.other.lower p.rel) = some file → (world.files file).object ≠ p.oid

def Recoverable (setting : Setting) (p : InterruptedObject) (world : World) : Prop :=
  ∃ client space found inode sides, setting.client = some client ∧ setting.namespaces p.namespaceID = some space ∧
    space.pooled = true ∧ Locates space setting.lookupOrder p world found inode ∧
    Settleable client space.tiers p inode sides found

/-- The object is placed, its row is `placed` (or `failed` for a LUN) on the kernel's tier, and
nothing of it stands at the recorded path on the other tier. -/
def Settled (setting : Setting) (p : InterruptedObject) (world after : World) : Prop :=
  ∃ space inode row tier, setting.namespaces p.namespaceID = some space ∧
    after.inodes p.oid = some inode ∧ inode.movementState = .placed ∧ after.rows p.oid = some row ∧
    (row.movementState = .placed ∨ p.pin = .lun ∧ row.movementState = .failed) ∧
    tier ∈ space.tiers ∧ tier.id = row.currentTierID ∧ tier.rank = inode.currentTier ∧
    ∀ other ∈ space.tiers, other.id = (recorded p world).1 ∨ other.id = (recorded p world).2 → other.id ≠ tier.id →
      ∀ file, after.names (joinPath other.lower p.rel) = some file → (after.files file).object ≠ p.oid

section Whole

variable {setting : Setting} {p : InterruptedObject} {world after : World}

theorem Locates.same {space : NamespaceRow} {order : RelPath → List Nat} {found : World} {inode : Inode}
    (located : Locates space order p world found inode) :
    found.inodes p.oid = some inode ∧ found.rows = world.rows ∧ found.log = world.log := by
  rcases located with ⟨present,rfl⟩ | ⟨_,_,_,looked,present⟩
  · exact ⟨present,rfl,rfl⟩
  have result := congrArg Prod.fst looked
  rcases lookupObject_spec world (order p.rel) p.rel with same | ⟨_,_,_,_,_,_,instantiated⟩
  · rw [show found = world from result.symm.trans same] at present ⊢
    exact ⟨present,rfl,rfl⟩
  · rw [instantiated] at result
    subst result
    exact ⟨present,rfl,rfl⟩

theorem Chosen.other_id {tiers : List Tier} {rank : Nat} {sides : Sides} (chosen : Chosen tiers p rank world sides) :
    sides.other ∈ tiers ∧ (sides.other.id = sides.source ∨ sides.other.id = sides.destination) ∧
      sides.other.id ≠ sides.current.id ∧
        ∀ id, id = sides.source ∨ id = sides.destination → id ≠ sides.current.id → id = sides.other.id := by
  obtain ⟨member,same⟩ := tierOfID_spec _ chosen.other
  by_cases switched : sides.current.id = sides.destination
  · rw [if_pos switched] at same
    refine ⟨member,.inl same,fun equal => ?_,fun id side different => ?_⟩
    · exact chosen.distinct.2 (same.symm.trans (equal.trans switched))
    · exact (side.resolve_right (fun equal => different (equal.trans switched.symm))).trans same.symm
  · rw [if_neg switched] at same
    have home := chosen.within.resolve_right switched
    refine ⟨member,.inr same,fun equal => switched (equal.symm.trans same),fun id side different => ?_⟩
    exact (side.resolve_left (fun equal => different (equal.trans home.symm))).trans same.symm

theorem yields_recoverObject (value : Unit) :
    Yields execOp (recoverObject setting p) world value after ↔
      ∃ client space found inode sides, setting.client = some client ∧ setting.namespaces p.namespaceID = some space ∧
        space.pooled = true ∧ Locates space setting.lookupOrder p world found inode ∧
        (inode.movementState = .placed ∨ inode.transactionSeq = p.seq) ∧
        Filepath.normalized (recoveryPath p (inspectReply inode)) = true ∧
        Chosen space.tiers p inode.currentTier found sides ∧
        Yields execOp (cleanCopies client p (inspectReply inode) sides (recoveryPath p (inspectReply inode))) found value after := by
  unfold recoverObject
  cases setting.client with
  | none => simp
  | some client =>
    cases known : setting.namespaces p.namespaceID with
    | none => simp
    | some space =>
      simp only [recoverKnown,yields_bind,yields_require,yields_inspectObject,decide_eq_true_eq,
        yields_chooseSides]
      constructor
      · rintro ⟨_,_,read,_,_,⟨pooled,rfl⟩,_,found,⟨inode,located,rfl⟩,_,_,⟨sequence,rfl⟩,_,_,⟨normal,rfl⟩,_,_,again,sides,
          _,⟨chosen,rfl⟩,cleans⟩
        cases read
        cases again
        exact ⟨client,space,_,inode,sides,rfl,rfl,pooled,located,sequence,normal,chosen,cleans⟩
      · rintro ⟨_,_,found,inode,sides,own,same,pooled,located,sequence,normal,chosen,cleans⟩
        cases own
        cases same
        exact ⟨(),world,rfl,(),world,⟨pooled,rfl⟩,_,found,⟨inode,located,rfl⟩,(),found,⟨sequence,rfl⟩,(),found,⟨normal,rfl⟩,(),found,rfl,
          sides,found,⟨chosen,rfl⟩,cleans⟩

/-- A run in which every operation is carried out settles the movement exactly when it is
recoverable. -/
theorem settles_iff (setting : Setting) (oid : Oid) (row : Row) (p : InterruptedObject) (world : World)
    (stored : world.rows oid = some row) (selected : interrupted oid row = some p) :
    (∃ count after, run (step machine) ⟨recoverObject setting p,world⟩ (List.replicate count (.call .done)) = some ⟨.done (),after⟩ ∧
      Settled setting p world after) ↔ Recoverable setting p world := by
  have alone (after : World) : (∃ count, run (step machine) ⟨recoverObject setting p,world⟩ (List.replicate count (.call .done)) =
      some ⟨.done (),after⟩) ↔ Yields execOp (recoverObject setting p) world () after :=
    run_alone_iff (fun _ _ => rfl) _ ()
  have identity : p.oid = oid := by
    unfold interrupted at selected
    split at selected
    · cases selected
    · cases selected
      rfl
  rw [← identity] at stored
  constructor
  · rintro ⟨count,after,reached,settled⟩
    have yields := (alone after).mp ⟨count,reached⟩
    obtain ⟨client,space,found,inode,sides,ready,known,pooled,located,sequence,normal,chosen,cleans⟩ :=
      (yields_recoverObject ()).mp yields
    obtain ⟨copies,phase⟩ := cleanCopies_found client cleans
    obtain ⟨present,rows,log⟩ := located.same
    obtain ⟨_,again,ended,cleared⟩ :=
      yields_cleanCopies client present ((congrFun rows p.oid).trans stored) copies phase
    cases (yields_functional cleans again).2
    refine ⟨client,space,found,inode,sides,ready,known,pooled,located,sequence,normal,chosen,copies,phase,?_⟩
    by_cases same : joinPath sides.other.lower p.rel = joinPath sides.other.lower (recoveryPath p (inspectReply inode))
    · exact .inl same
    refine .inr fun file named => ?_
    obtain ⟨_,_,last,tier,knownToo,_,_,final,_,_,current,_,clean⟩ := settled
    cases known.symm.trans knownToo
    obtain ⟨_,finalToo,_,rowTier⟩ := ended.row
    cases final.symm.trans finalToo
    obtain ⟨member,side,different,_⟩ := chosen.other_id
    have pair : recorded p world = (sides.source,sides.destination) := by
      rw [← chosen.pair,recorded,recorded,latestLog,latestLog,log]
    rw [pair] at clean
    have unclean := clean sides.other member side (by rw [current,rowTier]; exact different) file
      ((cleared.kept _ same).trans named)
    rw [cleared.objects] at unclean
    exact unclean
  · rintro ⟨client,space,found,inode,sides,ready,known,pooled,located,settleable⟩
    obtain ⟨present,rows,log⟩ := located.same
    obtain ⟨after,cleans,ended,cleared⟩ :=
      yields_cleanCopies client present ((congrFun rows p.oid).trans stored) settleable.copies settleable.phase
    obtain ⟨later,placedToo,placed,tier⟩ := ended.kernel
    obtain ⟨last,final,state,rowTier⟩ := ended.row
    obtain ⟨currentMember,rank⟩ := tierOfRank_spec _ settleable.chosen.current
    obtain ⟨count,reached⟩ := (alone after).mpr ((yields_recoverObject ()).mpr ⟨client,space,found,inode,sides,ready,known,pooled,
      located,settleable.sequence,settleable.path,settleable.chosen,cleans⟩)
    refine ⟨count,after,reached,space,later,last,sides.current,known,placedToo,placed,final,?_,currentMember,
      rowTier.symm,rank.trans tier.symm,fun other member side different file named => ?_⟩
    · rw [state,settledState]
      split
      · next lun => exact .inr ⟨lun.1,rfl⟩
      · exact .inl rfl
    · have pair : recorded p world = (sides.source,sides.destination) := by
        rw [← settleable.chosen.pair,recorded,recorded,latestLog,latestLog,log]
      rw [pair] at side
      obtain ⟨otherMember,_,_,only⟩ := settleable.chosen.other_id
      have same : other = sides.other :=
        List.inj_on_of_nodup_map space.keyed member otherMember (only other.id side different)
      rw [same] at named
      by_cases here : joinPath sides.other.lower p.rel = joinPath sides.other.lower (recoveryPath p (inspectReply inode))
      · rw [here,cleared.gone] at named
        cases named
      · rw [cleared.kept _ here] at named
        rw [cleared.objects]
        exact settleable.leftover.resolve_left here file named

end Whole

def fast : Tier := ⟨"fast",0,true,0⟩

def slow : Tier := ⟨"slow",1,true,1⟩

def twoTierSetting : Setting where
  client := some ⟨true,true⟩
  namespaces := fun _ => some ⟨true,true,[fast,slow],by decide⟩
  lookupOrder := fun _ => [0,1]

def killed : List (Label Outcome Interference) := List.replicate 12 (.call .done)

theorem renamed_object_keeps_leftover : ∃ config row p,
    run (step machine) ⟨execute ⟨false⟩ demote,twoTiers⟩ (killed ++ [.env (.user (.rename 7 ["b"] none))]) = some config ∧
      config.world.rows 7 = some row ∧ interrupted 7 row = some p ∧ ∃ after,
        run (step machine) ⟨recoverObject twoTierSetting p,config.world⟩ (List.replicate 9 (.call .done)) = some ⟨.done (),after⟩ ∧
        after.names ⟨1,["a"]⟩ = some 1 ∧ (after.files 1).object = 7 ∧ ¬ Settled twoTierSetting p config.world after := by
  refine ⟨_,_,_,rfl,rfl,rfl,_,rfl,rfl,rfl,?_⟩
  rintro ⟨space,inode,row,tier,known,found,_,_,_,member,_,rank,clean⟩
  cases known
  cases (show _ = some _ from rfl).symm.trans found
  have current : tier = fast := by
    rcases List.mem_cons.mp member with rfl | member
    · rfl
    · cases List.mem_singleton.mp member
      cases rank
  subst current
  exact clean slow (by decide) (.inr rfl) (by decide) 1 rfl rfl

end Smoothfs.RecoverySettles
