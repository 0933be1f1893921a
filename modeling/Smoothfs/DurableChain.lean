import Mathlib.Data.List.Infix
import Smoothfs.Library.Directory
import Smoothfs.WorkerRemoval

/-! Which directory entries are on the disk of the destination tier when
`Worker.execute` removes the source. Nobody else changes the two tiers. -/
namespace Smoothfs.DurableChain

open Program Control Worker Run Directory Function
open Directory.Entries (Grown)
open Movement (InspectResult)

structure Disk where
  world : World
  tiers : LowerDir → Entries String
  flushed : FileId → Bool

def up (loc : Loc) : List String :=
  loc.rel.reverse

def Disk.onTier (disk : Disk) (dir : LowerDir) (change : Entries String → Entries String) : Disk :=
  {disk with tiers := update disk.tiers dir (change (disk.tiers dir))}

def effect (disk : Disk) : (op : Op) → Reply op → Disk
  | .mkdirAll loc, .ok () => disk.onTier loc.dir (·.mkdirAll (up loc).tail)
  | .mkdirAllSync loc, .ok () => disk.onTier loc.dir (·.mkdirAllSync (up loc).tail)
  | .syncDir loc, .ok () => disk.onTier loc.dir (·.fsync (up loc).tail)
  | .openDestination loc _, .ok file =>
    {disk.onTier loc.dir (fun entries => if entries.present (up loc) then entries else entries.set (up loc) true) with
      flushed := update disk.flushed file false}
  | .ioCopy _ destination, _ => {disk with flushed := update disk.flushed destination false}
  | .syncFile file, .ok () => {disk with flushed := update disk.flushed file true}
  | .remove loc, .ok () => disk.onTier loc.dir (·.set (up loc) false)
  | _, _ => disk

def perform (disk : Disk) (op : Op) (outcome : Outcome) : Option (Disk × Reply op) :=
  (Control.perform disk.world op outcome).map fun (after,reply) => ({effect disk op reply with world := after},reply)

def machine : Machine Op Reply Disk Outcome Empty where
  perform := perform
  interfere := fun _ action => nomatch action

structure Landed (start now : Disk) (loc : Loc) : Prop where
  data : ∃ file, now.world.names loc = some file ∧ now.flushed file = true
  entry : (now.tiers loc.dir).durable (up loc) = true
  chain : ∀ dir, dir ≠ [] → dir <:+ (up loc).tail → Grown (start.tiers loc.dir) (now.tiers loc.dir) dir

def Checked (start : Disk) (plan : MovementPlan) (now : Disk) (op : Op) : Prop :=
  ∀ source, op = .remove source → source.dir = plan.sourceLowerDir → Landed start now ⟨plan.destLowerDir,source.rel⟩

def LandedFirst (start : Disk) (plan : MovementPlan) (config : Config Op Reply Disk GoError Unit) : Prop :=
  ∀ source next, config.program = .call (.remove source) next → source.dir = plan.sourceLowerDir →
    Landed start config.world ⟨plan.destLowerDir,source.rel⟩

def hasParent (disk : Disk) : Op → Bool
  | .mkdirAll loc => (up loc).tail = [] || (disk.tiers loc.dir).present (up loc).tail
  | _ => true

def parented : Rely Op Disk Outcome Empty where
  outcome := fun disk op _ => hasParent disk op = true
  action := fun _ _ => True

theorem stable_any (holds : Disk → Prop) : Stable machine parented holds :=
  fun _ _ ⟨action,_⟩ => nomatch action

variable {start disk after : Disk} {plan : MovementPlan} {loc source : Loc} {file : FileId}

variable {op : Op} {outcome : Outcome} {reply : Reply op}

theorem perform_spec (performed : perform disk op outcome = some (after,reply)) :
    ∃ world, Control.perform disk.world op outcome = some (world,reply) ∧ after = {effect disk op reply with world := world} := by
  obtain ⟨⟨world,other⟩,executed,same⟩ := Option.map_eq_some_iff.mp performed
  cases same
  exact ⟨world,executed,rfl⟩

def Laid (start : Disk) (loc : Loc) (disk : Disk) : Prop :=
  ∀ path, path ≠ up loc → Grown (start.tiers loc.dir) (disk.tiers loc.dir) path

structure Opened (start : Disk) (loc : Loc) (file : FileId) (disk : Disk) : Prop where
  laid : Laid start loc disk
  named : disk.world.names loc = some file
  there : (disk.tiers loc.dir).present (up loc) = true

structure Ready (start : Disk) (loc : Loc) (file : FileId) (disk : Disk) : Prop extends Opened start loc file disk where
  flushed : disk.flushed file = true
  durable : (disk.tiers loc.dir).durable (up loc) = true

theorem Ready.landed (ready : Ready start loc file disk) : Landed start disk loc where
  data := ⟨file,ready.named,ready.flushed⟩
  entry := ready.durable
  chain := by
    intro dir below above
    refine ready.laid dir fun same => ?_
    cases found : up loc with
    | nil => exact below (same.trans found)
    | cons name rest =>
      have short := above.length_le
      rw [same,found] at short
      exact absurd short (Nat.not_succ_le_self _)

inductive Changes (disk : Disk) (loc : Loc) : Op → Entries String → Prop
  | same (op : Op) : Changes disk loc op (disk.tiers loc.dir)
  | made (other : Loc) (dir : List String) : Changes disk loc (.mkdirAllSync other) ((disk.tiers loc.dir).mkdirAllSync dir)
  | synced (other : Loc) (here : other.dir = loc.dir) : Changes disk loc (.syncDir other) ((disk.tiers loc.dir).fsync (up other).tail)
  | opened (other : Loc) (object : Oid) (absent : (disk.tiers loc.dir).present (up other) = false) :
      Changes disk loc (.openDestination other object) ((disk.tiers loc.dir).set (up other) true)
  | removed (other : Loc) (here : other.dir = loc.dir) : Changes disk loc (.remove other) ((disk.tiers loc.dir).set (up other) false)

theorem changes_onTier {disk : Disk} {loc : Loc} {op : Op} {dir : LowerDir} (change : Entries String → Entries String)
    (changes : dir = loc.dir → Changes disk loc op (change (disk.tiers loc.dir))) :
    Changes disk loc op ((disk.onTier dir change).tiers loc.dir) := by
  by_cases here : dir = loc.dir
  · rw [here,show (disk.onTier loc.dir change).tiers loc.dir = change (disk.tiers loc.dir) from update_self ..]
    exact changes here
  · rw [show (disk.onTier dir change).tiers loc.dir = disk.tiers loc.dir from update_of_ne (Ne.symm here) _ _]
    exact .same op

theorem effect_changes {disk : Disk} (loc : Loc) {op : Op} (reply : Reply op) (parent : hasParent disk op = true) :
    Changes disk loc op ((effect disk op reply).tiers loc.dir) := by
  cases op with
  | mkdirAll other =>
    cases reply with
    | error errno => exact .same _
    | ok value =>
      refine changes_onTier (·.mkdirAll (up other).tail) fun here => ?_
      rw [Entries.mkdirAll_present (by simpa [hasParent,here] using parent)]
      exact .same _
  | mkdirAllSync other =>
    cases reply with
    | error errno => exact .same _
    | ok value =>
      exact changes_onTier (·.mkdirAllSync (up other).tail) fun _ => .made other _
  | syncDir other =>
    cases reply with
    | error errno => exact .same _
    | ok value => exact changes_onTier (·.fsync (up other).tail) (.synced other)
  | openDestination other object =>
    cases reply with
    | error errno => exact .same _
    | ok file =>
      refine changes_onTier
        (fun entries => if entries.present (up other) then entries else entries.set (up other) true) fun here => ?_
      split
      · exact .same _
      · next absent => exact .opened other object (by simpa using absent)
  | remove other =>
    cases reply with
    | error errno => exact .same _
    | ok value => exact changes_onTier (·.set (up other) false) (.removed other)
  | ioCopy | syncFile | _ => cases reply <;> exact .same _

def Lays (plan : MovementPlan) (loc : Loc) (op : Op) : Prop :=
  (∀ other object, op = .openDestination other object → other = loc) ∧
    ∀ other, op = .remove other → other.dir ≠ plan.sourceLowerDir

def Leaves (source : Loc) (op : Op) : Prop :=
  (∀ other object, op ≠ .openDestination other object) ∧ (∀ first second, op ≠ .ioCopy first second) ∧
    ∀ other, op = .remove other → other = source

theorem lays_steady (op : Op) (steady : op.steady = true) : Lays plan loc op := by
  refine ⟨fun _ _ same => ?_,fun _ same => ?_⟩ <;>
  · rw [same] at steady
    cases steady

theorem leaves_steady (op : Op) (steady : op.steady = true) : Leaves source op := by
  refine ⟨fun _ _ same => ?_,fun _ _ same => ?_,fun _ same => ?_⟩ <;>
  · rw [same] at steady
    cases steady

theorem Laid.kept (laid : Laid start loc disk)
    (opens : ∀ other object, op = .openDestination other object → other = loc) (parent : hasParent disk op = true)
    (performed : perform disk op outcome = some (after,reply)) : Laid start loc after := by
  obtain ⟨world,executed,rfl⟩ := perform_spec performed
  have changes := effect_changes loc reply parent
  intro path other
  have grown := laid path other
  change Grown _ ((effect disk op reply).tiers loc.dir) path
  generalize (effect disk op reply).tiers loc.dir = entries at changes
  cases changes with
  | same => exact grown
  | made _ dir => exact grown.mkdirAllSync dir
  | synced => exact grown.fsync _
  | opened target object _ =>
    cases opens target object rfl
    exact grown.set other true
  | removed => exact grown.unset _

theorem entry_kept (there : (disk.tiers loc.dir).present (up loc) = true)
    (leaves : ∀ other, op = .remove other → other.dir ≠ loc.dir) (parent : hasParent disk op = true)
    (performed : perform disk op outcome = some (after,reply)) : (after.tiers loc.dir).present (up loc) = true ∧
      ((disk.tiers loc.dir).durable (up loc) = true → (after.tiers loc.dir).durable (up loc) = true) := by
  obtain ⟨world,executed,rfl⟩ := perform_spec performed
  have changes := effect_changes loc reply parent
  change ((effect disk op reply).tiers loc.dir).present (up loc) = true ∧
    (_ → ((effect disk op reply).tiers loc.dir).durable (up loc) = true)
  generalize (effect disk op reply).tiers loc.dir = entries at changes
  cases changes with
  | same => exact ⟨there,id⟩
  | made _ dir => exact Entries.mkdirAllSync_old dir there
  | synced => exact ⟨there,Entries.fsync_durable⟩
  | opened target object absent =>
    have different : up loc ≠ up target := fun same => by simp [same,absent] at there
    exact ⟨(update_of_ne different _ _).trans there,(update_of_ne different _ _).trans⟩
  | removed target here => exact absurd here (leaves target rfl)

theorem Opened.kept (opened : Opened start loc file disk)
    (opens : ∀ other object, op = .openDestination other object → other = loc) (leaves : ∀ other, op = .remove other → other.dir ≠ loc.dir)
    (parent : hasParent disk op = true) (performed : perform disk op outcome = some (after,reply)) : Opened start loc file after := by
  refine ⟨opened.laid.kept opens parent performed,?_,(entry_kept opened.there leaves parent performed).1⟩
  obtain ⟨world,executed,rfl⟩ := perform_spec performed
  exact perform_names executed (fun same => leaves loc same rfl) opened.named

theorem flushed_kept (flushed : disk.flushed file = true)
    (opens : ∀ other object, op ≠ .openDestination other object) (copies : ∀ first second, op ≠ .ioCopy first second) :
    (effect disk op reply).flushed file = true := by
  cases op with
  | openDestination other object => exact absurd rfl (opens other object)
  | ioCopy first second => exact absurd rfl (copies first second)
  | syncFile other =>
    cases reply with
    | error errno => exact flushed
    | ok value =>
      change update disk.flushed other true file = true
      by_cases same : file = other
      · rw [same,update_self]
      · rw [update_of_ne same,flushed]
  | mkdirAll | _ => cases reply <;> exact flushed

theorem Ready.kept (ready : Ready start loc file disk) (leaves : Leaves source op)
    (apart : source.dir ≠ loc.dir) (parent : hasParent disk op = true)
    (performed : perform disk op outcome = some (after,reply)) : Ready start loc file after := by
  have away (other : Loc) (removes : op = .remove other) : other.dir ≠ loc.dir := by
    rw [leaves.2.2 other removes]
    exact apart
  refine ⟨ready.toOpened.kept (fun other object same => absurd same (leaves.1 other object)) away parent performed,?_,
    (entry_kept ready.there away parent performed).2 ready.durable⟩
  obtain ⟨world,executed,rfl⟩ := perform_spec performed
  exact flushed_kept ready.flushed leaves.1 leaves.2.1

theorem openDestination_names {world opened : World} {object : Oid}
    (performed : Control.perform world (.openDestination loc object) outcome = some (opened,.ok file)) :
    opened.names loc = some file := by
  have executed := perform_ok (.openDestination loc object) outcome file (by nofun) performed
  change Control.openDestination world loc object = (opened,.ok file) at executed
  unfold Control.openDestination at executed
  split at executed
  · cases executed
    exact update_self ..
  next old found =>
  dsimp only at executed
  split at executed <;> cases executed
  exact found

section Triples

variable {α : Type} (start : Disk) (plan : MovementPlan) (loc : Loc)

abbrev Keeping (pre : Disk → Prop) (program : Act α) (post : Except GoError α → Disk → Prop) : Prop :=
  Triple machine parented (Checked start plan) pre program post

theorem checked_lays {op : Op} (lays : Lays plan loc op) (disk : Disk) : Checked start plan disk op :=
  fun other removes inside => absurd inside (lays.2 other removes)

variable (program : Act α)

variable (uses : Uses (Lays plan loc) program)
include uses

theorem triple_lays (pre : Disk → Prop) : Keeping start plan pre program (Ends (fun _ _ => True) (fun _ => True)) :=
  (triple_uses (stable_any (fun _ => True)) (fun disk _ lays _ => checked_lays start plan loc lays disk)
    (fun _ _ _ _ _ _ _ _ _ => trivial) uses).consequence (fun _ _ => trivial) (fun _ _ => id)

theorem triple_gone (pre : Disk → Prop) {ok : α → Disk → Prop}
    (fails : Fails program) : Keeping start plan pre program (Ends ok (fun _ => True)) :=
  triple_fails program fails (triple_lays start plan loc program uses pre)

theorem triple_laid : Keeping start plan (Laid start loc) program (Ends (fun _ => Laid start loc) (fun _ => True)) :=
  (triple_uses (stable_any (Laid start loc)) (fun disk _ lays _ => checked_lays start plan loc lays disk)
    (fun _ _ _ _ _ lays holds parent performed => holds.kept lays.1 parent performed) uses).onError (fun _ _ => trivial)

omit uses

abbrev Standing (source : Loc) : Prop :=
  ∀ {β : Type} (program : Act β), Uses (Leaves source) program →
    Keeping start plan (fun disk => ∃ file, Ready start loc file disk) program
      (Ends (fun _ disk => ∃ file, Ready start loc file disk) (fun _ => True))

theorem triple_ready (source : Loc) (apart : source.dir ≠ loc.dir) (same : source.rel = loc.rel)
    (inside : loc.dir = plan.destLowerDir) : Standing start plan loc source := by
  intro _ program uses
  refine (triple_uses (stable_any _) ?_ ?_ uses).onError (fun _ _ => trivial)
  · rintro disk op leaves ⟨file,ready⟩ other removes _
    rw [leaves.2.2 other removes,same,← inside]
    exact ready.landed
  · rintro disk op outcome after reply leaves ⟨file,ready⟩ parent performed
    exact ⟨file,ready.kept leaves apart parent performed⟩

theorem triple_asks {op : Op} (text : String) (lays : Lays plan loc op) {pre : Disk → Prop} (ok : Value op → Disk → Prop)
    (ends : ∀ disk outcome after value, pre disk → hasParent disk op = true →
      perform disk op outcome = some (after,.ok value) → ok value after) :
    Keeping start plan pre (request op text) (Ends ok (fun _ => True)) := by
  refine triple_request text (stable_any _) (fun _ => stable_any _) (stable_any _)
    (fun disk _ => checked_lays start plan loc lays disk) fun disk outcome after reply holds parent performed => ?_
  cases reply with
  | ok value => exact ends disk outcome after value holds parent performed
  | error errno => trivial

theorem triple_fill (src dst : FileId) (size : Nat) :
    Keeping start plan (Opened start loc dst) (fillDestination src dst size loc)
      (Ends (fun _ disk => ∃ file, Ready start loc file disk) (fun _ => True)) := by
  have closes (error : GoError) {pre : Disk → Prop} : Keeping start plan pre (do ignore (.closeFile dst); .fail error : Act Bytes)
      (Ends (fun _ disk => ∃ file, Ready start loc file disk) (fun _ => True)) :=
    triple_gone start plan loc _ (uses_bind (uses_ignore _ (lays_steady _ rfl)) fun _ => by trivial) _
      (fails_bind fun _ => trivial)
  have keeps {op : Op} {outcome : Outcome} {reply : Reply op} {disk after : Disk} (steady : op.steady = true)
      (opened : Opened start loc dst disk) (parent : hasParent disk op = true)
      (performed : perform disk op outcome = some (after,reply)) : Opened start loc dst after :=
    opened.kept (@lays_steady plan loc op steady).1 (fun _ same => by rw [same] at steady; cases steady) parent performed
  refine triple_handle (triple_asks start plan loc "copy" ⟨by nofun,by nofun⟩
    (fun _ => Opened start loc dst) fun disk outcome after bytes opened parent performed =>
      opened.kept (by nofun) (by nofun) parent performed) (fun bytes => ?_) (fun error => closes error)
  dsimp only
  split
  · exact closes _
  refine triple_handle (triple_asks start plan loc _ (lays_steady _ rfl)
    (fun _ disk => Opened start loc dst disk ∧ disk.flushed dst = true) fun disk outcome after value opened parent performed =>
      ⟨keeps rfl opened parent performed,?_⟩) (fun _ => ?_) (fun error => closes error)
  · obtain ⟨world,executed,rfl⟩ := perform_spec performed
    exact update_self ..
  refine triple_seq (triple_asks start plan loc _ (lays_steady _ rfl)
    (fun _ disk => Opened start loc dst disk ∧ disk.flushed dst = true) fun disk outcome after value holds parent performed =>
      ⟨keeps rfl holds.1 parent performed,?_⟩) (fun _ => ?_)
  · obtain ⟨world,executed,rfl⟩ := perform_spec performed
    exact holds.2
  refine triple_seq (triple_asks start plan loc _ (lays_steady _ rfl)
    (fun _ disk => ∃ file, Ready start loc file disk) fun disk outcome after value holds parent performed =>
      ⟨dst,keeps rfl holds.1 parent performed,?_,?_⟩) (fun _ => triple_done (stable_any _) fun _ => id)
  · obtain ⟨world,executed,rfl⟩ := perform_spec performed
    exact holds.2
  · obtain ⟨world,executed,rfl⟩ := perform_spec performed
    change (update disk.tiers loc.dir ((disk.tiers loc.dir).fsync (up loc).tail) loc.dir).durable (up loc) = true
    rw [update_self]
    exact Entries.fsync_inside rfl

theorem triple_copy (object : Oid) (source : Loc) :
    Keeping start plan (Laid start loc) (copyWithChecksum object source loc)
      (Ends (fun _ disk => ∃ file, Ready start loc file disk) (fun _ => True)) := by
  have steady (op : Op) (text : String) (quiet : op.steady = true) :
      Keeping start plan (Laid start loc) (request op text) (Ends (fun _ => Laid start loc) (fun _ => True)) :=
    triple_laid start plan loc _ (uses_request _ _ (lays_steady op quiet))
  refine triple_seq (steady _ _ rfl) fun src => ?_
  refine triple_seq (steady _ _ rfl) fun info => ?_
  refine triple_seq (steady _ _ rfl) fun _ => ?_
  have opens : Lays plan loc (.openDestination loc object) := ⟨fun _ _ same => by cases same; rfl,by nofun⟩
  refine triple_seq (triple_asks start plan loc _ opens (Opened start loc) fun disk outcome after dst laid parent performed =>
    ⟨laid.kept opens.1 parent performed,?_,?_⟩) (fun dst => triple_fill start plan loc src dst info.size)
  · obtain ⟨world,executed,rfl⟩ := perform_spec performed
    exact openDestination_names executed
  · obtain ⟨world,executed,rfl⟩ := perform_spec performed
    change (update disk.tiers loc.dir _ loc.dir).present (up loc) = true
    rw [update_self]
    split
    · assumption
    · exact update_self ..

variable (hooks : Hooks) (ins : InspectResult)

section Phases

variable (source : Loc) (drops : Lays plan loc (.remove loc)) (standing : Standing start plan loc source)

include drops

theorem triple_drop (cause : GoError) {pre : Disk → Prop} {ok : α → Disk → Prop} :
    Keeping start plan pre (dropDestination hooks plan source loc cause : Act α) (Ends ok (fun _ => True)) :=
  triple_gone start plan loc _ (uses_dropDestination lays_steady _ _ _ _ drops) _ (fails_dropDestination _)

include standing

theorem triple_copyAndVerify :
    Keeping start plan (Laid start loc) (copyAndVerify hooks ins plan source loc)
      (Ends (fun _ disk => ∃ file, Ready start loc file disk) (fun _ => True)) := by
  refine triple_seq (triple_laid start plan loc _ (uses_reserve lays_steady _ drops)) fun before => ?_
  refine triple_seq (triple_orDrop _ _ _ _ (triple_copy start plan loc _ source) (fun _ => stable_any _)
    (fun cause => triple_drop start plan loc hooks source drops cause)) (fun sum => ?_)
  exact triple_verifyCopy (stable_any _) (fun _ _ => trivial)
    (fun program uses => standing program (uses_mono leaves_steady uses))
    (fun cause => triple_drop start plan loc hooks source drops cause) ins before sum

theorem triple_cutover :
    Keeping start plan (fun disk => ∃ file, Ready start loc file disk) (cutover hooks ins plan source loc)
      (Ends (fun _ disk => ∃ file, Ready start loc file disk) (fun _ => True)) := by
  refine triple_seq (triple_orDrop _ _ _ _ (standing _ (uses_request _ _ ⟨by nofun,by nofun,by nofun⟩))
    (fun _ => stable_any _) (fun cause => triple_drop start plan loc hooks source drops cause)) (fun _ => ?_)
  exact standing _ (uses_bind (uses_log (calmed leaves_steady) _) fun _ => uses_persist (calmed leaves_steady) _)

end Phases

theorem triple_move (distinct : plan.sourceLowerDir ≠ plan.destLowerDir) :
    Keeping start plan (Laid start (joinPath plan.destLowerDir plan.relPath)) (move hooks ins plan) (fun _ _ => True) := by
  let source := joinPath plan.sourceLowerDir plan.relPath
  let dest := joinPath plan.destLowerDir plan.relPath
  have drops : Lays plan dest (.remove dest) := ⟨by nofun,fun _ same => by cases same; exact distinct.symm⟩
  have removes : Leaves source (.remove source) := ⟨by nofun,by nofun,fun _ same => by cases same; rfl⟩
  have standing : Standing start plan dest source := triple_ready start plan dest source distinct rfl rfl
  have ends (program : Act Unit) (uses : Uses (Leaves source) program) :
      Keeping start plan (fun disk => ∃ file, Ready start dest file disk) program (fun _ _ => True) :=
    (standing program uses).consequence (fun _ => id) (fun _ _ _ => trivial)
  have cleans := ends _ (uses_cleanup (calmed leaves_steady) plan removes ⟨by nofun,by nofun,by nofun⟩)
  refine triple_seq (triple_laid start plan dest _ (uses_persistIntent (calmed lays_steady) plan)) fun _ => ?_
  refine triple_seq (triple_orRollback _ _ _ (triple_laid start plan dest _ (uses_request _ _ ⟨by nofun,by nofun⟩))
    (fun _ => stable_any _) (fun cause => triple_gone start plan dest _ (uses_rollback lays_steady _ _ _ _) _
      (fails_rollback _ _ _ _))) (fun _ => ?_)
  refine triple_seq (triple_copyAndVerify start plan dest hooks ins source drops standing) fun _ => ?_
  refine triple_seq (triple_cutover start plan dest hooks ins source drops standing) fun _ => ?_
  split
  · refine triple_handle (standing _ (uses_repinDestination leaves_steady _)) (fun _ => cleans) (fun error => ?_)
    exact (triple_lays start plan dest _ (uses_failAfterSwitch (calmed lays_steady) plan error) _).consequence (fun _ => id)
      (fun _ _ _ => trivial)
  · exact cleans

end Triples

/-- When `os.MkdirAll` finds the destination's directory, the destination has
landed at every removal of the source. -/
theorem execute_lands_first (hooks : Hooks) (plan : MovementPlan) (start : Disk) (labels : List (Label Outcome Empty))
    (config : Config Op Reply Disk GoError Unit) (distinct : plan.sourceLowerDir ≠ plan.destLowerDir)
    (guarded : Guarded (step machine) parented.guard ⟨execute hooks plan,start⟩ labels)
    (reached : run (step machine) ⟨execute hooks plan,start⟩ labels = some config) : LandedFirst start plan config := by
  have untouched : Keeping start plan (fun disk => ∀ loc, Laid start loc disk) (preflight plan)
      (Ends (fun _ disk => ∀ loc, Laid start loc disk) (fun _ => True)) := by
    refine (triple_uses (stable_any _) (fun disk op steady _ => checked_lays start plan ⟨plan.destLowerDir,[]⟩
      (lays_steady op steady) disk) ?_ (uses_preflight (calmed (fun _ => id)) plan)).onError (fun _ _ => trivial)
    intro disk op outcome after reply steady laid parent performed loc
    exact (laid loc).kept (@lays_steady plan loc op steady).1 parent performed
  have executes : Keeping start plan (fun disk => ∀ loc, Laid start loc disk) (execute hooks plan) (fun _ _ => True) := by
    refine triple_seq (triple_returns _ (returns_preflight plan) untouched) fun value => ?_
    rintro disk ⟨⟨rel,same⟩,laid⟩
    obtain ⟨ins,resolved⟩ := value
    cases same
    exact triple_move start {plan with relPath := rel} hooks ins distinct disk (laid _)
  intro source next calls
  have holds := wp_run _ (executes start fun _ _ _ missing there => absurd (missing.symm.trans there) Bool.false_ne_true)
    guarded reached
  rw [calls] at holds
  exact (holds config.world .refl).1 source rfl

def nested (dirs : List (List String)) : Disk where
  world := {WorkerRemoval.twoTiers with
    inodes := fun oid => if oid = 7 then some (Namespace.newInode 0 0 ["d","a"]) else none
    names := fun loc => if loc = ⟨0,["d","a"]⟩ then some 0 else none}
  tiers := fun dir => if dir = 1 then ⟨fun path => dirs.contains path,fun _ => true⟩ else ⟨fun _ => true,fun _ => true⟩
  flushed := fun _ => true

def descend : MovementPlan :=
  {WorkerRemoval.demote with relPath := ["d","a"]}

def untilRemoval : List (Label Outcome Empty) :=
  List.replicate 26 (.call .done)

instance decidableParented : ∀ (config : Config Op Reply Disk GoError Unit) (label : Label Outcome Empty),
    Decidable (parented.guard config label)
  | _, .env _ => isTrue trivial
  | ⟨.done _,_⟩, .call _ => isTrue trivial
  | ⟨.fail _,_⟩, .call _ => isTrue trivial
  | ⟨.call op _,disk⟩, .call _ => inferInstanceAs (Decidable (hasParent disk op = true))

theorem descend_lands_first : ∃ config next,
    run (step machine) ⟨execute ⟨false⟩ descend,nested [["d"]]⟩ untilRemoval = some config ∧
      config.program = .call (.remove ⟨0,["d","a"]⟩) next ∧ LandedFirst (nested [["d"]]) descend config := by
  refine ⟨_,_,rfl,rfl,?_⟩
  refine execute_lands_first ⟨false⟩ descend (nested [["d"]]) untilRemoval _ (by decide) ?_ rfl
  decide

/-- `os.MkdirAll` makes `d`, so `mkdirAllSync` finds it and never fsyncs its entry. -/
theorem descend_without_directory : ∃ config next,
    run (step machine) ⟨execute ⟨false⟩ descend,nested []⟩ untilRemoval = some config ∧
      config.program = .call (.remove ⟨0,["d","a"]⟩) next ∧ (config.world.tiers 1).present ["d"] = true ∧
        (config.world.tiers 1).durable ["d"] = false ∧ ¬ LandedFirst (nested []) descend config := by
  refine ⟨_,_,rfl,rfl,rfl,rfl,fun landed => ?_⟩
  exact absurd ((landed _ _ rfl rfl).chain ["d"] (by decide) (by decide) rfl rfl) (by decide)

end Smoothfs.DurableChain
