import Smoothfs.Resolve

/-! `recoverObject` for an object that need not be in memory. The first command that it sends to the
kernel, INSPECT, resolves such an object through the recovery index. -/
namespace Smoothfs.ColdRecovery

open Program Control Movement Namespace Worker Recovery Run Lookup Resolve RecoveryRemoval
open Placement hiding recoveryResolveOid
open RecoverySettles (Recoverable)
open Function (update update_eq_self update_self)

/-- Under the identity stands the inode that INSPECT resolves it to, with which all later commands
for it have to do. -/
def inspected (number : Oid → Nat) (mount : Mount) (fresh oid : Oid) : World :=
  match recoveryResolveOid number mount fresh oid with
  | (after,some found) => {after.world with inodes := update after.world.inodes oid (after.world.inodes found)}
  | (after,none) => after.world

/-- The object is in memory, or its record leads to no file or to its own. -/
def LedHome (number : Oid → Nat) (mount : Mount) (oid : Oid) : Prop :=
  oid ∈ mount.cache.incore ∨ ∀ record place file, recorded mount oid = some (record,place,file) →
    Identifies number mount.world mount.cache oid place.dir file

section Resolution

variable (number : Oid → Nat) (mount : Mount) {fresh oid : Oid}

theorem resolved_iff (new : fresh ≠ oid) :
    (∀ found, (recoveryResolveOid number mount fresh oid).2 = some found → found = oid) ↔ LedHome number mount oid := by
  unfold recoveryResolveOid LedHome
  split
  next present => simp [present]
  next absent =>
  cases led : recorded mount oid with
  | none => simp
  | some target =>
    obtain ⟨record,place,file⟩ := target
    have identity := iget_own_iff number mount.world absent new place.dir file
    simp only [absent,false_or,instantiate,Option.some.injEq,forall_eq',Prod.mk.injEq,and_imp]
    exact ⟨fun own _ _ _ _ same copy => same ▸ copy ▸ identity.mp own,fun holds => identity.mpr (holds _ _ _ rfl rfl rfl)⟩

variable (fresh oid)

theorem resolved_rows : (recoveryResolveOid number mount fresh oid).1.world.rows = mount.world.rows := by
  unfold recoveryResolveOid
  split
  · rfl
  split
  · rfl
  · unfold instantiate identified
    dsimp only
    split <;> rfl

theorem inspected_rows : (inspected number mount fresh oid).rows = mount.world.rows := by
  have same := resolved_rows number mount fresh oid
  unfold inspected
  split
  next resolved =>
    rw [resolved] at same
    exact same
  next resolved =>
    rw [resolved] at same
    exact same

end Resolution

/-- A run in which every operation is carried out is about the object and settles its movement
exactly when its record leads to no other object and the movement is recoverable. -/
theorem recoverObject_settles_iff (number : Oid → Nat) (setting : Setting) (mount : Mount) (fresh oid : Oid) (row : Row)
    (p : InterruptedObject) (new : fresh ≠ oid) (stored : mount.world.rows oid = some row) (selected : interrupted oid row = some p) :
    ((∀ found, (recoveryResolveOid number mount fresh oid).2 = some found → found = oid) ∧
      ∃ count after, run (Program.step machine) ⟨recoverObject setting p,inspected number mount fresh oid⟩
          (List.replicate count (.call .done)) = some ⟨.done (),after⟩ ∧
        RecoverySettles.Settled setting p (inspected number mount fresh oid) after) ↔
      LedHome number mount oid ∧ Recoverable setting p (inspected number mount fresh oid) := by
  have kept : (inspected number mount fresh oid).rows oid = some row := by
    rw [inspected_rows]
    exact stored
  exact and_congr (resolved_iff number mount new) (RecoverySettles.settles_iff setting oid row p _ kept selected)

/-- What a mount knows of object 7 whose plan to leave `tier` was interrupted. -/
def remounted (world : World) (tier intended : Nat) : Mount :=
  remount ⟨world,⟨[7],[7]⟩,fun _ => 0,[⟨7,.planAccepted,tier,intended⟩],
    fun oid => if oid = 7 then some ⟨tier,["a"]⟩ else none,fun _ => none⟩ 1

theorem identifies_empty {number : Oid → Nat} {world : World} {oid : Oid} {tier : Nat} {file : FileId}
    (carries : (world.files file).oid = some oid) : Identifies number world ⟨[],[]⟩ oid tier file :=
  ⟨by simp [held],carries,by simp [held]⟩

theorem remounted_led {world : World} {tier intended : Nat} {record : ReplayRecord} {place : Loc} {file : FileId}
    (tiered : world.pool.cacheMode = false) (led : recorded (remounted world tier intended) 7 = some (record,place,file)) :
    place = ⟨tier,["a"]⟩ ∧ world.names ⟨tier,["a"]⟩ = some file := by
  have named : world.names place = some file := (recorded_named led).2
  obtain ⟨known,read,led⟩ := Option.bind_eq_some_iff.mp led
  obtain ⟨loc,kept,led⟩ := Option.bind_eq_some_iff.mp led
  have read : pathIndexRead world.pool.ntiers (replayLoadLog [⟨7,.planAccepted,tier,intended⟩] 7) (some ⟨tier,["a"]⟩) = some known :=
    read
  cases pathIndexRead_place read (Option.filter_eq_some_iff.mp kept).1
  obtain ⟨_,_,same⟩ := Option.bind_eq_some_iff.mp led
  cases same
  have home : backing (remounted world tier intended).world.pool ⟨tier,["a"]⟩ = ⟨tier,["a"]⟩ := by
    simp [backing,remounted,remount,tiered]
  rw [home] at named ⊢
  exact ⟨rfl,named⟩

theorem killed_worker_settles : ∃ config row p,
    run (Program.step machine) ⟨execute ⟨false⟩ WorkerRemoval.demote,WorkerRemoval.twoTiers⟩ RecoverySettles.killed = some config ∧
      config.world.rows 7 = some row ∧ interrupted 7 row = some p ∧ ∃ count after,
        run (Program.step machine) ⟨recoverObject RecoverySettles.twoTierSetting p,inspected id (remounted config.world 0 1) 9 7⟩
          (List.replicate count (.call .done)) = some ⟨.done (),after⟩ ∧
        RecoverySettles.Settled RecoverySettles.twoTierSetting p (inspected id (remounted config.world 0 1) 9 7) after := by
  refine ⟨_,_,_,rfl,rfl,rfl,?_⟩
  refine ((recoverObject_settles_iff id RecoverySettles.twoTierSetting (remounted _ 0 1) 9 7 _ _ (by decide) rfl rfl).mpr ⟨?_,?_⟩).2
  · refine .inr fun record place file led => ?_
    obtain ⟨rfl,named⟩ := remounted_led rfl led
    cases (show _ = some 0 from rfl).symm.trans named
    exact identifies_empty rfl
  refine ⟨⟨true,true⟩,_,_,_,⟨RecoverySettles.fast,RecoverySettles.slow,"fast","slow"⟩,rfl,rfl,rfl,.inl ⟨rfl,rfl⟩,?_⟩
  refine ⟨.inl rfl,rfl,⟨rfl,rfl,by decide,rfl,by decide,.inl rfl,rfl⟩,⟨0,rfl,rfl,fun copy found => ?_⟩,trivial,.inl rfl⟩
  cases (show _ = some 1 from rfl).symm.trans found
  exact ⟨rfl,by decide⟩

/-- The pool is coherent. The object is linked, or it has no inode and is alone at its recorded path,
and likewise at the path that the recovery index has for it, where its own file stands. -/
structure Ready (number : Oid → Nat) (p : InterruptedObject) (mount : Mount) : Prop where
  coherent : Coherence.Coherent mount.world
  memory : p.oid ∉ mount.cache.incore → mount.world.inodes p.oid = none
  linked : ∀ inode, mount.world.inodes p.oid = some inode → inode.linked = true ∧ inode.relPath ≠ some []
  absent : mount.world.inodes p.oid = none → OwnPath p.oid p.rel mount.world
  led : p.oid ∉ mount.cache.incore → ∀ record place file, recorded mount p.oid = some (record,place,file) →
    Identifies number mount.world mount.cache p.oid place.dir file ∧ place.rel ≠ [] ∧ OwnPath p.oid place.rel mount.world

section Removal

variable {number : Oid → Nat} {p : InterruptedObject} {mount : Mount}

theorem Ready.inspected (ready : Ready number p mount) (fresh : Oid) :
    RecoveryRemoval.Ready p (inspected number mount fresh p.oid) := by
  have known : RecoveryRemoval.Ready p mount.world := ⟨ready.coherent,ready.linked,ready.absent⟩
  unfold ColdRecovery.inspected recoveryResolveOid
  by_cases present : p.oid ∈ mount.cache.incore
  · simp only [if_pos present,update_eq_self]
    exact known
  rw [if_neg present]
  cases led : recorded mount p.oid with
  | none => exact known
  | some target =>
    obtain ⟨record,place,file⟩ := target
    obtain ⟨identifies,named,own⟩ := ready.led present record place file led
    have absent := ready.memory present
    simp only [instantiate,identifies.iget,identified,absent,Option.getD_none,update_eq_self,Bool.false_eq_true,if_false]
    have instantiated := ready.coherent.instantiate p.oid place.dir file place.rel absent (recorded_named led).2
      fun tier copy there => (own tier copy there).1
    refine ⟨instantiated.still rfl rfl (fun _ => rfl) fun other inode found => ?_,fun inode found => ?_,fun gone => ?_⟩
    · rw [World.setInode_inodes] at found
      split at found
      next same =>
        cases found
        subst same
        exact ⟨_,update_self ..,rfl,rfl,rfl,rfl,rfl⟩
      next different => exact ⟨inode,(Function.update_of_ne different _ _).trans found,Coherence.samePlace_refl inode⟩
    · cases (update_self p.oid _ _).symm.trans found
      exact ⟨rfl,fun same => named (Option.some.inj same)⟩
    · cases (update_self p.oid _ _).symm.trans gone

end Removal

end Smoothfs.ColdRecovery
