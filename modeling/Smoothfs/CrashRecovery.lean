import Smoothfs.DurableMovement
import Smoothfs.RecoveryRemoval

/-! What a crash leaves of the writes that fsync confirmed: the file that is
reached by name and by identity after the remount, and after live recovery. -/
namespace Smoothfs.CrashRecovery

open Program Control Movement Worker Placement Durability DurableMovement Recovery Run RecoveryRemoval WorkerRemoval

/-- The parent's tier, that of a replayed inode, then all; a cache has its base only. -/
def lookupOrder (pool : Pool) (parent : Nat) (replayed : Option Nat) : List Nat :=
  if pool.cacheMode then [pool.ntiers - 1] else parent::(replayed.toList ++ List.range pool.ntiers)

def reachedByName (world : World) (order : List Nat) (path : RelPath) : Option (Nat × FileId) :=
  order.findSome? fun tier => (world.names ⟨tier,path⟩).map (Prod.mk tier)

/-- No inode is left, files that were never synced may be gone, and of the log `kept` records are
left. -/
def remount (oid : Oid) (state : State) (kept : Nat) (lost : FileId → Bool) : World :=
  let survived : World := {state.world with
    names := fun loc => (state.world.names loc).filter fun file => state.synced file || !lost file
    inodes := fun _ => none}
  {survived with inodes := fun other =>
    if other = oid then recoveryResolveOid survived (state.log.take kept) state.index oid else none}

/-- With every operation succeeding. -/
def recoverLive (setting : Setting) (parent : Nat) (oid : Oid) (world : World) : World :=
  match (world.rows oid).bind (interrupted oid) with
  | none => world
  | some p => (eval execOp (recoverObject {setting with lookupOrder := fun _ => lookupOrder world.pool parent none} p) world).1

def replayedTier (world : World) (oid : Oid) (path : RelPath) : Option Nat :=
  (world.inodes oid).bind fun inode => if inode.relPath = some path then some inode.currentTier else none

structure Intact (oid : Oid) (path : RelPath) (parent : Nat) (state : State) (world : World) : Prop where
  byName : ∀ replayed, replayed = none ∨ replayed = replayedTier world oid path →
    ∃ tier file, reachedByName world (lookupOrder state.world.pool parent replayed) path = some (tier,file) ∧
      state.fsynced ⊆ state.durable file
  byOID : ∀ inode, world.inodes oid = some inode → state.fsynced ⊆ state.durable inode.lowerPath.file

def Survives (setting : Setting) (oid : Oid) (path : RelPath) (parent : Nat) (state : State) (kept : Nat) (lost : FileId → Bool) : Prop :=
  Intact oid path parent state (remount oid state kept lost) ∧
    Intact oid path parent state (recoverLive setting parent oid (remount oid state kept lost))

/-- A lookup of the path would find the live file first, the path index leads to no other file, and
the row has the object's path. -/
structure Anchored (oid : Oid) (path : RelPath) (parent : Nat) (state : State) : Prop where
  byName : ∀ inode, state.world.inodes oid = some inode →
    reachedByName state.world (lookupOrder state.world.pool parent none) path = some (inode.lowerPath.mnt,inode.lowerPath.file)
  byIndex : ∀ inode, state.world.inodes oid = some inode → ∀ loc, state.index = some loc →
    state.world.names (backing state.world.pool loc) = none ∨ backing state.world.pool loc = ⟨inode.lowerPath.mnt,path⟩
  recorded : ∀ row, state.world.rows oid = some row → Filepath.normalized row.relPath = true → row.relPath = path

structure Spared (oid : Oid) (path : RelPath) (tier : Nat) (file : FileId) (start world : World) : Prop where
  named : world.names ⟨tier,path⟩ = some file
  shrinks : ∀ loc other, world.names loc = some other → start.names loc = some other
  place : ∀ inode, world.inodes oid = some inode → inode.currentTier = tier ∧ inode.relPath = some path ∧ inode.lowerPath.file = file

section Reaching

variable {oid : Oid} {path : RelPath} {tier : Nat} {file : FileId} {start world : World} {order : List Nat}

theorem Spared.first (spared : Spared oid path tier file start world) (first : reachedByName start order path = some (tier,file)) :
    reachedByName world order path = some (tier,file) := by
  unfold reachedByName at first ⊢
  induction order with
  | nil => cases first
  | cons head order ih =>
    rw [List.findSome?_cons] at first ⊢
    cases named : world.names ⟨head,path⟩ with
    | some other =>
      rw [spared.shrinks _ _ named] at first
      exact first
    | none =>
      cases before : start.names ⟨head,path⟩ with
      | none =>
        rw [before] at first
        exact ih first
      | some other =>
        rw [before] at first
        cases first
        cases named.symm.trans spared.named

theorem Spared.lookup (spared : Spared oid path tier file start world) (pool : Pool) (parent : Nat)
    (first : reachedByName start (lookupOrder pool parent none) path = some (tier,file)) (replayed : Option Nat)
    (known : replayed = none ∨ replayed = some tier) : reachedByName world (lookupOrder pool parent replayed) path = some (tier,file) := by
  have plain := spared.first first
  rcases known with rfl | rfl
  · exact plain
  unfold lookupOrder reachedByName at plain ⊢
  split at plain
  · next cache =>
    rw [if_pos cache]
    exact plain
  next spread =>
  rw [if_neg spread]
  rw [List.findSome?_cons] at plain ⊢
  cases found : world.names ⟨parent,path⟩ with
  | some other =>
    rw [found] at plain
    exact plain
  | none =>
    simp only [Option.map_none,Option.toList_some,List.cons_append,List.findSome?_cons,spared.named,Option.map_some]

def Harmless (oid : Oid) (path : RelPath) (tier : Nat) (order : List Nat) (op : Op) : Prop :=
  op.steady = true ∨ (∃ loc, op = .remove loc ∧ loc.dir ≠ tier) ∨ (∃ seq, op = .moveComplete oid seq ∨ op = .moveRollback oid seq) ∨
    op = .lookupObject order path

theorem Spared.marked {after : World} (spared : Spared oid path tier file start world) (marked : Marked oid world after) :
    Spared oid path tier file start after := by
  obtain rfl | ⟨inode,_,_,_,found,rfl⟩ := marked
  · exact spared
  refine ⟨spared.named,spared.shrinks,fun later present => ?_⟩
  cases (Function.update_self oid _ _).symm.trans present
  exact spared.place inode found

theorem Spared.harmless (spared : Spared oid path tier file start world) (first : reachedByName start order path = some (tier,file))
    (op : Op) (harmless : Harmless oid path tier order op) : Spared oid path tier file start (execOp world op).1 := by
  rcases harmless with steady | ⟨loc,rfl,other⟩ | ⟨seq,rfl | rfl⟩ | rfl
  · have still := perform_steady (execOp world op).1 .done steady rfl
    constructor
    · rw [still.names,spared.named]
    · rw [still.names]
      exact spared.shrinks
    · rw [still.inodes]
      exact spared.place
  · rcases perform_remove (execOp world (.remove loc)).1 loc .done rfl with same | ⟨gone,_,same⟩
    · rw [same]
      exact spared
    · rw [same]
      refine ⟨?_,fun where_ found named => ?_,spared.place⟩
      · change (world.setName loc none).names _ = _
        rw [World.setName_names,if_neg (fun equal => other (by rw [← equal])),spared.named]
      · change (world.setName loc none).names where_ = some found at named
        rw [World.setName_names] at named
        split at named
        · cases named
        · exact spared.shrinks where_ found named
  · exact spared.marked (settle_marked world oid seq _)
  · exact spared.marked (settle_marked world oid seq _)
  · have reached := spared.first first
    unfold reachedByName at reached
    simp only [execOp,lookupObject,reached]
    split
    · exact spared
    split
    · refine ⟨spared.named,spared.shrinks,fun inode found => ?_⟩
      rw [World.setInode_inodes] at found
      split at found
      · cases found
        exact ⟨rfl,rfl,rfl⟩
      · exact spared.place inode found
    · exact spared

end Reaching

section Recovering

variable {p : InterruptedObject} {path : RelPath} {tier : Nat} {file : FileId} {start : World} {order : RelPath → List Nat}

def alone : Rely Op World Outcome Interference where
  outcome := fun _ _ outcome => outcome = .done
  action := fun _ _ => False

theorem stable_alone (holds : World → Prop) : Stable machine alone holds :=
  fun _ _ ⟨_,never,_⟩ => never.elim

theorem triple_harmless {α : Type} (first : reachedByName start (order path) path = some (tier,file)) (program : Act α)
    (uses : Uses (Harmless p.oid path tier (order path)) program) :
    Triple machine alone (fun _ _ => True) (Spared p.oid path tier file start) program
      (Ends (fun _ => Spared p.oid path tier file start) (Spared p.oid path tier file start)) := by
  refine triple_uses (stable_alone _) (fun _ _ _ _ => trivial) ?_ uses
  intro world op outcome after reply harmless spared done performed
  cases done
  have executed : execOp world op = (after,reply) := Option.some.inj performed
  have kept := spared.harmless first op harmless
  rw [executed] at kept
  exact kept

theorem triple_inspect (text : String) :
    Triple machine alone (fun _ _ => True) (Spared p.oid path tier file start) (request (.inspect p.oid) text)
      (Ends (fun ins world => ins.currentTier = tier ∧ Spared p.oid path tier file start world) (Spared p.oid path tier file start)) := by
  refine triple_request text (stable_alone _) (fun _ => stable_alone _) (stable_alone _) (fun _ _ => trivial) ?_
  intro world outcome after reply spared done performed
  cases done
  cases reply with
  | error errno =>
    cases congrArg Prod.fst (Option.some.inj performed)
    exact spared
  | ok ins =>
    have inspected : inspect world p.oid = .ok ins := congrArg Prod.snd (Option.some.inj performed)
    cases congrArg Prod.fst (Option.some.inj performed)
    obtain ⟨inode,found,rfl⟩ := (inspect_ok ..).mp inspected
    exact ⟨(spared.place inode found).1,spared⟩

theorem triple_inspectObject (first : reachedByName start (order path) path = some (tier,file)) (exposed : Bool)
    (recorded : Filepath.normalized p.rel = true → p.rel = path) :
    Triple machine alone (fun _ _ => True) (Spared p.oid path tier file start) (inspectObject exposed order p)
      (Ends (fun ins world => ins.currentTier = tier ∧ Spared p.oid path tier file start world) (Spared p.oid path tier file start)) := by
  have warms : Triple machine alone (fun _ _ => True) (Spared p.oid path tier file start)
      (warmRecoveryObject exposed order p.rel p.oid)
      (Ends (fun _ => Spared p.oid path tier file start) (Spared p.oid path tier file start)) := by
    refine triple_seq (triple_require _ _ (stable_alone _)) (fun _ => triple_pure fun usable => ?_)
    rw [recorded (of_decide_eq_true usable).2]
    refine triple_harmless first _ (uses_bind (uses_request _ _ (.inl rfl)) fun _ => ?_)
    exact uses_bind (uses_request _ _ (.inr (.inr (.inr rfl)))) fun _ => uses_require
  refine triple_call (stable_alone _)
    (fun reply world => Spared p.oid path tier file start world ∧ ∀ ins, reply = .ok ins → ins.currentTier = tier) (fun _ _ => trivial)
    (fun world outcome after reply spared done performed => ?_) (fun reply => ?_)
  · cases done
    have inspected : inspect world p.oid = reply := congrArg Prod.snd (Option.some.inj performed)
    cases congrArg Prod.fst (Option.some.inj performed)
    refine ⟨spared,fun ins same => ?_⟩
    obtain ⟨inode,found,rfl⟩ := (inspect_ok ..).mp (inspected.trans same)
    exact (spared.place inode found).1
  · cases reply with
    | ok ins => exact triple_done (stable_alone _) fun world holds => ⟨holds.2 ins rfl,holds.1⟩
    | error errno =>
      dsimp only
      split
      · have warmed := triple_within "instantiate interrupted object" _ warms (fun _ => stable_alone _) (stable_alone _)
        exact (triple_seq warmed (fun _ => triple_inspect "inspect")).consequence (fun _ holds => holds.1) (fun _ _ => id)
      · exact triple_fail (stable_alone _) fun world holds => holds.1

theorem triple_recoverObject (setting : Setting) (first : reachedByName start (setting.lookupOrder path) path = some (tier,file))
    (rooted : ∀ space, setting.namespaces p.namespaceID = some space → Rooted space.tiers)
    (recorded : Filepath.normalized p.rel = true → p.rel = path) :
    Triple machine alone (fun _ _ => True) (Spared p.oid path tier file start) (recoverObject setting p)
      (Ends (fun _ => Spared p.oid path tier file start) (Spared p.oid path tier file start)) := by
  have quiet (op : Op) (steady : op.steady = true) : Harmless p.oid path tier (setting.lookupOrder path) op := .inl steady
  have idle (op : Op) (idle : op.idle = true) : Harmless p.oid path tier (setting.lookupOrder path) op := by
    refine .inl ?_
    cases op <;> first | rfl | cases idle
  unfold recoverObject
  split
  · exact triple_fail (stable_alone _) (fun _ => id)
  next client _ =>
  refine triple_seq (triple_harmless first _ (uses_request _ _ (quiet _ rfl))) fun _ => ?_
  split
  · exact triple_fail (stable_alone _) (fun _ => id)
  next space known =>
  refine triple_seq (triple_harmless first _ uses_require) fun _ => ?_
  refine triple_seq (triple_inspectObject first space.exposed recorded) (fun ins => triple_pure fun there => ?_)
  refine triple_seq (triple_harmless first _ uses_require) fun _ => ?_
  refine triple_seq (triple_harmless first _ uses_require) fun _ => ?_
  refine triple_seq (triple_harmless first _ (uses_request _ _ (quiet _ rfl))) fun _ => ?_
  refine triple_seq (triple_returns _ (returns_chooseSides space.tiers ins)
    (triple_harmless first _ (uses_chooseSides idle space.tiers ins))) (fun sides => triple_pure fun chosen => ?_)
  have other : sides.other.lower ≠ tier := by
    rw [← there]
    exact (rooted space known).other_lower chosen
  have removes (present : Bool) : Uses (Harmless p.oid path tier (setting.lookupOrder path))
      (removeCopy present (joinPath sides.other.lower (recoveryPath p ins))) := by
    cases present with
    | false => trivial
    | true => exact uses_request _ _ (.inr (.inl ⟨_,rfl,other⟩))
  refine triple_harmless first _ (uses_bind (uses_request _ _ (quiet _ rfl)) fun live => uses_bind uses_require fun _ => ?_)
  refine uses_bind (uses_findCopy idle live) fun present => uses_bind (uses_checkPhase client ins sides) fun _ => ?_
  refine uses_bind (removes present) fun _ => uses_bind (uses_syncParents quiet) fun _ => ?_
  exact uses_settleObject quiet (fun seq => .inr (.inr (.inl ⟨seq,.inl rfl⟩))) (fun seq => .inr (.inr (.inl ⟨seq,.inr rfl⟩))) ins sides _

end Recovering

section Crash

variable {oid : Oid} {path : RelPath} {parent : Nat} {state : State} {inode : Inode} {world : World}

theorem remount_spared (live : Live oid path state inode) (anchored : Anchored oid path parent state) (kept : Nat) (lost : FileId → Bool) :
    Spared oid path inode.lowerPath.mnt inode.lowerPath.file state.world (remount oid state kept lost) := by
  have shrinks (loc : Loc) (file : FileId) (named : (remount oid state kept lost).names loc = some file) :
      state.world.names loc = some file := (Option.filter_eq_some_iff.mp named).1
  refine ⟨Option.filter_eq_some_iff.mpr ⟨live.named,by rw [live.synced,Bool.true_or]⟩,shrinks,fun made present => ?_⟩
  simp only [remount] at present
  obtain ⟨loc,indexed,named,tier,rel⟩ := recoveryResolveOid_spec present
  have before := shrinks _ _ named
  rcases anchored.byIndex inode live.found loc indexed with absent | same
  · cases absent.symm.trans before
  refine ⟨tier.trans (congrArg Loc.dir same),rel.trans (congrArg (fun loc => some loc.rel) same),?_⟩
  change state.world.names (backing state.world.pool loc) = some made.lowerPath.file at before
  rw [same] at before
  exact Option.some.inj (before.symm.trans live.named)

theorem intact_of_spared (live : Live oid path state inode) (anchored : Anchored oid path parent state)
    (spared : Spared oid path inode.lowerPath.mnt inode.lowerPath.file state.world world) : Intact oid path parent state world where
  byName := by
    intro replayed known
    refine ⟨_,_,spared.lookup state.world.pool parent (anchored.byName inode live.found) replayed ?_,live.durable⟩
    rcases known with rfl | rfl
    · exact .inl rfl
    cases found : world.inodes oid with
    | none => exact .inl (by rw [replayedTier,found,Option.bind_none])
    | some made =>
      obtain ⟨tier,rel,_⟩ := spared.place made found
      refine .inr ?_
      rw [replayedTier,found,Option.bind_some,if_pos rel,tier]
  byOID := by
    intro made found
    rw [(spared.place made found).2.2]
    exact live.durable

theorem recoverLive_spared (setting : Setting) (live : Live oid path state inode) (anchored : Anchored oid path parent state)
    (rooted : ∀ id space, setting.namespaces id = some space → Rooted space.tiers) (kept : Nat) (lost : FileId → Bool) :
    Spared oid path inode.lowerPath.mnt inode.lowerPath.file state.world
      (recoverLive setting parent oid (remount oid state kept lost)) := by
  have spared := remount_spared live anchored kept lost
  unfold recoverLive
  split
  · exact spared
  next p selected =>
  obtain ⟨row,recorded,chosen⟩ := Option.bind_eq_some_iff.mp selected
  have same : p.oid = oid ∧ p.rel = row.relPath := by
    unfold interrupted at chosen
    split at chosen
    · cases chosen
    · cases chosen
      exact ⟨rfl,rfl⟩
  obtain ⟨rfl,rel⟩ := same
  have recovers := triple_recoverObject (p := p) {setting with lookupOrder := fun _ => lookupOrder state.world.pool parent none}
    (anchored.byName inode live.found) (rooted p.namespaceID) (by rw [rel]; exact anchored.recorded row recorded)
  have ends := wp_eval .done (fun _ _ => rfl) (fun _ _ => rfl) _ _ (recovers _ spared)
  revert ends
  cases (eval execOp (recoverObject _ p) _).2 <;> exact id

end Crash

/-- A crash in an anchored state loses no confirmed write, however much of the log it keeps. -/
theorem movement_keeps_fsynced {oid : Oid} {path : RelPath} (hooks : Hooks) (plans : List MovementPlan)
    (mine : ∀ plan ∈ plans, plan.objectID = oid) (start : State) (safe : Safe oid path start) (labels : List (Label Outcome Env))
    (config : Config Op Reply State GoError Unit)
    (guarded : Guarded (step (machine oid)) (honest path).guard ⟨work hooks plans,start⟩ labels)
    (reached : run (step (machine oid)) ⟨work hooks plans,start⟩ labels = some config) (parent : Nat)
    (anchored : Anchored oid path parent config.world) (setting : Setting)
    (rooted : ∀ id space, setting.namespaces id = some space → RecoveryRemoval.Rooted space.tiers) (kept : Nat) (lost : FileId → Bool) :
    Survives setting oid path parent config.world kept lost := by
  obtain ⟨inode,live,_⟩ := (work_safe mine safe guarded reached).live
  exact ⟨intact_of_spared live anchored (remount_spared live anchored kept lost),
    intact_of_spared live anchored (recoverLive_spared setting live anchored rooted kept lost)⟩

def resting : State :=
  ⟨twoTiers,fun _ => [],fun _ => [],fun file => file = 0,[],[],[],[],none,none⟩

theorem resting_safe : Safe 7 ["a"] resting :=
  ⟨twoTiers_tidy,Namespace.newInode 0 0 ["a"],⟨rfl,rfl,rfl,rfl,rfl,by decide,by decide,by decide⟩,trivial⟩

instance decidableHonest (path : RelPath) :
    ∀ (config : Config Op Reply State GoError Unit) (label : Label Outcome Env), Decidable ((honest path).guard config label)
  | _, .env _ => isTrue trivial
  | ⟨.done _,_⟩, .call _ => isTrue trivial
  | ⟨.fail _,_⟩, .call _ => isTrue trivial
  | ⟨.call op _,state⟩, .call outcome => inferInstanceAs (Decidable (honestly path state op outcome = true))

def demotedWrite : List (Label Outcome Env) :=
  List.replicate 31 (.call .done) ++ [.env (.write [1,2]),.env .fsync]

theorem demotedWrite_reaches : ∃ config,
    run (step (machine 7)) ⟨work ⟨false⟩ [demote],resting⟩ demotedWrite = some config ∧ config.world.fsynced = [0] ∧
      (config.world.world.inodes 7).map (·.lowerPath) = some ⟨1,1,"a"⟩ ∧ config.world.index = none ∧
      (config.world.world.rows 7).map (·.relPath) = some ["a"] ∧
      reachedByName config.world.world (lookupOrder config.world.world.pool 0 none) ["a"] = some (1,1) :=
  reaches (by decide +kernel)

theorem demoted_write_survives : ∃ config,
    run (step (machine 7)) ⟨work ⟨false⟩ [WorkerRemoval.demote],resting⟩ demotedWrite = some config ∧ config.world.fsynced = [0] ∧
      Survives RecoverySettles.twoTierSetting 7 ["a"] 0 config.world 0 (fun _ => true) := by
  obtain ⟨config,reached,fsynced,lower,index,rows,named⟩ := demotedWrite_reaches
  refine ⟨config,reached,fsynced,?_⟩
  refine movement_keeps_fsynced ⟨false⟩ [demote] (by decide) resting resting_safe demotedWrite config (by decide +kernel)
    reached 0 ⟨fun inode found => ?_,fun _ _ loc indexed => ?_,fun row found _ => ?_⟩ RecoverySettles.twoTierSetting
    twoTierSetting_rooted 0 (fun _ => true)
  · rw [found] at lower
    rw [named,show inode.lowerPath = _ from Option.some.inj lower]
  · cases index.symm.trans indexed
  · rw [found] at rows
    exact Option.some.inj rows

def switchedWrite : List (Label Outcome Env) :=
  List.replicate 24 (.call .done) ++ [.env (.write [1,2]),.env .fsync,.env .flush]

/-- The name leads to the old copy, and recovery removes the copy that has the write. -/
theorem switched_write_lost : Safe 7 ["a"] resting ∧ ∃ config,
    run (step (machine 7)) ⟨work ⟨false⟩ [WorkerRemoval.demote],resting⟩ switchedWrite = some config ∧
      config.world.fsynced = [0] ∧ config.world.durable 0 = [] ∧
      reachedByName (remount 7 config.world 3 (fun _ => false)) (lookupOrder config.world.world.pool 0 none) ["a"] = some (0,0) ∧
      (recoverLive RecoverySettles.twoTierSetting 0 7 (remount 7 config.world 3 (fun _ => false))).names ⟨1,["a"]⟩ = none ∧
      ¬ Survives RecoverySettles.twoTierSetting 7 ["a"] 0 config.world 3 (fun _ => false) := by
  have summary : (run (step (machine 7)) ⟨work ⟨false⟩ [demote],resting⟩ switchedWrite).map (fun config =>
      (config.world.fsynced,config.world.durable 0,
        reachedByName (remount 7 config.world 3 (fun _ => false)) (lookupOrder config.world.world.pool 0 none) ["a"],
        (recoverLive RecoverySettles.twoTierSetting 0 7 (remount 7 config.world 3 (fun _ => false))).names ⟨1,["a"]⟩)) =
      some ([0],[],some (0,0),none) := by
    decide +kernel
  obtain ⟨config,reached,same⟩ := Option.map_eq_some_iff.mp summary
  simp only [Prod.mk.injEq] at same
  obtain ⟨fsynced,durable,named,gone⟩ := same
  refine ⟨resting_safe,config,reached,fsynced,durable,named,gone,fun survives => ?_⟩
  obtain ⟨tier,file,found,held⟩ := survives.1.byName none (.inl rfl)
  cases named.symm.trans found
  rw [fsynced,durable] at held
  exact absurd (held List.mem_cons_self) List.not_mem_nil

end Smoothfs.CrashRecovery
