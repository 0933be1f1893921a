import Smoothfs.Worker

/-! Which files `Worker.execute` removes, when any netlink request may be executed
without its reply reaching the worker. -/
namespace Smoothfs.WorkerRemoval

open Program Control Movement Worker Run Function

def Home (oid : Oid) (world : World) : Prop :=
  ∀ inode, world.inodes oid = some inode → inode.currentTier = inode.lowerPath.mnt ∧
    ∃ rel, world.names ⟨inode.lowerPath.mnt,rel⟩ = some inode.lowerPath.file

def SparesLowerPath (oid : Oid) (config : Config Op Reply World GoError Unit) : Prop :=
  ∀ loc next, config.program = .call (.remove loc) next →
    ∀ inode, config.world.inodes oid = some inode → config.world.names loc ≠ some inode.lowerPath.file

/-- No MOVE_CUTOVER that the kernel carries out has its reply lost. Nobody else acts meanwhile. -/
def reported : Rely Op World Outcome Interference where
  outcome := fun world op outcome => ∀ oid seq expected errno, op = .moveCutover oid seq expected →
    outcome = .lost errno → (movementCutover world oid seq expected .none).2 ≠ .ok ()
  action := fun _ _ => False

theorem stable_reported {holds : World → Prop} : Stable machine reported holds :=
  fun _ _ ⟨_,never,_⟩ => never.elim

def Spares (oid : Oid) (world : World) (op : Op) : Prop :=
  ∀ loc, op = .remove loc → ∀ inode, world.inodes oid = some inode → world.names loc ≠ some inode.lowerPath.file

theorem spares_other (oid : Oid) (world : World) {op : Op} (other : ∀ loc, op ≠ .remove loc) : Spares oid world op :=
  fun loc equal => absurd equal (other loc)

def Before (oid : Oid) (world : World) : Prop :=
  world.Tidy ∧ Home oid world

structure Planned (oid : Oid) (dest : Nat) (world : World) : Prop where
  tidy : world.Tidy
  away : ∃ inode rel, world.inodes oid = some inode ∧ inode.intendedTier = dest ∧ inode.lowerPath.mnt ≠ dest ∧
    world.names ⟨inode.lowerPath.mnt,rel⟩ = some inode.lowerPath.file

structure Switched (oid : Oid) (dest : Nat) (world : World) : Prop where
  tidy : world.Tidy
  arrived : ∃ inode rel, world.inodes oid = some inode ∧ world.names ⟨dest,rel⟩ = some inode.lowerPath.file

variable {oid : Oid} {world after : World}

theorem Before.same (holds : Before oid world) (same : SameNames world after) : Before oid after := by
  refine ⟨same.tidy holds.1,?_⟩
  rw [Home,same.inodes,same.names]
  exact holds.2

variable {dest : Nat}

theorem Planned.same (holds : Planned oid dest world) (same : SameNames world after) : Planned oid dest after := by
  refine ⟨same.tidy holds.tidy,?_⟩
  rw [same.inodes,same.names]
  exact holds.away

theorem Switched.same (holds : Switched oid dest world) (same : SameNames world after) : Switched oid dest after := by
  refine ⟨same.tidy holds.tidy,?_⟩
  rw [same.inodes,same.names]
  exact holds.arrived

theorem Planned.setName (holds : Planned oid dest world) (loc : Loc)
    (inside : loc.dir = dest) (tidy : after.Tidy) (inodes : after.inodes = world.inodes)
    (names : ∀ other, other ≠ loc → after.names other = world.names other) : Planned oid dest after := by
  obtain ⟨inode,rel,found,intended,elsewhere,named⟩ := holds.away
  refine ⟨tidy,inode,rel,by rw [inodes,found],intended,elsewhere,?_⟩
  rw [names _ (fun equal => elsewhere (by rw [← inside,← equal])),named]

theorem Planned.spares (holds : Planned oid dest world) (loc : Loc)
    (inside : loc.dir = dest) : Spares oid world (.remove loc) := by
  intro removed equal inode found live
  cases equal
  obtain ⟨known,rel,present,_,elsewhere,named⟩ := holds.away
  cases found.symm.trans present
  exact elsewhere ((holds.tidy.apart _ _ _ named live).trans inside)

theorem Switched.spares (holds : Switched oid dest world) (loc : Loc)
    (outside : loc.dir ≠ dest) : Spares oid world (.remove loc) := by
  intro removed equal inode found live
  cases equal
  obtain ⟨known,rel,present,named⟩ := holds.arrived
  cases found.symm.trans present
  exact outside (holds.tidy.apart _ _ _ live named)

def CopyOp (dest : Nat) (op : Op) : Prop :=
  op.quiet = true ∨ (∃ loc, op = .remove loc ∧ loc.dir = dest) ∨ ∃ loc object, op = .openDestination loc object ∧ loc.dir = dest

theorem copyOp_steady (op : Op) (steady : op.steady = true) : CopyOp dest op :=
  .inl (op.quiet_of_steady steady)

variable {outcome : Outcome}

theorem Planned.kept {op : Op} {reply : Reply op} (holds : Planned oid dest world) (copies : CopyOp dest op)
    (performed : perform world op outcome = some (after,reply)) : Planned oid dest after := by
  rcases copies with quiet | ⟨loc,rfl,inside⟩ | ⟨loc,object,rfl,inside⟩
  · exact holds.same (perform_sameNames quiet performed)
  · rcases perform_remove after loc outcome performed with rfl | ⟨file,_,rfl⟩
    · exact holds
    · exact holds.setName loc inside ((holds.tidy.removeName loc).congr rfl rfl) rfl
        (fun other different => update_of_ne different _ _)
  · rcases perform_openDestination loc performed with ⟨rfl,_⟩ | opened
    · exact holds
    · unfold openDestination at opened
      split at opened
      · cases opened
        exact holds.setName loc inside (holds.tidy.create loc _) rfl
          (fun other different => update_of_ne different _ _)
      · dsimp only at opened
        split at opened <;> cases opened <;> exact holds.same ⟨rfl,rfl,rfl,rfl⟩

def CleanupOp (dest : Nat) (op : Op) : Prop :=
  op.quiet = true ∨ (∃ loc, op = .remove loc ∧ loc.dir ≠ dest) ∨ ∃ oid seq, op = .moveComplete oid seq

theorem Switched.kept {op : Op} {reply : Reply op} (holds : Switched oid dest world) (cleans : CleanupOp dest op)
    (performed : perform world op outcome = some (after,reply)) : Switched oid dest after := by
  rcases cleans with quiet | ⟨loc,rfl,outside⟩ | ⟨other,seq,rfl⟩
  · exact holds.same (perform_sameNames quiet performed)
  · rcases perform_remove after loc outcome performed with rfl | ⟨file,_,rfl⟩
    · exact holds
    · obtain ⟨inode,rel,found,named⟩ := holds.arrived
      refine ⟨(holds.tidy.removeName loc).congr rfl rfl,inode,rel,found,?_⟩
      change (world.setName loc none).names _ = _
      rw [World.setName_names,if_neg (fun equal => outside (by rw [← equal])),named]
  · have completed : Switched oid dest (movementComplete world other seq).1 := by
      rw [movementComplete]
      rcases settle_marked world other seq (· = .switched) with same | ⟨settled,_,_,_,known,result⟩
      · rw [same]
        exact holds
      obtain ⟨inode,rel,found,named⟩ := holds.arrived
      rw [result]
      by_cases self : oid = other
      · subst other
        cases found.symm.trans known
        exact ⟨holds.tidy.congr rfl rfl,_,rel,update_self ..,named⟩
      · exact ⟨holds.tidy.congr rfl rfl,inode,rel,(update_of_ne self _ _).trans found,named⟩
    rcases perform_moveComplete other seq performed with ⟨rfl,_⟩ | done | ⟨rfl,_⟩
    · exact holds
    · rw [← done] at completed
      exact completed
    · exact completed

theorem Before.kept {op : Op} {reply : Reply op} (holds : Before oid world) (quiet : op.quiet = true)
    (performed : perform world op outcome = some (after,reply)) : Before oid after :=
  holds.same (perform_sameNames quiet performed)

theorem quiet_spares (oid : Oid) (world : World) (op : Op) (quiet : op.quiet = true) : Spares oid world op :=
  spares_other oid world (fun loc equal => by rw [equal] at quiet; cases quiet)

section Triples

variable {α : Type} (oid : Oid) (dest : Nat)

variable (program : Act α)

theorem triple_before (uses : Uses (fun op => op.quiet = true) program) :
    Triple machine reported (Spares oid) (Before oid) program (Ends (fun _ => Before oid) (Before oid)) :=
  triple_uses stable_reported (fun world op quiet _ => quiet_spares oid world op quiet)
    (fun _ _ _ _ _ quiet holds _ performed => holds.kept quiet performed) uses

theorem triple_planned (uses : Uses (CopyOp dest) program) :
    Triple machine reported (Spares oid) (Planned oid dest) program (Ends (fun _ => Planned oid dest) (Planned oid dest)) := by
  refine triple_uses stable_reported ?_ (fun _ _ _ _ _ copies holds _ performed => holds.kept copies performed) uses
  rintro world op (quiet | ⟨loc,rfl,inside⟩ | ⟨loc,object,rfl,_⟩) holds
  · exact quiet_spares oid world op quiet
  · exact holds.spares loc inside
  · exact spares_other oid world (fun _ equal => nomatch equal)

theorem triple_switched (uses : Uses (CleanupOp dest) program) :
    Triple machine reported (Spares oid) (Switched oid dest) program (Ends (fun _ => Switched oid dest) (Switched oid dest)) := by
  refine triple_uses stable_reported ?_ (fun _ _ _ _ _ cleans holds _ performed => holds.kept cleans performed) uses
  rintro world op (quiet | ⟨loc,rfl,outside⟩ | ⟨other,seq,rfl⟩) holds
  · exact quiet_spares oid world op quiet
  · exact holds.spares loc outside
  · exact spares_other oid world (fun _ equal => nomatch equal)

theorem triple_plan (destTier seq : Nat) (text : String) :
    Triple machine reported (Spares oid) (Before oid) (request (.movePlan oid destTier seq) text)
      (Ends (fun _ => Planned oid destTier) (Before oid)) := by
  refine triple_request text stable_reported (fun _ => stable_reported) stable_reported
    (fun world _ => spares_other oid world (fun _ equal => nomatch equal)) ?_
  · intro world outcome after reply holds _ performed
    have accepted (inode : Inode) (found : world.inodes oid = some inode) (elsewhere : destTier ≠ inode.currentTier) :
        Planned oid destTier (world.setInode oid
          {inode with intendedTier := destTier, movementState := .planAccepted, transactionSeq := seq}) := by
      obtain ⟨tier,rel,named⟩ := holds.2 inode found
      exact ⟨holds.1.congr rfl rfl,_,rel,update_self ..,rfl,fun equal => elsewhere (tier.trans equal).symm,named⟩
    rcases perform_movePlan oid performed with ⟨rfl,errno,rfl⟩ | done | ⟨lost,errno,rfl⟩
    · exact holds
    · rcases movementPlan_spec world oid destTier seq false with ⟨errno,refused⟩ | ⟨inode,found,_,elsewhere,_,_,result⟩
      · rw [refused] at done
        cases done
        exact holds
      · rw [result] at done
        cases done
        exact accepted inode found elsewhere
    · rcases movementPlan_spec world oid destTier seq false with ⟨_,refused⟩ | ⟨inode,found,_,elsewhere,_,_,result⟩
      · rw [lost,refused]
        exact holds
      · -- the plan was accepted and its reply lost: the inode stays where it was
        rw [lost,result]
        refine ⟨holds.1.congr rfl rfl,fun other known => ?_⟩
        cases (update_self oid _ world.inodes).symm.trans known
        exact holds.2 inode found

variable {world : World}

theorem Planned.refused {oid : Oid} {dest : Nat} {after : World} (holds : Planned oid dest world)
    (refused : Refused world after oid) : Planned oid dest after := by
  obtain ⟨inode,rel,found,intended,elsewhere,named⟩ := holds.away
  rcases refused with rfl | ⟨known,state,present,rfl | ⟨file,rfl⟩⟩
  · exact holds
  all_goals
    cases found.symm.trans present
    exact ⟨holds.tidy.congr rfl rfl,_,rel,update_self ..,intended,elsewhere,named⟩

theorem Planned.publish {oid : Oid} {dest : Nat} (holds : Planned oid dest world) (inode : Inode)
    (file : FileId) (found : world.inodes oid = some inode) (named : world.names (cutoverDest inode) = some file) :
    Switched oid dest (publish world oid inode file) := by
  obtain ⟨known,_,present,intended,_,_⟩ := holds.away
  cases found.symm.trans present
  refine ⟨holds.tidy.congr rfl rfl,_,(cutoverDest inode).rel,update_self ..,?_⟩
  rw [← intended]
  exact named

theorem triple_moveCutover (seq : Nat) (expected : Option Nat) (text : String) :
    Triple machine reported (Spares oid) (Planned oid dest) (request (.moveCutover oid seq expected) text)
      (Ends (fun _ => Switched oid dest) (Planned oid dest)) := by
  refine triple_request text stable_reported (fun _ => stable_reported) stable_reported
    (fun world _ => spares_other oid world (fun _ equal => nomatch equal)) ?_
  · intro world outcome after reply holds condition performed
    rcases perform_moveCutover oid seq expected performed with
      ⟨rfl,errno,rfl⟩ | ⟨fault,done⟩ | ⟨errno,lost,executed,rfl⟩
    · exact holds
    · rcases movementCutover_spec world oid seq expected fault with
        ⟨stopped,errno,result,refused⟩ | ⟨inode,file,found,_,_,_,_,resolved,result⟩
      · rw [result] at done
        cases done
        exact holds.refused refused
      · rw [result] at done
        cases done
        exact holds.publish inode file found (resolveCutover_ok world oid resolved).2.1
    · rcases movementCutover_spec world oid seq expected .none with
        ⟨stopped,cause,result,refused⟩ | ⟨inode,file,_,_,_,_,_,_,result⟩
      · rw [executed,result]
        exact holds.refused refused
      · exact absurd (congrArg Prod.snd result) (condition oid seq expected errno rfl lost)

end Triples

section Execute

variable (hooks : Hooks) (plan : MovementPlan) (ins : InspectResult)

theorem triple_cutover (source destination : Loc) (drops : CopyOp plan.destTierRank (.remove destination)) :
    Triple machine reported (Spares plan.objectID) (Planned plan.objectID plan.destTierRank)
      (cutover hooks ins plan source destination)
      (Ends (fun _ => Switched plan.objectID plan.destTierRank) (fun _ => True)) := by
  have quiet (op : Op) (steady : op.steady = true) : CleanupOp plan.destTierRank op := .inl (op.quiet_of_steady steady)
  refine triple_seq (triple_orDrop plan destination _ _ (triple_moveCutover _ _ _ _ _)
    (fun _ => stable_reported) (fun cause => triple_fails _ (fails_dropDestination _)
      (triple_planned _ _ _ (uses_dropDestination copyOp_steady _ _ _ _ drops)))) (fun _ => ?_)
  exact (triple_switched plan.objectID plan.destTierRank _ (uses_bind (uses_log (calmed quiet) _)
    fun _ => uses_persist (calmed quiet) _)).onError (fun _ _ => trivial)

theorem triple_move (distinct : plan.sourceLowerDir ≠ plan.destLowerDir) (rooted : plan.destLowerDir = plan.destTierRank) :
    Triple machine reported (Spares plan.objectID) (Before plan.objectID) (move hooks ins plan) (fun _ _ => True) := by
  have drops : CopyOp plan.destTierRank (.remove (joinPath plan.destLowerDir plan.relPath)) :=
    .inr (.inl ⟨_,rfl,rooted⟩)
  have opens : CopyOp plan.destTierRank (.openDestination (joinPath plan.destLowerDir plan.relPath) plan.objectID) :=
    .inr (.inr ⟨_,_,rfl,rooted⟩)
  have removes : CleanupOp plan.destTierRank (.remove (joinPath plan.sourceLowerDir plan.relPath)) :=
    .inr (.inl ⟨_,rfl,by rw [← rooted]; exact distinct⟩)
  have away (program : Act Unit) (uses : Uses (CleanupOp plan.destTierRank) program) :
      Triple machine reported (Spares plan.objectID) (Switched plan.objectID plan.destTierRank) program (fun _ _ => True) :=
    (triple_switched plan.objectID plan.destTierRank program uses).consequence (fun _ => id) (fun _ _ _ => trivial)
  have quiet (op : Op) (steady : op.steady = true) : CleanupOp plan.destTierRank op := .inl (op.quiet_of_steady steady)
  have cleans := away _ (uses_cleanup (calmed quiet) plan removes (.inr (.inr ⟨_,_,rfl⟩)))
  refine triple_seq (triple_before _ _ (uses_persistIntent (calmed Op.quiet_of_steady) plan)) fun _ => ?_
  refine triple_seq (triple_orRollback _ _ _ (triple_plan plan.objectID plan.destTierRank plan.transactionSeq "plan")
    (fun _ => stable_reported) (fun cause => triple_fails _ (fails_rollback _ _ _ _)
      (triple_before _ _ (uses_rollback Op.quiet_of_steady _ _ _ _)))) (fun _ => ?_)
  refine triple_seq (triple_planned _ _ _ (uses_copyAndVerify copyOp_steady _ _ _ _ _ drops opens (fun _ _ => .inl rfl))) fun _ => ?_
  refine triple_seq (triple_cutover hooks plan ins _ _ drops) fun _ => ?_
  split
  · refine triple_handle (triple_switched _ _ _ (uses_repinDestination quiet _)) (fun _ => cleans) (fun error => ?_)
    exact away _ (uses_failAfterSwitch (calmed quiet) _ _)
  · exact cleans

/-- No run of `execute` is about to remove the file that is the object's `lower_path`. -/
theorem execute_spares_lower_path (world : World) (labels : List (Label Outcome Interference))
    (config : Config Op Reply World GoError Unit) (tidy : world.Tidy) (home : Home plan.objectID world)
    (distinct : plan.sourceLowerDir ≠ plan.destLowerDir) (rooted : plan.destLowerDir = plan.destTierRank)
    (guarded : Guarded (step machine) reported.guard ⟨execute hooks plan,world⟩ labels)
    (reached : run (step machine) ⟨execute hooks plan,world⟩ labels = some config) :
    SparesLowerPath plan.objectID config := by
  have executes : Triple machine reported (Spares plan.objectID) (Before plan.objectID) (execute hooks plan)
      (fun _ _ => True) := by
    refine triple_seq (triple_returns _ (returns_preflight plan)
      (triple_before plan.objectID _ (uses_preflight (calmed Op.quiet_of_steady) plan))) (fun value => ?_)
    rintro reached ⟨⟨rel,same⟩,holds⟩
    obtain ⟨ins,resolved⟩ := value
    cases same
    exact triple_move hooks {plan with relPath := rel} ins distinct rooted reached holds
  intro loc next calls inode found
  have holds := wp_run _ (executes world ⟨tidy,home⟩) guarded reached
  rw [calls] at holds
  exact (holds config.world .refl).1 loc rfl inode found

end Execute

def twoTiers : World where
  pool := ⟨2,0,false,false,true,false⟩
  inodes := fun oid => if oid = 7 then some (Namespace.newInode 0 0 ["a"]) else none
  names := fun loc => if loc = ⟨0,["a"]⟩ then some 0 else none
  files := fun _ => ⟨true,[1],⟨0o600,5,[]⟩,some 7,false,7⟩
  nextFile := 1
  rows := fun _ => none
  log := []
  umask := 0o022
  clock := 9
  history := []

def demote : MovementPlan := ⟨7,"ns",["a"],"fast","slow",0,1,0,1,3,false,""⟩

theorem twoTiers_names {loc : Loc} {file : FileId} (found : twoTiers.names loc = some file) :
    loc = ⟨0,["a"]⟩ ∧ file = 0 := by
  simp only [twoTiers] at found
  split at found
  · next same => exact ⟨same,(Option.some.inj found).symm⟩
  · cases found

theorem twoTiers_tidy : twoTiers.Tidy where
  apart := by
    intro first second file one two
    rw [(twoTiers_names one).1,(twoTiers_names two).1]
  fresh := by
    intro loc file found
    rw [(twoTiers_names found).2]
    decide

theorem twoTiers_home : Home 7 twoTiers := by
  intro inode found
  cases (show twoTiers.inodes 7 = some (Namespace.newInode 0 0 ["a"]) from rfl).symm.trans found
  exact ⟨rfl,["a"],rfl⟩

def untilCleanup : List (Label Outcome Interference) :=
  List.replicate 26 (.call .done)

theorem demote_spares_lower_path : ∃ config next,
    run (step machine) ⟨execute ⟨false⟩ demote,twoTiers⟩ untilCleanup = some config ∧
      config.program = .call (.remove ⟨0,["a"]⟩) next ∧ SparesLowerPath 7 config := by
  refine ⟨_,_,rfl,rfl,?_⟩
  refine execute_spares_lower_path ⟨false⟩ demote twoTiers untilCleanup _ twoTiers_tidy twoTiers_home
    (by decide) rfl (guarded_of_labels _ _ _ ?_) rfl
  rintro label member ⟨program,world⟩
  cases List.eq_of_mem_replicate member
  cases program with
  | call op next =>
    intro oid seq expected errno _ lost
    cases lost
  | done value => trivial
  | fail error => trivial

def lostCutover : List (Label Outcome Interference) :=
  List.replicate 23 (.call .done) ++ [.call (.lost .eio)]

theorem lost_cutover_removes_lower_path : twoTiers.Tidy ∧ Home 7 twoTiers ∧ ∃ config,
    run (step machine) ⟨execute ⟨false⟩ demote,twoTiers⟩ lostCutover = some config ∧ ¬ SparesLowerPath 7 config := by
  refine ⟨twoTiers_tidy,twoTiers_home,_,rfl,fun spares => ?_⟩
  exact spares ⟨1,["a"]⟩ _ rfl _ rfl rfl

end Smoothfs.WorkerRemoval
