import Smoothfs.WorkerRemoval

/-! Which file a successful `Worker.execute` copied, published and removed, while
users and other workers keep going. -/
namespace Smoothfs.WorkerSource

open Program Control Movement Worker Run Namespace

/-- One file was copied, it was `lower_path` when the cutover replaced it, and
nothing else was removed. -/
def RightFile (history : List Event) : Prop :=
  ∃ file time new before after, history = [.copied file time,.switched file new before after] ∨
    ∃ loc, history = [.copied file time,.switched file new before after,.removed loc file]

def sourceOf (world : World) (plan : MovementPlan) : Loc :=
  joinPath plan.sourceLowerDir (effectivePath world plan)

def destinationOf (world : World) (plan : MovementPlan) : Loc :=
  joinPath plan.destLowerDir (effectivePath world plan)

/-- The inode is at the path, the file is its `lower_path`, and the tier it is
meant to go to is one of `aims`. -/
structure At (source : Loc) (file : FileId) (aims : Nat → Prop) (inode : Inode) : Prop where
  mnt : inode.lowerPath.mnt = source.dir
  path : inode.relPath = some source.rel
  lower : inode.lowerPath.file = file
  aim : aims inode.intendedTier

def Agrees (world : World) (plan : MovementPlan) : Prop :=
  ∃ inode, world.inodes plan.objectID = some inode ∧ At (sourceOf world plan) inode.lowerPath.file (fun _ => True) inode ∧
    world.names (sourceOf world plan) = some inode.lowerPath.file

/-- While `execute` runs nobody else renames or removes the source, and nobody
else sends movement commands for the object. -/
def undisturbed (source : Loc) (oid : Oid) : Rely Op World Outcome Interference where
  outcome := fun _ _ _ => True
  action := fun world => fun
    | .user action => source ∉ takes world action
    | .foreign op _ => op ≠ .remove source ∧ op.moves oid = false

section Tracking

variable {source : Loc} {oid : Oid} {seq : Nat} {file : FileId} {aims : Nat → Prop} {world after : World}

/-- Since the INSPECT that returned `seq` the object stayed at its path, or
`write_seq` counts that it did not. -/
structure Tracked (source : Loc) (oid : Oid) (seq : Nat) (file : FileId) (aims : Nat → Prop) (world : World) : Prop where
  named : world.names source = some file
  since : ∃ inode, world.inodes oid = some inode ∧ seq ≤ inode.writeSeq ∧ (At source file aims inode ∨ seq < inode.writeSeq)

variable (holds : Tracked source oid seq file aims world)
include holds

theorem Tracked.acted (action : Action) (apart : source ∉ takes world action) (acted : act world action = some after) :
    Tracked source oid seq file aims after := by
  refine ⟨act_names world after action acted apart holds.named,?_⟩
  obtain ⟨inode,found,counted,since⟩ := holds.since
  obtain ⟨next,present,evolves⟩ := act_evolves world after action acted found
  refine ⟨next,present,Nat.le_trans counted evolves.counted,?_⟩
  rcases since with here | later
  · rcases evolves.stays with ⟨mnt,lower,path,aim⟩ | later | ⟨rel,path,taken⟩
    · exact .inl ⟨mnt.trans here.mnt,path.trans here.path,lower.trans here.lower,aim ▸ here.aim⟩
    · exact .inr (Nat.lt_of_le_of_lt counted later)
    · rw [here.path] at path
      cases path
      rw [here.mnt] at taken
      exact absurd taken apart
  · exact .inr (Nat.lt_of_lt_of_le later evolves.counted)

theorem Tracked.performed {op : Op} {outcome : Outcome} {reply : Reply op}
    (kept : op ≠ .remove source) (other : op.moves oid = false)
    (performed : perform world op outcome = some (after,reply)) : Tracked source oid seq file aims after := by
  obtain ⟨inode,found,since⟩ := holds.since
  exact ⟨perform_names performed kept holds.named,
    inode,perform_inodes performed other found,since⟩

theorem Tracked.interfered
    (interferes : Interferes machine (undisturbed source oid) world after) : Tracked source oid seq file aims after := by
  obtain ⟨action,allowed,interfered⟩ := interferes
  cases action with
  | user action => exact holds.acted action allowed interfered
  | foreign op outcome =>
    obtain ⟨⟨next,reply⟩,performed,rfl⟩ := Option.map_eq_some_iff.mp interfered
    have kept := holds.performed allowed.1 allowed.2 performed
    exact ⟨kept.named,kept.since⟩

omit holds

theorem robust_tracked : Robust (undisturbed source oid) (Tracked source oid seq file aims) where
  stable := fun _ _ interferes holds => holds.interfered interferes
  steady := fun _ op _ _ _ steady holds performed =>
    holds.performed (op.ne_remove_of_steady steady source) (op.moves_of_steady steady oid) performed

theorem robust_named : Robust (undisturbed source oid) (fun world => world.names source = some file) where
  stable := by
    rintro world next ⟨action,allowed,interfered⟩ named
    cases action with
    | user action => exact act_names world next action interfered allowed named
    | foreign op outcome =>
      obtain ⟨⟨next,reply⟩,performed,rfl⟩ := Option.map_eq_some_iff.mp interfered
      exact perform_names performed allowed.1 named
  steady := fun world op outcome after reply steady named performed =>
    perform_names performed (op.ne_remove_of_steady steady source) named

theorem Tracked.movePlan (holds : Tracked source oid seq file aims world) (destTier txn : Nat)
    (planned : movementPlan world oid destTier txn false = (after,.ok ())) :
    Tracked source oid seq file (· = destTier) after ∧ after.history = world.history := by
  rcases movementPlan_spec world oid destTier txn false with ⟨_,refused⟩ | ⟨inode,found,_,_,_,_,result⟩
  · rw [refused] at planned
    cases planned
  rw [result] at planned
  cases planned
  obtain ⟨known,present,counted,since⟩ := holds.since
  cases found.symm.trans present
  refine ⟨⟨holds.named,_,Function.update_self ..,counted,?_⟩,rfl⟩
  exact since.imp_left (fun here => ⟨here.mnt,here.path,here.lower,rfl⟩)

theorem Tracked.cutover (holds : Tracked source oid seq file aims world) (txn : Nat)
    (cut : movementCutover world oid txn (some seq) .none = (after,.ok ())) :
    ∃ inode new, At source file aims inode ∧ world.names (cutoverDest inode) = some new ∧
      after = publish world oid inode new := by
  rcases movementCutover_spec world oid txn (some seq) .none with ⟨_,_,refused,_⟩ | ⟨inode,new,found,_,_,_,_,resolved,result⟩
  · rw [refused] at cut
    cases cut
  rw [result] at cut
  cases cut
  obtain ⟨known,present,_,since⟩ := holds.since
  cases found.symm.trans present
  obtain ⟨unchanged,named,_⟩ := resolveCutover_ok world oid resolved
  have same := unchanged seq rfl
  rcases since with here | later
  · exact ⟨inode,new,here,named,rfl⟩
  · omega

theorem openSource_reads (named : world.names source = some file) {outcome : Outcome} {src : FileId}
    (performed : perform world (.openSource source) outcome = some (after,.ok src)) : src = file ∧ after = world := by
  have executed := perform_ok (.openSource source) outcome src (by nofun) performed
  simp only [execOp,openLoc,named] at executed
  split at executed
  · cases executed
    exact ⟨rfl,rfl⟩
  · cases executed

theorem complete_record {txn : Nat} {outcome : Outcome} {reply : Reply (.moveComplete oid txn)}
    (performed : perform world (.moveComplete oid txn) outcome = some (after,reply)) : after.history = world.history := by
  have executed : (movementComplete world oid txn).1.history = world.history := by
    rw [movementComplete]
    rcases settle_spec world oid txn (· = .switched) with same | ⟨inode,_,_,_,result⟩
    · rw [same]
    · simp only [result,World.setInode]
  rcases perform_moveComplete oid txn performed with ⟨rfl,_⟩ | done | ⟨rfl,_⟩
  · rfl
  · rw [← executed,← done]
  · exact executed

theorem open_record {object : Oid} {loc : Loc} {outcome : Outcome} {reply : Reply (.openDestination loc object)}
    (performed : perform world (.openDestination loc object) outcome = some (after,reply)) :
    after.history = world.history := by
  rcases perform_openDestination loc performed with ⟨rfl,_⟩ | opened
  · rfl
  unfold openDestination at opened
  split at opened
  · cases opened
    rfl
  · dsimp only at opened
    split at opened <;> cases opened <;> rfl

end Tracking

section Move

variable {rely : Rely Op World Outcome Interference} {plan : MovementPlan} {source dest : Loc} {file : FileId}
  {vacant : World → Prop} {made : FileId → Nat → World → Prop} {fits : Nat → Attrs → Prop}

/-- The destination of a move: `vacant` until it is opened, `made` at a time from then on, and
published with attributes that fit the time. -/
structure Lands (rely : Rely Op World Outcome Interference) (plan : MovementPlan) (source dest : Loc) (vacant : World → Prop)
    (made : FileId → Nat → World → Prop) (fits : Nat → Attrs → Prop) : Prop where
  waits : Robust rely vacant
  stays : ∀ dst time, Robust rely (made dst time)
  planned : ∀ world after, vacant world →
    movementPlan world plan.objectID plan.destTierRank plan.transactionSeq false = (after,.ok ()) → vacant after
  opened : ∀ world outcome after dst, vacant world →
    perform world (.openDestination dest plan.objectID) outcome = some (after,.ok dst) → ∃ time, made dst time after
  copied : ∀ world src dst time count, made dst time world → ∃ later, made dst later (ioCopy world src dst count).1 ∧
    (ioCopy world src dst count).1.history = world.history ++ [.copied src later]
  published : ∀ world inode file dst time new, made dst time world → At source file (· = plan.destTierRank) inode →
    world.names (cutoverDest inode) = some new → fits time (world.files new).attrs

/-- A file was copied, replaced by one that fits the time of the copy, and removed if anything was. -/
def Traced (fits : Nat → Attrs → Prop) (history : List Event) : Prop :=
  ∃ file time new before after, fits time after ∧ (history = [.copied file time,.switched file new before after] ∨
    ∃ loc, history = [.copied file time,.switched file new before after,.removed loc file])

theorem succeeds_traced {hooks : Hooks} {ins : InspectResult} (sends : ins.hasWriteSeq = true)
    (tracks : ∀ aims, Robust rely (Tracked (joinPath plan.sourceLowerDir plan.relPath) plan.objectID ins.writeSeq file aims))
    (names : Robust rely (fun world => world.names (joinPath plan.sourceLowerDir plan.relPath) = some file))
    (lands : Lands rely plan (joinPath plan.sourceLowerDir plan.relPath) (joinPath plan.destLowerDir plan.relPath) vacant made fits) :
    Succeeds rely
      (fun world => (Tracked (joinPath plan.sourceLowerDir plan.relPath) plan.objectID ins.writeSeq file (fun _ => True) world ∧
        vacant world) ∧ world.history = [])
      (move hooks ins plan) (fun _ world => Traced fits world.history) := by
  let source := joinPath plan.sourceLowerDir plan.relPath
  let tracked := Tracked source plan.objectID ins.writeSeq file (· = plan.destTierRank)
  let copied (world : World) : Prop := ∃ time dst, made dst time world ∧ world.history = [.copied file time]
  let switched (history : List Event) : Prop :=
    ∃ time new before after, fits time after ∧ history = [.copied file time,.switched file new before after]
  have quiet := robust_record rely (· = [])
  have plans : Robust rely (fun world => (tracked world ∧ vacant world) ∧ world.history = []) :=
    ((tracks _).and lands.waits).and quiet
  have reads (src : FileId) : Robust rely (fun world => src = file ∧ (tracked world ∧ vacant world) ∧ world.history = []) :=
    (robust_pure rely (src = file)).and plans
  have opens (src dst : FileId) :
      Robust rely (fun world => src = file ∧ (tracked world ∧ ∃ time, made dst time world) ∧ world.history = []) :=
    (robust_pure rely (src = file)).and (((tracks _).and (.exists (lands.stays dst))).and quiet)
  have copies : Robust rely (fun world => tracked world ∧ copied world) :=
    (tracks _).and (.exists fun time => .exists fun dst =>
      (lands.stays dst time).and (robust_record rely (· = [.copied file time])))
  refine succeeds_move hooks (((tracks _).and lands.waits).and quiet) plans copies
    (names.and (robust_record rely switched)) (robust_record rely (Traced fits)) ?_ ?_ ?_ ?_ ?_
  · rintro world outcome after value ⟨⟨holds,waits⟩,empty⟩ performed
    have planned := perform_ok _ outcome value (by nofun) performed
    obtain ⟨kept,same⟩ := holds.movePlan _ _ planned
    exact ⟨⟨kept,lands.planned world after waits planned⟩,same.trans empty⟩
  · refine succeeds_copy plans reads (fun src dst => (opens src dst).stable) copies ?_ ?_ ?_
    · rintro world outcome after src holds performed
      obtain ⟨same,rfl⟩ := openSource_reads holds.1.1.named performed
      exact ⟨same,holds⟩
    · rintro src world outcome after dst ⟨same,⟨holds,waits⟩,empty⟩ performed
      exact ⟨same,⟨holds.performed (by nofun) rfl performed,lands.opened world outcome after dst waits performed⟩,
        (open_record performed).trans empty⟩
    · rintro src dst world outcome after bytes ⟨rfl,⟨holds,time,stands⟩,empty⟩ performed
      refine ⟨holds.performed (by nofun) rfl performed,?_⟩
      rcases perform_ioCopy performed with ⟨_,_,failed⟩ | ⟨count,rfl,_⟩
      · cases failed
      · obtain ⟨later,kept,grown⟩ := lands.copied world src dst time count stands
        exact ⟨later,dst,kept,by rw [grown,empty]; rfl⟩
  · rintro world outcome after value ⟨holds,time,dst,stands,record⟩ performed
    have executed := perform_ok _ outcome value (by nofun) performed
    simp only [execOp,if_pos sends] at executed
    obtain ⟨inode,new,here,named,rfl⟩ := holds.cutover _ executed
    refine ⟨holds.named,time,new,(world.files inode.lowerPath.file).attrs,(world.files new).attrs,
      lands.published world inode file dst time new stands here named,?_⟩
    simp only [publish,World.record,stamp,World.setFile,record,here.lower]
    rfl
  · rintro world outcome after reply ⟨named,time,new,old,fresh,right,record⟩ performed
    rcases perform_remove after _ outcome performed with rfl | ⟨gone,found,rfl⟩
    · exact ⟨file,time,new,old,fresh,right,.inl record⟩
    · cases named.symm.trans found
      exact ⟨file,time,new,old,fresh,right,.inr ⟨source,congrArg (· ++ [_]) record⟩⟩
  · intro world outcome after reply holds performed
    rw [complete_record performed]
    exact holds

theorem execute_traced {hooks : Hooks} {world : World} {outcome : Outcome} {labels : List (Label Outcome Interference)}
    {config : Config Op Reply World GoError Unit} (agrees : Agrees world plan) (quiet : world.history = [])
    (tracks : ∀ seq file aims, Robust rely (Tracked (sourceOf world plan) plan.objectID seq file aims))
    (names : ∀ file, Robust rely (fun later => later.names (sourceOf world plan) = some file))
    (lands : Lands rely plan (sourceOf world plan) (destinationOf world plan) vacant made fits) (begins : vacant world)
    (guarded : Guarded (step machine) rely.guard ⟨execute hooks plan,world⟩ (.call outcome::labels))
    (reached : run (step machine) ⟨execute hooks plan,world⟩ (.call outcome::labels) = some config)
    (returned : config.program = .done ()) : Traced fits config.world.history := by
  obtain ⟨inode,found,here,named⟩ := agrees
  have shown {ins : InspectResult} (inspected : Movement.inspect world plan.objectID = .ok ins) :
      ins.hasWriteSeq = true ∧ ins.writeSeq ≤ inode.writeSeq := by
    rw [Movement.inspect,found] at inspected
    cases inspected
    exact ⟨rfl,Nat.le_refl _⟩
  refine execute_returns (fun ins later => (Tracked (sourceOf world plan) plan.objectID ins.writeSeq inode.lowerPath.file
    (fun _ => True) later ∧ vacant later) ∧ later.history = []) (fun later => Traced fits later.history) hooks plan world outcome
    labels config (fun ins => ((tracks _ _ _).and lands.waits).and (robust_record _ (· = []))) (fun ins inspected => ?_)
    (fun ins inspected => ?_) guarded reached returned
  · exact ⟨⟨⟨named,inode,found,(shown inspected).2,.inl here⟩,begins⟩,quiet⟩
  · simp only [sourceOf,destinationOf,effectivePath_inspect inspected] at tracks names lands ⊢
    exact @succeeds_traced rely {plan with relPath := chosenPath plan ins} inode.lowerPath.file vacant made fits hooks ins
      (shown inspected).1 (tracks _ _) (names _) ⟨lands.waits,lands.stays,lands.planned,lands.opened,lands.copied,lands.published⟩

end Move

/-- When nobody disturbs the source or the movement, a move that returns nil copied, replaced and
removed one file. -/
theorem execute_moves_right_file (hooks : Hooks) (plan : MovementPlan) (world : World) (outcome : Outcome)
    (labels : List (Label Outcome Interference)) (config : Config Op Reply World GoError Unit) (agrees : Agrees world plan)
    (quiet : world.history = [])
    (guarded : Guarded (step machine) (undisturbed (sourceOf world plan) plan.objectID).guard ⟨execute hooks plan,world⟩
      (.call outcome::labels))
    (reached : run (step machine) ⟨execute hooks plan,world⟩ (.call outcome::labels) = some config)
    (returned : config.program = .done ()) : RightFile config.world.history := by
  have lands : Lands (undisturbed (sourceOf world plan) plan.objectID) plan (sourceOf world plan) (destinationOf world plan)
      (fun _ => True) (fun _ _ _ => True) (fun _ _ => True) :=
    ⟨robust_pure _ True,fun _ _ => robust_pure _ True,fun _ _ _ _ => trivial,fun _ _ _ _ _ _ => ⟨0,trivial⟩,
      fun _ _ _ _ _ _ => ⟨_,trivial,rfl⟩,fun _ _ _ _ _ _ _ _ _ => trivial⟩
  obtain ⟨file,time,new,before,after,_,record⟩ := execute_traced agrees quiet (fun _ _ _ => robust_tracked) (fun _ => robust_named)
    lands trivial guarded reached returned
  exact ⟨file,time,new,before,after,record⟩

def threeTiers : World :=
  {WorkerRemoval.twoTiers with
    pool := ⟨3,0,false,false,true,false⟩
    inodes := fun oid => if oid = 7 then some (newInode 2 0 ["a"]) else none
    names := fun loc => if loc = ⟨2,["a"]⟩ then some 0 else none}

def promote : MovementPlan := ⟨7,"ns",["a"],"slow","warm",2,1,2,1,3,false,""⟩

theorem promote_agrees : Agrees threeTiers promote :=
  ⟨_,rfl,⟨rfl,rfl,rfl,trivial⟩,rfl⟩

theorem promote_moves_right_file : ∃ config,
    run (step machine) ⟨execute ⟨false⟩ promote,threeTiers⟩ (.call .done::List.replicate 30 (.call .done)) = some config ∧
      config.program = .done () ∧ RightFile config.world.history := by
  refine ⟨_,rfl,rfl,?_⟩
  refine execute_moves_right_file ⟨false⟩ promote threeTiers .done (List.replicate 30 (.call .done)) _ promote_agrees rfl
    (guarded_of_labels _ _ _ ?_) rfl rfl
  rintro label member ⟨program,world⟩
  cases List.eq_of_mem_replicate (show label ∈ List.replicate 31 (.call .done) from member)
  cases program <;> trivial

/-- A truncate rehomed the object to tier 0 after the plan. The move publishes the stale copy of
tier 2 and returns nil. -/
theorem rehomed_object_moves_stale_file : Agrees threeTiers promote ∧ ∃ config,
    run (step machine) ⟨execute ⟨false⟩ promote,threeTiers⟩
      (.env (.user (.truncate 7))::List.replicate 31 (.call .done)) = some config ∧
      config.program = .done () ∧ ¬ RightFile config.world.history := by
  refine ⟨promote_agrees,_,rfl,rfl,?_⟩
  rintro ⟨file,time,new,old,fresh,same | ⟨loc,same⟩⟩
  · exact absurd (show 3 = 2 from congrArg List.length same) (by decide)
  have copied : Event.copied 0 9 = .copied file time := Option.some.inj (congrArg (·[0]?) same)
  have switched : Event.switched 1 2 ⟨0o600,9,[]⟩ ⟨0o644,9,[]⟩ = .switched file new old fresh :=
    Option.some.inj (congrArg (·[1]?) same)
  cases copied
  cases switched

end Smoothfs.WorkerSource
