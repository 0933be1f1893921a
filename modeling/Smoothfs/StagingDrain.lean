import Mathlib.Tactic.Ring
import Smoothfs.Coherence
import Smoothfs.Library.Run

/-! The write-staging drain of rehomed files, against users and the control
plane. A drain reads the tier and the path of a staged inode, unlinks what stands
there without the inode lock, and then clears the inode's staging state. -/
namespace Smoothfs.StagingDrain

open Movement Namespace Control Coherence Run

/-- One call of `smoothfs_write_staging_drain_one_rehome` past its first critical section. -/
structure Drain where
  oid : Oid
  tier : Nat
  rel : RelPath
  unlinked : Bool
  deriving DecidableEq, Repr

/-- An inode of `world` has the path of its dentry. `stale` has the `rel_path` of those that are
below a directory that has been renamed since it was recorded. -/
structure State where
  world : World
  activeTierMask : Nat
  drains : List Drain
  stale : Oid → Option RelPath

inductive Label
  | user (action : Action)
  | renameDir (old new : RelPath)
  | control (op : Op) (outcome : Outcome)
  | storeMask (mask : Nat)
  | begin (oid : Oid)
  | unlink (index : Nat)
  | fail (index : Nat)
  | finish (index : Nat)
  deriving DecidableEq, Repr

def drainTierActive (pool : Pool) (mask tier : Nat) : Bool :=
  tier < pool.ntiers ∧ (tier = pool.fastestTier ∨ mask.testBit tier)

def storedMask (pool : Pool) (mask : Nat) : Nat :=
  let masked := (mask &&& (2 ^ pool.ntiers - 1)) ||| 2 ^ pool.fastestTier
  if pool.cacheMode then masked ||| 2 ^ (pool.ntiers - 1) else masked

def beginDrain (state : State) (oid : Oid) : Option State :=
  (state.world.inodes oid).bind fun inode =>
    if inode.writeStaged ∧ drainTierActive state.world.pool state.activeTierMask inode.writeStagedDrainTier then
      ((state.stale oid).or inode.relPath).map fun rel =>
        {state with drains := state.drains ++ [⟨oid,inode.writeStagedDrainTier,rel,false⟩]}
    else none

/-- `smoothfs_unlink_rel_path_on_tier`: the file it unlinks, if any, or the error. -/
def unlinkTarget (world : World) (tier : Nat) (rel : RelPath) : Except Errno (Option FileId) :=
  if rel = [] then .error .einval
  else
    match world.names ⟨tier,rel⟩ with
    | none => .ok none
    | some file => if (world.files file).regular then .ok (some file) else .error .eisdir

def drop (state : State) (index : Nat) : State :=
  {state with drains := state.drains.eraseIdx index}

def unlinkStep (state : State) (index : Nat) (drain : Drain) : State :=
  match unlinkTarget state.world drain.tier drain.rel with
  | .error _ => drop state index
  | .ok none => {state with drains := state.drains.set index {drain with unlinked := true}}
  | .ok (some _) =>
    {state with world := state.world.setName ⟨drain.tier,drain.rel⟩ none,
                drains := state.drains.set index {drain with unlinked := true}}

def clearStaging (world : World) (oid : Oid) (tier : Nat) : World :=
  match world.inodes oid with
  | none => world
  | some inode =>
    if inode.writeStaged ∧ inode.writeStagedDrainTier = tier then
      world.setInode oid {inode with writeStaged := false, writeStagedDrainTier := maxTiers}
    else world

/-- The actions that set or clear the `rel_path` of an object's inode. -/
def records (world : World) (oid : Oid) : Action → Bool
  | .create other _ _ _ | .unlink other => other = oid
  | .truncate other => other = oid ∧ (world.inodes oid).any fun inode => ¬ world.pool.cacheMode ∧ shouldStageTruncate world inode
  | .rename other _ replaced => other = oid ∨ replaced = some oid ∧
      (world.inodes other).map (·.lowerPath.mnt) ≠ (world.inodes oid).map (·.lowerPath.mnt)
  | _ => false

def rebase (old new rel : RelPath) : RelPath :=
  if old <+: rel then new ++ rel.drop old.length else rel

/-- The directory is renamed on every tier, to where none has a file. Its dentries follow, but only
its own inode's `rel_path` is set anew. -/
def renameDir (state : State) (old new : RelPath) : State where
  world := {state.world with
    names := fun loc =>
      if new <+: loc.rel then state.world.names ⟨loc.dir,old ++ loc.rel.drop new.length⟩
      else if old <+: loc.rel then none else state.world.names loc
    inodes := fun oid => (state.world.inodes oid).map fun inode => {inode with relPath := inode.relPath.map (rebase old new)}}
  activeTierMask := state.activeTierMask
  drains := state.drains
  stale := fun oid => (state.world.inodes oid).bind fun inode =>
    if inode.relPath.any (old <+: ·) then (state.stale oid).or inode.relPath else state.stale oid

def setPath (world : World) (oid : Oid) (path : Option RelPath) : World :=
  match world.inodes oid with
  | some inode => world.setInode oid {inode with relPath := path}
  | none => world

/-- Of the operations on the pool only the cutover goes by the recorded path. -/
def controlStep (state : State) (op : Op) (outcome : Outcome) : Option World :=
  match op with
  | .moveCutover oid seq expected =>
    match state.stale oid with
    | some rel =>
      (perform (setPath state.world oid (some rel)) (.moveCutover oid seq expected) outcome).map fun result =>
        setPath result.1 oid ((state.world.inodes oid).bind (·.relPath))
    | none => (perform state.world (.moveCutover oid seq expected) outcome).map Prod.fst
  | op => (perform state.world op outcome).map Prod.fst

def step (state : State) : Label → Option State
  | .user action => (act state.world action).map fun world =>
    {state with world := world, stale := fun oid => if records state.world oid action then none else state.stale oid}
  | .renameDir old new => if old <+: new ∨ new <+: old then none else some (renameDir state old new)
  | .control op outcome => (controlStep state op outcome).map fun world => {state with world := world}
  | .storeMask mask => some {state with activeTierMask := storedMask state.world.pool mask}
  | .begin oid => beginDrain state oid
  | .unlink index =>
    match state.drains[index]? with
    | some drain => if drain.unlinked then none else some (unlinkStep state index drain)
    | none => none
  | .fail index =>
    match state.drains[index]? with
    | some drain => if drain.unlinked then none else some (drop state index)
    | none => none
  | .finish index =>
    match state.drains[index]? with
    | some drain =>
      if drain.unlinked then some (drop {state with world := clearStaging state.world drain.oid drain.tier} index)
      else none
    | none => none

variable {state next : State} {index : Nat}

theorem step_unlink (taken : step state (.unlink index) = some next) :
    ∃ drain, state.drains[index]? = some drain ∧ drain.unlinked = false ∧ next = unlinkStep state index drain := by
  simp only [step] at taken
  split at taken
  · next drain present =>
    split at taken
    · cases taken
    · next waiting =>
      cases taken
      exact ⟨drain,present,Bool.eq_false_iff.mpr waiting,rfl⟩
  · cases taken

theorem step_fail (taken : step state (.fail index) = some next) : next = drop state index := by
  simp only [step] at taken
  split at taken
  · split at taken <;> cases taken
    rfl
  · cases taken

theorem step_finish (taken : step state (.finish index) = some next) :
    ∃ drain : Drain, next = drop {state with world := clearStaging state.world drain.oid drain.tier} index := by
  simp only [step] at taken
  split at taken
  · next drain present =>
    split at taken <;> cases taken
    exact ⟨drain,rfl⟩
  · cases taken

theorem controlStep_names {op : Op} {outcome : Outcome} {world : World} (taken : controlStep state op outcome = some world) :
    ∃ before after, ∃ reply : Reply op, before.names = state.world.names ∧ perform before op outcome = some (after,reply) ∧
      world.names = after.names := by
  have named (world : World) (oid : Oid) (path : Option RelPath) : (setPath world oid path).names = world.names := by
    unfold setPath
    split <;> rfl
  unfold controlStep at taken
  split at taken
  · split at taken
    · obtain ⟨⟨after,reply⟩,performed,rfl⟩ := Option.map_eq_some_iff.mp taken
      exact ⟨_,after,reply,named _ _ _,performed,named _ _ _⟩
    · obtain ⟨⟨after,reply⟩,performed,rfl⟩ := Option.map_eq_some_iff.mp taken
      exact ⟨_,after,reply,rfl,performed,rfl⟩
  · obtain ⟨⟨after,reply⟩,performed,rfl⟩ := Option.map_eq_some_iff.mp taken
    exact ⟨_,after,reply,rfl,performed,rfl⟩

def emptyPool (pool : Pool) (umask clock : Nat) : State where
  world := ⟨pool,fun _ => none,fun _ => none,fun _ => ⟨true,[],⟨0,0,[]⟩,none,false,0⟩,0,fun _ => none,[],umask,clock,[]⟩
  activeTierMask := if pool.cacheMode then 2 ^ pool.ntiers - 1 else 2 ^ pool.fastestTier
  drains := []
  stale := fun _ => none

def StaleCopy (world : World) (oid : Oid) (file : FileId) : Prop :=
  (∀ inode, world.inodes oid = some inode → inode.lowerPath.file ≠ file) ∧ (world.files file).object = oid

/-- Whatever a drain in flight is about to unlink is a stale copy of its object. -/
def DrainsStale (state : State) : Prop :=
  ∀ drain ∈ state.drains, drain.unlinked = false → ∀ file,
    unlinkTarget state.world drain.tier drain.rel = .ok (some file) → StaleCopy state.world drain.oid file

def keepsOffDrained (state : State) (oid : Oid) : Prop :=
  ∀ inode, state.world.inodes oid = some inode →
    (inode.writeStaged = true → inode.writeStagedDrainTier ≠ inode.intendedTier) ∧
    ∀ drain ∈ state.drains, drain.oid = oid → drain.unlinked = false → drain.tier ≠ inode.intendedTier

def Allowed (state : State) : Label → Prop
  | .user action => Clear state.world action ∧
      ∀ drain ∈ state.drains, drain.unlinked = false → displaces drain.oid action = false
  | .renameDir old new => (∀ loc, new <+: loc.rel → state.world.names loc = none) ∧
      ∀ drain ∈ state.drains, drain.unlinked = false → ¬ old <+: drain.rel
  | .control op _ => Proper state.world op ∧ ∀ oid seq expected, op = .moveCutover oid seq expected →
      keepsOffDrained state oid ∧ state.stale oid = none
  | .begin oid => state.stale oid = none ∧ ∀ inode, state.world.inodes oid = some inode → inode.linked = true
  | _ => True

def Apart (pool : Pool) (inode : Inode) : Prop :=
  inode.writeStaged = true → inode.writeStagedDrainTier ≠ inode.lowerPath.mnt ∧ inode.writeStagedDrainTier ≠ pool.fastestTier

def Ahead (world : World) (drain : Drain) : Prop :=
  drain.tier ≠ world.pool.fastestTier ∧ ∃ inode, world.inodes drain.oid = some inode ∧ inode.linked = true ∧
    inode.relPath = some drain.rel ∧ inode.lowerPath.mnt ≠ drain.tier

structure Sound (state : State) : Prop where
  coherent : Coherent state.world
  apart : ∀ oid inode, state.world.inodes oid = some inode → Apart state.world.pool inode
  ahead : ∀ drain ∈ state.drains, drain.unlinked = false → Ahead state.world drain

theorem Sound.drainsStale (sound : Sound state) : DrainsStale state := by
  intro drain member waiting file target
  obtain ⟨_,inode,found,linked,path,elsewhere⟩ := sound.ahead drain member waiting
  have named : state.world.names ⟨drain.tier,drain.rel⟩ = some file := by
    unfold unlinkTarget at target
    split at target
    · cases target
    split at target
    · cases target
    split at target
    · cases target
      assumption
    · cases target
  obtain ⟨unused,object⟩ := sound.coherent.copy (sound.coherent.at found linked path) drain.tier file found (Ne.symm elsewhere) named
  exact ⟨unused drain.oid,object⟩

section Rebase

variable {old new one two : RelPath} {world : World}

theorem rebase_below (old new rest : RelPath) : rebase old new (old ++ rest) = new ++ rest := by
  simp [rebase]

theorem rebase_other (outside : ¬ old <+: one) : rebase old new one = one := if_neg outside

theorem rebase_inj (first : ¬ new <+: one) (second : ¬ new <+: two) (same : rebase old new one = rebase old new two) : one = two := by
  by_cases left : old <+: one <;> by_cases right : old <+: two
  · obtain ⟨rest,rfl⟩ := left
    obtain ⟨other,rfl⟩ := right
    rw [rebase_below,rebase_below,List.append_cancel_left_eq] at same
    rw [same]
  · obtain ⟨rest,rfl⟩ := left
    rw [rebase_below,rebase_other right] at same
    exact absurd ⟨rest,same⟩ second
  · obtain ⟨rest,rfl⟩ := right
    rw [rebase_below,rebase_other left] at same
    exact absurd ⟨rest,same.symm⟩ first
  · rwa [rebase_other left,rebase_other right] at same

variable (vacant : ∀ loc, new <+: loc.rel → state.world.names loc = none)
include vacant

theorem renameDir_names {tier : Nat} {file : FileId} (named : state.world.names ⟨tier,one⟩ = some file) :
    (renameDir state old new).world.names ⟨tier,rebase old new one⟩ = some file := by
  have outside : ¬ new <+: one := fun below => by simp [vacant ⟨tier,one⟩ below] at named
  by_cases below : old <+: one
  · obtain ⟨rest,rfl⟩ := below
    rw [rebase_below]
    simpa [renameDir] using named
  · rw [rebase_other below]
    simpa [renameDir,outside,below] using named

omit vacant in
theorem renameDir_named {loc : Loc} {file : FileId} (named : (renameDir state old new).world.names loc = some file) :
    ∃ rel, state.world.names ⟨loc.dir,rel⟩ = some file ∧ rebase old new rel = loc.rel := by
  obtain ⟨tier,rel⟩ := loc
  simp only [renameDir] at named
  split at named
  next below =>
    obtain ⟨rest,rfl⟩ := below
    refine ⟨old ++ rest,?_,rebase_below old new rest⟩
    simpa using named
  next =>
  split at named
  · cases named
  next outside => exact ⟨rel,named,rebase_other outside⟩

theorem Coherent.renameDir (coherent : Coherent state.world) (old : RelPath) : Coherent (renameDir state old new).world := by
  have inode (oid : Oid) (later : Inode) (found : (StagingDrain.renameDir state old new).world.inodes oid = some later) :
      ∃ before, state.world.inodes oid = some before ∧ later = {before with relPath := before.relPath.map (rebase old new)} := by
    obtain ⟨before,known,rfl⟩ := Option.map_eq_some_iff.mp found
    exact ⟨before,known,rfl⟩
  have outside (tier : Nat) (rel : RelPath) (file : FileId) (named : state.world.names ⟨tier,rel⟩ = some file) : ¬ new <+: rel :=
    fun below => by simp [vacant ⟨tier,rel⟩ below] at named
  refine ⟨⟨fun loc file named => ?_,fun oid later found => ?_⟩,fun first second file one two => ?_,fun oid later found => ?_⟩
  · obtain ⟨rel,before,_⟩ := renameDir_named named
    exact coherent.bounded.names _ file before
  · obtain ⟨before,known,rfl⟩ := inode oid later found
    exact coherent.bounded.lower oid before known
  · obtain ⟨left,before,path⟩ := renameDir_named one
    obtain ⟨right,also,same⟩ := renameDir_named two
    obtain ⟨dir,rel⟩ := Loc.mk.inj (coherent.single _ _ file before also)
    rw [rel,same] at path
    obtain ⟨tier,above⟩ := first
    cases dir
    cases path
    rfl
  · obtain ⟨before,known,rfl⟩ := inode oid later found
    have settled := coherent.settled oid before known
    constructor
    · intro linked
      obtain ⟨rel,here⟩ := settled.linked linked
      refine ⟨rebase old new rel,by simp [here.path],renameDir_names vacant here.named,here.tier,fun tier file named => ?_⟩
      obtain ⟨other,stood,same⟩ := renameDir_named named
      cases rebase_inj (outside _ _ _ stood) (outside _ _ _ here.named) same
      exact here.owned tier file stood
    · intro unlinked loc named
      obtain ⟨rel,stood,_⟩ := renameDir_named named
      exact settled.unlinked unlinked _ stood

end Rebase

theorem Apart.kept {pool : Pool} {displaced : Bool} {before later : Inode} (apart : Apart pool before)
    (keeps : Keeps displaced before later) : Apart pool later := by
  intro staged
  rw [keeps.staged] at staged
  rw [keeps.drainTier,keeps.mnt]
  exact apart staged

section Steps

variable {state next : State}

variable (sound : Sound state)
include sound

theorem Sound.rehomed {oid : Oid} {before : Inode} (file : FileId) (rel : RelPath)
    (found : state.world.inodes oid = some before) (linked : before.linked = true)
    (slower : before.currentTier ≠ state.world.pool.fastestTier) :
    Apart state.world.pool (rehomedInode state.world before file rel) := by
  obtain ⟨_,here⟩ := sound.coherent.linked found linked
  rw [here.tier] at slower
  exact fun _ => ⟨slower,slower⟩

variable {after : World}

theorem Sound.user (action : Action) (allowed : Allowed state (.user action))
    (acted : act state.world action = some after) (stale : Oid → Option RelPath) :
    Sound {state with world := after, stale := stale} := by
  obtain ⟨clear,undisplaced⟩ := allowed
  have pool := (act_effect _ after action acted).fixed.1
  refine ⟨sound.coherent.act action clear acted,fun oid later present => ?_,fun drain member waiting => ?_⟩
  · change Apart after.pool later
    rw [pool]
    cases found : state.world.inodes oid with
    | none =>
      intro staged
      rw [act_fresh action found acted present] at staged
      cases staged
    | some before =>
      obtain ⟨other,same,keeps | ⟨file,rel,rfl,_,moves,rfl⟩⟩ := act_inode action found acted <;>
        cases same.symm.trans present
      · exact (sound.apart oid before found).kept keeps
      · exact sound.rehomed file rel found (clear before found) (rehomes_slower moves)
  · obtain ⟨faster,before,found,linked,path,elsewhere⟩ := sound.ahead drain member waiting
    have undisplaced := undisplaced drain member waiting
    obtain ⟨later,present,keeps | ⟨file,rel,rfl,same,_,rfl⟩⟩ := act_inode action found acted
    · rw [undisplaced] at keeps
      refine ⟨by rw [pool]; exact faster,later,present,(keeps.linked rfl).trans linked,(keeps.path rfl).trans path,?_⟩
      rw [keeps.mnt]
      exact elsewhere
    · exact ⟨by rw [pool]; exact faster,_,present,linked,same.symm.trans path,Ne.symm faster⟩

theorem Sound.renameDir (old new : RelPath) (allowed : Allowed state (.renameDir old new)) : Sound (renameDir state old new) := by
  obtain ⟨vacant,undisplaced⟩ := allowed
  refine ⟨Coherent.renameDir vacant sound.coherent old,fun oid later present => ?_,fun drain member waiting => ?_⟩
  · obtain ⟨before,found,rfl⟩ := Option.map_eq_some_iff.mp present
    exact sound.apart oid before found
  · obtain ⟨faster,before,found,linked,path,elsewhere⟩ := sound.ahead drain member waiting
    refine ⟨faster,{before with relPath := before.relPath.map (rebase old new)},?_,linked,?_,elsewhere⟩
    · simp [StagingDrain.renameDir,found]
    · simp [path,rebase_other (undisplaced drain member waiting)]

theorem Sound.control (op : Op) (outcome : Outcome) (allowed : Allowed state (.control op outcome))
    (taken : controlStep state op outcome = some after) : Sound {state with world := after} := by
  obtain ⟨proper,recorded⟩ := allowed
  have offDrained (oid : Oid) (seq : Nat) (expected : Option Nat) (same : op = .moveCutover oid seq expected) :=
    (recorded oid seq expected same).1
  obtain ⟨reply,performed⟩ : ∃ reply : Reply op, perform state.world op outcome = some (after,reply) := by
    unfold controlStep at taken
    split at taken
    next oid seq expected =>
      rw [(recorded oid seq expected rfl).2] at taken
      obtain ⟨⟨_,reply⟩,performed,rfl⟩ := Option.map_eq_some_iff.mp taken
      exact ⟨reply,performed⟩
    next =>
      obtain ⟨⟨_,reply⟩,performed,rfl⟩ := Option.map_eq_some_iff.mp taken
      exact ⟨reply,performed⟩
  have adjusts := perform_adjusts op performed
  refine ⟨sound.coherent.perform op outcome reply proper performed,fun oid later present => ?_,fun drain member waiting => ?_⟩
  · change Apart after.pool later
    rw [adjusts.pool]
    cases found : state.world.inodes oid with
    | none =>
      intro staged
      rw [adjusts.fresh found later present] at staged
      cases staged
    | some before =>
      have apart := sound.apart oid before found
      obtain ⟨other,same,keeps | ⟨seq,expected,file,rfl,rfl⟩⟩ := adjusts.inode found <;>
        cases same.symm.trans present
      · exact apart.kept keeps
      · intro staged
        exact ⟨(offDrained oid seq expected rfl before found).1 staged,(apart staged).2⟩
  · obtain ⟨faster,before,found,linked,path,elsewhere⟩ := sound.ahead drain member waiting
    obtain ⟨later,present,keeps | ⟨seq,expected,file,rfl,rfl⟩⟩ := adjusts.inode found
    · refine ⟨by rw [adjusts.pool]; exact faster,later,present,(keeps.linked rfl).trans linked,(keeps.path rfl).trans path,?_⟩
      rw [keeps.mnt]
      exact elsewhere
    · have off := (offDrained drain.oid seq expected rfl before found).2 drain member rfl waiting
      exact ⟨by rw [adjusts.pool]; exact faster,_,present,linked,path,Ne.symm off⟩

theorem Sound.begin (oid : Oid) (allowed : Allowed state (.begin oid)) (began : beginDrain state oid = some next) :
    Sound next := by
  obtain ⟨inode,found,began⟩ := Option.bind_eq_some_iff.mp began
  split at began
  · next staged =>
    obtain ⟨rel,path,rfl⟩ := Option.map_eq_some_iff.mp began
    refine ⟨sound.coherent,sound.apart,fun drain member waiting => ?_⟩
    rcases List.mem_append.mp member with old | new
    · exact sound.ahead drain old waiting
    · cases List.mem_singleton.mp new
      obtain ⟨elsewhere,faster⟩ := sound.apart oid inode found staged.1
      rw [allowed.1,Option.none_or] at path
      exact ⟨faster,inode,found,allowed.2 inode found,path,Ne.symm elsewhere⟩
  · cases began

theorem Sound.drop (index : Nat) : Sound (drop state index) :=
  ⟨sound.coherent,sound.apart,fun drain member => sound.ahead drain (List.mem_of_mem_eraseIdx member)⟩

theorem Sound.unlinked (index : Nat) (drain : Drain) (present : state.drains[index]? = some drain)
    (waiting : drain.unlinked = false) : Sound (unlinkStep state index drain) := by
  have member := List.mem_of_getElem? present
  have marked (other : Drain) (among : other ∈ state.drains.set index {drain with unlinked := true})
      (pending : other.unlinked = false) : other ∈ state.drains := by
    rcases List.mem_or_eq_of_mem_set among with old | rfl
    · exact old
    · cases pending
  obtain ⟨_,inode,found,linked,path,elsewhere⟩ := sound.ahead drain member waiting
  have here := sound.coherent.at found linked path
  unfold unlinkStep
  split
  · exact sound.drop index
  · exact ⟨sound.coherent,sound.apart,fun other among pending => sound.ahead other (marked other among pending) pending⟩
  · refine ⟨?_,sound.apart,fun other among pending => sound.ahead other (marked other among pending) pending⟩
    exact sound.coherent.unused ⟨drain.tier,drain.rel⟩ rfl rfl rfl rfl
      (fun file named => (sound.coherent.copy here drain.tier file found (Ne.symm elsewhere) named).1)

theorem Sound.cleared (oid : Oid) (tier : Nat) : Sound {state with world := clearStaging state.world oid tier} := by
  unfold clearStaging
  split
  · exact sound
  next inode found =>
  split
  · refine ⟨sound.coherent.still rfl rfl (fun _ => rfl) (setInode_place found rfl ⟨rfl,rfl,rfl,rfl,rfl⟩),
      fun other later present => ?_,fun drain member waiting => ?_⟩
    · rw [World.setInode_inodes] at present
      split at present
      · cases present
        exact nofun
      · exact sound.apart other later present
    · obtain ⟨faster,before,known,linked,path,elsewhere⟩ := sound.ahead drain member waiting
      refine ⟨faster,?_⟩
      rw [World.setInode_inodes]
      split
      · next self =>
        rw [self] at known
        cases found.symm.trans known
        exact ⟨_,rfl,linked,path,elsewhere⟩
      · exact ⟨before,known,linked,path,elsewhere⟩
  · exact sound

omit sound

theorem sound_step (state : State) (label : Label) (next : State) (sound : Sound state) (allowed : Allowed state label)
    (taken : step state label = some next) : Sound next := by
  cases label with
  | user action =>
    obtain ⟨after,acted,rfl⟩ := Option.map_eq_some_iff.mp taken
    exact sound.user action allowed acted _
  | renameDir old new =>
    simp only [step] at taken
    split at taken
    · cases taken
    · cases taken
      exact sound.renameDir old new allowed
  | control op outcome =>
    obtain ⟨after,performed,rfl⟩ := Option.map_eq_some_iff.mp taken
    exact sound.control op outcome allowed performed
  | storeMask mask =>
    cases taken
    exact ⟨sound.coherent,sound.apart,sound.ahead⟩
  | begin oid => exact sound.begin oid allowed taken
  | unlink index =>
    obtain ⟨drain,present,waiting,rfl⟩ := step_unlink taken
    exact sound.unlinked index drain present waiting
  | fail index =>
    cases step_fail taken
    exact sound.drop index
  | finish index =>
    obtain ⟨drain,rfl⟩ := step_finish taken
    exact (sound.cleared drain.oid drain.tier).drop index

end Steps

theorem sound_emptyPool (pool : Pool) (umask clock : Nat) : Sound (emptyPool pool umask clock) := by
  refine ⟨⟨⟨?_,?_⟩,?_,?_⟩,?_,?_⟩
  · intro loc file named
    cases named
  · intro oid inode found
    cases found
  · intro first second file named
    cases named
  · intro oid inode found
    cases found
  · intro oid inode found
    cases found
  · intro drain member
    cases member

/-- Each drain is about to unlink a stale copy of its own object or nothing. -/
theorem drains_stale_copies (pool : Pool) (umask clock : Nat) (labels : List Label) (state : State)
    (allowed : Guarded step Allowed (emptyPool pool umask clock) labels)
    (reached : run step (emptyPool pool umask clock) labels = some state) : DrainsStale state :=
  (invariant step Allowed Sound sound_step _ state labels (sound_emptyPool pool umask clock) allowed reached).drainsStale

def twoTierPool : Pool := ⟨2,0,false,false,true,false⟩

def rehomed : List Label :=
  [.user (.create 7 1 ["a"] 0o600),.user (.truncate 7),.storeMask 3,.begin 7]

theorem rehomed_drains_stale_copy : ∃ state, run step (emptyPool twoTierPool 0 0) rehomed = some state ∧
    state.drains = [⟨7,1,["a"],false⟩] ∧ unlinkTarget state.world 1 ["a"] = .ok (some 0) ∧ StaleCopy state.world 7 0 := by
  have allowed : Guarded step Allowed (emptyPool twoTierPool 0 0) rehomed := by
    refine ⟨⟨fun _ => rfl,nofun⟩,fun _ taken => ?_⟩
    cases taken
    refine ⟨⟨fun inode found => ?_,nofun⟩,fun _ taken => ?_⟩
    · cases found
      rfl
    cases taken
    refine ⟨trivial,fun _ taken => ?_⟩
    cases taken
    refine ⟨⟨rfl,fun inode found => ?_⟩,fun _ _ => trivial⟩
    cases found
    rfl
  have outcome : (run step (emptyPool twoTierPool 0 0) rehomed).map
      (fun state => (state.drains,unlinkTarget state.world 1 ["a"])) = some ([⟨7,1,["a"],false⟩],.ok (some 0)) := by
    decide +kernel
  obtain ⟨state,reached,facts⟩ := Option.map_eq_some_iff.mp outcome
  obtain ⟨drains,target⟩ := Prod.mk.inj facts
  refine ⟨state,reached,drains,target,?_⟩
  apply drains_stale_copies twoTierPool 0 0 rehomed state allowed reached ⟨7,1,["a"],false⟩ ?_ rfl 0 target
  rw [drains]
  exact List.mem_cons_self

def movedBack : List Label :=
  [.user (.create 7 1 ["a"] 0o600),.user (.truncate 7),.user (.write 7 [1,2,3]),.control (.movePlan 7 1 1) .done,
    .control (.openDestination ⟨1,["a"]⟩ 7) .done,.control (.ioCopy 1 0) .done,.control (.moveCutover 7 1 (some 2)) .done,
    .control (.remove ⟨0,["a"]⟩) .done,.control (.moveComplete 7 1) .done,.storeMask 3,.begin 7]

/-- The cutover leaves the staging state as it was, so the drain unlinks the
object's only copy. -/
theorem moved_back_drains_lower_path : ∃ state, run step (emptyPool twoTierPool 0 0) movedBack = some state ∧
    ∃ drain ∈ state.drains, drain.unlinked = false ∧ ∃ file inode,
      unlinkTarget state.world drain.tier drain.rel = .ok (some file) ∧
      state.world.inodes drain.oid = some inode ∧ inode.lowerPath.file = file := by
  have outcome : (run step (emptyPool twoTierPool 0 0) movedBack).map
      (fun state => (state.drains,unlinkTarget state.world 1 ["a"],(state.world.inodes 7).map (·.lowerPath.file))) =
      some ([⟨7,1,["a"],false⟩],.ok (some 0),some 0) := by
    decide +kernel
  obtain ⟨state,reached,facts⟩ := Option.map_eq_some_iff.mp outcome
  simp only [Prod.mk.injEq,Option.map_eq_some_iff] at facts
  obtain ⟨drains,target,inode,found,same⟩ := facts
  refine ⟨state,reached,⟨7,1,["a"],false⟩,?_,rfl,0,inode,target,found,same⟩
  rw [drains]
  exact List.mem_cons_self

end Smoothfs.StagingDrain
