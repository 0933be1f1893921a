import Smoothfs.Coherence
import Smoothfs.Placement
import Smoothfs.Worker

/-! Which writes of an object are in which lower file and on which disk, while a
worker moves the object and users write and fsync it. -/
namespace Smoothfs.Durability

open Program Control Movement Worker Placement Coherence Function
open Coherence (SamePlace)

structure Scan where
  tier : Nat
  record : Option ReplayRecord
  deriving DecidableEq, Repr

/-- `cached` are the writes that a file holds, `durable` those that its disk holds at least; a file
that is `synced` keeps its name. -/
structure State where
  world : World
  cached : FileId → List Nat
  durable : FileId → List Nat
  synced : FileId → Bool
  issued : List Nat
  fsynced : List Nat
  queue : List PlacementRecord
  log : List PlacementRecord
  scan : Option Scan
  index : Option Loc

inductive Env
  | write (content : Bytes)
  | fsync
  | tick
  | flush
  | loadLog
  | scanName (loc : Loc) (minted : Oid)
  | truncateIndex
  | writeIndex
  deriving DecidableEq, Repr

def fileEffect (state : State) (after : World) : (op : Op) → Reply op → State
  | .openDestination _ _, .ok file =>
    {state with
      cached := update state.cached file []
      durable := update state.durable file []
      synced := update state.synced file (state.synced file && file ≠ state.world.nextFile)}
  | .ioCopy source destination, _ =>
    {state with
      cached := update state.cached destination
        (if (after.files destination).content = (state.world.files source).content then state.cached source else [])}
  | .syncFile file, .ok () =>
    {state with
      durable := update state.durable file (state.cached file)
      synced := update state.synced file true}
  | _, _ => state

def queued (state : State) (oid : Oid) (op : Op) (after : World) : Outcome → List PlacementRecord
  | .failed _ => state.queue
  | _ => state.queue ++ placementRecords state.world after oid op

def perform (oid : Oid) (state : State) (op : Op) (outcome : Outcome) : Option (State × Reply op) :=
  (Control.perform state.world op outcome).map fun (after,reply) =>
    ({fileEffect state after op reply with world := after, queue := queued state oid op after outcome},reply)

def write (oid : Oid) (state : State) (content : Bytes) : Option State := do
  let inode ← state.world.inodes oid
  let after ← Namespace.write state.world oid content
  some {state with
    world := after
    issued := inode.writeSeq::state.issued
    cached := update state.cached inode.lowerPath.file (inode.writeSeq::state.cached inode.lowerPath.file)}

def fsync (oid : Oid) (state : State) : Option State :=
  (state.world.inodes oid).map fun inode =>
    {state with
      durable := update state.durable inode.lowerPath.file (state.cached inode.lowerPath.file)
      synced := update state.synced inode.lowerPath.file true
      fsynced := state.issued}

def flush (state : State) : State :=
  {state with log := state.log ++ state.queue, queue := []}

def loadLog (oid : Oid) (state : State) : State :=
  {flush state with scan := some ⟨0,replayLoadLog (state.log ++ state.queue) oid⟩}

def scanName (oid : Oid) (state : State) (loc : Loc) (minted : Oid) : Option State := do
  let scan ← state.scan
  let file ← state.world.names loc
  if scan.tier ≤ loc.dir ∧ loc.dir < state.world.pool.ntiers ∧ minted ≠ oid then
    match (state.world.files file).oid with
    | none => some {state with world := stamp state.world file minted, scan := some ⟨loc.dir,scan.record⟩}
    | some found =>
      some {state with scan := some ⟨loc.dir,if found = oid then some (scanNode scan.record loc) else scan.record⟩}
  else none

def interfere (oid : Oid) (state : State) : Env → Option State
  | .write content => write oid state content
  | .fsync => fsync oid state
  | .tick => some {state with world := {state.world with clock := state.world.clock + 1}}
  | .flush => some (flush state)
  | .loadLog => some (loadLog oid state)
  | .scanName loc minted => scanName oid state loc minted
  | .truncateIndex => state.scan.map fun _ => {state with index := none}
  | .writeIndex => state.scan.map fun scan => {state with index := scan.record.bind (·.chosen), scan := none}

def machine (oid : Oid) : Machine Op Reply State Outcome Env where
  perform := perform oid
  interfere := interfere oid

def work (hooks : Hooks) : List MovementPlan → Act Unit
  | [] => .done ()
  | plan::plans => do
    let _ ← ((execute hooks plan).attempt : Act (Except GoError Unit))
    work hooks plans

structure Live (oid : Oid) (path : RelPath) (state : State) (inode : Inode) : Prop where
  found : state.world.inodes oid = some inode
  relPath : inode.relPath = some path
  tier : inode.currentTier = inode.lowerPath.mnt
  named : state.world.names ⟨inode.lowerPath.mnt,path⟩ = some inode.lowerPath.file
  synced : state.synced inode.lowerPath.file = true
  cached : state.issued ⊆ state.cached inode.lowerPath.file
  durable : state.fsynced ⊆ state.durable inode.lowerPath.file
  confirmed : state.fsynced ⊆ state.issued

structure At (oid : Oid) (path : RelPath) (place : Inode → Prop) (state : State) : Prop where
  tidy : state.world.Tidy
  live : ∃ inode, Live oid path state inode ∧ place inode

structure Quiet (before after : State) : Prop where
  same : SameNames before.world after.world
  content : ∀ file, (after.world.files file).content = (before.world.files file).content
  cached : after.cached = before.cached
  durable : ∀ file, after.durable file = before.durable file ∨ after.durable file = before.cached file
  synced : ∀ file, before.synced file = true → after.synced file = true
  issued : after.issued = before.issued

structure Settles (before after : State) : Prop extends Quiet before after where
  fsynced : after.fsynced = before.fsynced

section States

variable {oid : Oid} {path : RelPath} {state after : State} {inode : Inode} {place : Inode → Prop}

theorem Live.settles (live : Live oid path state inode) (settles : Settles state after) : Live oid path after inode where
  found := by rw [settles.same.inodes,live.found]
  relPath := live.relPath
  tier := live.tier
  named := by rw [settles.same.names,live.named]
  synced := settles.synced _ live.synced
  cached := by rw [settles.issued,settles.cached]; exact live.cached
  durable := by
    rw [settles.fsynced]
    rcases settles.durable inode.lowerPath.file with same | more
    · rw [same]
      exact live.durable
    · rw [more]
      exact List.Subset.trans live.confirmed live.cached
  confirmed := by rw [settles.fsynced,settles.issued]; exact live.confirmed

theorem At.settles (holds : At oid path place state) (settles : Settles state after) : At oid path place after := by
  obtain ⟨inode,live,there⟩ := holds.live
  exact ⟨settles.same.tidy holds.tidy,inode,live.settles settles,there⟩

variable {op : Op} {outcome : Outcome} {reply : Reply op}

theorem perform_settles (steady : op.steady = true)
    (performed : perform oid state op outcome = some (after,reply)) : Settles state after := by
  obtain ⟨⟨world,answer⟩,executed,same⟩ := Option.map_eq_some_iff.mp performed
  cases same
  have still := perform_steady world outcome steady executed
  have content (file : FileId) : (world.files file).content = (state.world.files file).content := by
    have same := congrArg LowerFile.content (still.files file)
    exact same
  cases op with
  | ioCopy source destination => cases steady
  | openDestination loc object => cases steady
  | syncFile file =>
    cases reply with
    | error errno => exact ⟨⟨still.toSameNames,content,rfl,fun _ => .inl rfl,fun _ => id,rfl⟩,rfl⟩
    | ok value =>
      refine ⟨⟨still.toSameNames,content,rfl,fun other => ?_,fun other synced => ?_,rfl⟩,rfl⟩
      · by_cases self : other = file
        · subst other
          exact .inr (update_self ..)
        · exact .inl (update_of_ne self _ _)
      · by_cases self : other = file
        · subst other
          exact update_self ..
        · exact (update_of_ne self _ _).trans synced
  | _ => exact ⟨⟨still.toSameNames,content,rfl,fun _ => .inl rfl,fun _ => id,rfl⟩,rfl⟩

variable {action : Env}

theorem interfere_settles (other : ∀ content, action ≠ .write content) (unsynced : action ≠ .fsync)
    (interfered : interfere oid state action = some after) : Settles state after := by
  cases action with
  | write content => exact absurd rfl (other content)
  | fsync => exact absurd rfl unsynced
  | tick | flush | loadLog =>
    cases interfered
    exact ⟨⟨⟨rfl,rfl,rfl,rfl⟩,fun _ => rfl,rfl,fun _ => .inl rfl,fun _ => id,rfl⟩,rfl⟩
  | truncateIndex | writeIndex =>
    obtain ⟨_,_,rfl⟩ := Option.map_eq_some_iff.mp interfered
    exact ⟨⟨⟨rfl,rfl,rfl,rfl⟩,fun _ => rfl,rfl,fun _ => .inl rfl,fun _ => id,rfl⟩,rfl⟩
  | scanName loc minted =>
    simp only [interfere,scanName,bind,Option.bind_eq_some_iff] at interfered
    obtain ⟨scan,_,file,_,interfered⟩ := interfered
    split at interfered
    · split at interfered
      · cases interfered
        refine ⟨⟨⟨rfl,rfl,rfl,rfl⟩,fun other => ?_,rfl,fun _ => .inl rfl,fun _ => id,rfl⟩,rfl⟩
        by_cases self : other = file
        · subst other
          simp only [stamp,World.setFile,update_self]
        · simp only [stamp,World.setFile,update_of_ne self]
      · cases interfered
        exact ⟨⟨⟨rfl,rfl,rfl,rfl⟩,fun _ => rfl,rfl,fun _ => .inl rfl,fun _ => id,rfl⟩,rfl⟩
    · cases interfered

variable {content : Bytes}

theorem write_spec (found : state.world.inodes oid = some inode) (written : write oid state content = some after) :
    after.world.names = state.world.names ∧ after.world.nextFile = state.world.nextFile ∧
      after.world.inodes oid = some {inode with writeSeq := inode.writeSeq + 1} ∧
      after.issued = inode.writeSeq::state.issued ∧ after.cached inode.lowerPath.file = inode.writeSeq::state.cached inode.lowerPath.file ∧
      after.durable = state.durable ∧ after.synced = state.synced ∧ after.fsynced = state.fsynced := by
  simp only [write,Namespace.write,found,bind,Option.bind_some,Option.map_some,Option.some.injEq] at written
  subst written
  exact ⟨rfl,rfl,update_self ..,rfl,update_self ..,rfl,rfl,rfl⟩

theorem Live.write (live : Live oid path state inode) (written : write oid state content = some after) :
    Live oid path after {inode with writeSeq := inode.writeSeq + 1} := by
  obtain ⟨names,_,found,issued,cached,durable,synced,fsynced⟩ := write_spec live.found written
  constructor
  · exact found
  · exact live.relPath
  · exact live.tier
  · rw [names]
    exact live.named
  · rw [synced]
    exact live.synced
  · rw [issued,cached]
    exact List.cons_subset_cons _ live.cached
  · rw [fsynced,durable]
    exact live.durable
  · rw [fsynced,issued]
    exact List.subset_cons_of_subset _ live.confirmed

theorem Live.fsync (live : Live oid path state inode) (synced : fsync oid state = some after) : Live oid path after inode := by
  simp only [Durability.fsync,live.found,Option.map_some,Option.some.injEq] at synced
  subst synced
  constructor
  · exact live.found
  · exact live.relPath
  · exact live.tier
  · exact live.named
  · exact update_self ..
  · exact live.cached
  · simp only [update_self]
    exact live.cached
  · exact List.Subset.refl _

def Lasting (place : Inode → Prop) : Prop :=
  ∀ inode count, inode.writeSeq ≤ count → place inode → place {inode with writeSeq := count}

theorem At.interfered (holds : At oid path place state) (lasting : Lasting place)
    (interfered : interfere oid state action = some after) : At oid path place after := by
  obtain ⟨inode,live,there⟩ := holds.live
  cases action with
  | write content =>
    obtain ⟨names,nextFile,_⟩ := write_spec live.found interfered
    exact ⟨holds.tidy.congr names nextFile,_,live.write interfered,lasting inode _ (Nat.le_succ _) there⟩
  | fsync =>
    refine ⟨?_,inode,live.fsync interfered,there⟩
    obtain ⟨_,_,rfl⟩ := Option.map_eq_some_iff.mp interfered
    exact holds.tidy
  | _ => exact holds.settles (interfere_settles (by nofun) (by nofun) interfered)

structure Alike (file : FileId) (before after : State) : Prop where
  cached : after.cached file = before.cached file
  durable : after.durable file = before.durable file
  synced : after.synced file = before.synced file
  issued : after.issued = before.issued
  fsynced : after.fsynced = before.fsynced

theorem Live.carried {later : Inode} (live : Live oid path state inode) (found : after.world.inodes oid = some later)
    (same : SamePlace inode later) (named : after.world.names ⟨inode.lowerPath.mnt,path⟩ = some inode.lowerPath.file)
    (alike : Alike inode.lowerPath.file state after) : Live oid path after later where
  found := found
  relPath := same.path.trans live.relPath
  tier := by rw [same.tier,same.mnt,live.tier]
  named := by rw [same.mnt,same.file,named]
  synced := by rw [same.file,alike.synced,live.synced]
  cached := by rw [same.file,alike.cached,alike.issued]; exact live.cached
  durable := by rw [same.file,alike.durable,alike.fsynced]; exact live.durable
  confirmed := by rw [alike.issued,alike.fsynced]; exact live.confirmed

theorem perform_world (plain : ∀ world reply, fileEffect state world op reply = state)
    (performed : perform oid state op outcome = some (after,reply)) :
    Control.perform state.world op outcome = some (after.world,reply) ∧ ∀ file, Alike file state after := by
  obtain ⟨⟨world,answer⟩,executed,same⟩ := Option.map_eq_some_iff.mp performed
  cases same
  rw [plain]
  exact ⟨executed,fun _ => ⟨rfl,rfl,rfl,rfl,rfl⟩⟩

theorem At.removed {loc : Loc} {reply : Reply (.remove loc)} (holds : At oid path place state)
    (away : ∀ inode, place inode → loc.dir ≠ inode.lowerPath.mnt)
    (performed : perform oid state (.remove loc) outcome = some (after,reply)) : At oid path place after := by
  obtain ⟨executed,alike⟩ := perform_world (fun _ _ => rfl) performed
  obtain ⟨inode,live,there⟩ := holds.live
  rcases perform_remove after.world loc outcome executed with same | ⟨file,_,gone⟩
  · refine ⟨by rw [same]; exact holds.tidy,inode,live.carried ?_ (samePlace_refl inode) ?_ (alike _),there⟩
    · rw [same,live.found]
    · rw [same,live.named]
  refine ⟨by rw [gone]; exact (holds.tidy.removeName loc).congr rfl rfl,inode,live.carried ?_ (samePlace_refl inode) ?_ (alike _),there⟩
  · rw [gone]
    exact live.found
  · rw [gone]
    change (state.world.setName loc none).names _ = _
    rw [World.setName_names,if_neg (fun equal => away inode there (by rw [← equal])),live.named]

variable {wider : Inode → Prop}

theorem At.commanded (holds : At oid path place state) (plain : ∀ world reply, fileEffect state world op reply = state)
    (performed : perform oid state op outcome = some (after,reply))
    (moves : ∀ inode, state.world.inodes oid = some inode → place inode → after.world.names = state.world.names ∧
      after.world.nextFile = state.world.nextFile ∧ ∃ later, after.world.inodes oid = some later ∧ SamePlace inode later ∧ wider later) :
    At oid path wider after := by
  obtain ⟨inode,live,there⟩ := holds.live
  obtain ⟨names,nextFile,later,found,same,reached⟩ := moves inode live.found there
  refine ⟨holds.tidy.congr names nextFile,later,live.carried found same ?_ ((perform_world plain performed).2 _),reached⟩
  rw [names,live.named]

theorem At.weaken (holds : At oid path place state) (weaker : ∀ inode, place inode → wider inode) : At oid path wider state := by
  obtain ⟨inode,live,there⟩ := holds.live
  exact ⟨holds.tidy,inode,live,weaker inode there⟩

theorem fsync_quiet (synced : fsync oid state = some after) : Quiet state after := by
  obtain ⟨inode,_,rfl⟩ := Option.map_eq_some_iff.mp synced
  refine ⟨⟨rfl,rfl,rfl,rfl⟩,fun _ => rfl,rfl,fun file => ?_,fun file known => ?_,rfl⟩
  · by_cases self : file = inode.lowerPath.file
    · subst file
      exact .inr (update_self ..)
    · exact .inl (update_of_ne self _ _)
  · by_cases self : file = inode.lowerPath.file
    · subst file
      exact update_self ..
    · exact (update_of_ne self _ _).trans known

/-- The fact holds, unless the object was written since `write_seq` was `seen`. -/
def Unless (oid : Oid) (seen : Nat) (fact : State → Prop) (state : State) : Prop :=
  ∀ inode, state.world.inodes oid = some inode → inode.writeSeq = seen → fact state

def Lasts (fact : State → Prop) : Prop :=
  ∀ before after, Quiet before after → fact before → fact after

variable {seen : Nat} {fact : State → Prop}

theorem Unless.quiet (watched : Unless oid seen fact state) (lasts : Lasts fact) (quiet : Quiet state after) :
    Unless oid seen fact after := by
  intro inode found same
  rw [quiet.same.inodes] at found
  exact lasts state after quiet (watched inode found same)

theorem Unless.interfered (watched : Unless oid seen fact state) (lasts : Lasts fact)
    (found : state.world.inodes oid = some inode) (counted : seen ≤ inode.writeSeq)
    (interfered : interfere oid state action = some after) : Unless oid seen fact after := by
  cases action with
  | write content =>
    obtain ⟨_,_,present,_⟩ := write_spec found interfered
    intro later known same
    cases present.symm.trans known
    exact absurd (Nat.lt_of_le_of_lt counted (Nat.lt_succ_self _)) (by rw [← same]; exact Nat.lt_irrefl _)
  | fsync => exact watched.quiet lasts (fsync_quiet interfered)
  | _ => exact watched.quiet lasts (interfere_settles (by nofun) (by nofun) interfered).toQuiet

end States

structure Leaving (source : Loc) (dest seen : Nat) (file : FileId) (inode : Inode) : Prop where
  counted : seen ≤ inode.writeSeq
  mnt : inode.lowerPath.mnt = source.dir
  lower : inode.lowerPath.file = file
  aim : inode.intendedTier = dest

theorem lasting_leaving (source : Loc) (dest seen : Nat) (file : FileId) : Lasting (Leaving source dest seen file) :=
  fun _ _ later there => ⟨Nat.le_trans there.counted later,there.mnt,there.lower,there.aim⟩

structure Watched (oid : Oid) (source : Loc) (dest seen : Nat) (file : FileId) (fact : State → Prop) (state : State) : Prop where
  leaving : At oid source.rel (Leaving source dest seen file) state
  watched : Unless oid seen fact state

def Sized (file : FileId) (size : Nat) (state : State) : Prop :=
  (state.world.files file).content.length = size

def Opened (loc : Loc) (file dst : FileId) (size : Nat) (state : State) : Prop :=
  Sized file size state ∧ state.world.names loc = some dst

def Filled (loc : Loc) (file dst : FileId) (state : State) : Prop :=
  state.world.names loc = some dst ∧ state.cached file ⊆ state.cached dst

def Complete (loc : Loc) (file : FileId) (state : State) : Prop :=
  ∃ dst, Filled loc file dst state ∧ state.synced dst = true ∧ state.cached file ⊆ state.durable dst

section Facts

variable {oid : Oid} {source loc : Loc} {dest seen size : Nat} {file dst : FileId} {fact : State → Prop} {state after : State}

theorem lasts_sized : Lasts (Sized file size) := by
  intro before after quiet sized
  rw [Sized,quiet.content]
  exact sized

theorem lasts_opened : Lasts (Opened loc file dst size) := by
  intro before after quiet opened
  refine ⟨lasts_sized before after quiet opened.1,?_⟩
  rw [quiet.same.names]
  exact opened.2

theorem lasts_filled : Lasts (Filled loc file dst) := by
  intro before after quiet filled
  rw [Filled,quiet.same.names,quiet.cached]
  exact filled

theorem lasts_complete : Lasts (Complete loc file) := by
  rintro before after quiet ⟨dst,filled,synced,durable⟩
  refine ⟨dst,lasts_filled before after quiet filled,quiet.synced dst synced,?_⟩
  rw [quiet.cached]
  rcases quiet.durable dst with same | more
  · rw [same]
    exact durable
  · rw [more]
    exact filled.2

theorem Watched.interfered {action : Env} (holds : Watched oid source dest seen file fact state) (lasts : Lasts fact)
    (interfered : interfere oid state action = some after) : Watched oid source dest seen file fact after := by
  obtain ⟨inode,live,there⟩ := holds.leaving.live
  exact ⟨holds.leaving.interfered (lasting_leaving source dest seen file) interfered,
    holds.watched.interfered lasts live.found there.counted interfered⟩

theorem Watched.settles (holds : Watched oid source dest seen file fact state) (lasts : Lasts fact) (settles : Settles state after) :
    Watched oid source dest seen file fact after :=
  ⟨holds.leaving.settles settles,holds.watched.quiet lasts settles.toQuiet⟩

theorem At.apart (holds : At oid source.rel (Leaving source dest seen file) state) (different : loc.dir ≠ source.dir)
    (named : state.world.names loc = some dst) : dst ≠ file := by
  rintro rfl
  obtain ⟨inode,live,there⟩ := holds.live
  have live := live.named
  rw [there.lower,there.mnt] at live
  exact different (holds.tidy.apart _ _ _ named live)

variable {object : Oid} {outcome : Outcome}

theorem Watched.opened (holds : Watched oid source dest seen file (Sized file size) state)
    (different : loc.dir ≠ source.dir) (performed : perform oid state (.openDestination loc object) outcome = some (after,.ok dst)) :
    dst ≠ file ∧ Watched oid source dest seen file (Opened loc file dst size) after := by
  obtain ⟨⟨world,answer⟩,executed,same⟩ := Option.map_eq_some_iff.mp performed
  cases same
  obtain ⟨inode,live,there⟩ := holds.leaving.live
  rcases perform_openDestination _ executed with ⟨_,_,failed⟩ | opens
  · cases failed
  have named := live.named
  rw [there.lower] at named
  unfold Control.openDestination at opens
  split at opens
  · next absent =>
    cases opens
    have unused : state.world.nextFile ≠ file := by
      rintro rfl
      exact Nat.lt_irrefl _ (holds.leaving.tidy.fresh _ _ named)
    refine ⟨unused,⟨holds.leaving.tidy.create loc _,inode,?_,there⟩,fun known present unwritten => ?_⟩
    · refine live.carried live.found (samePlace_refl inode) ?_ ?_
      · refine World.setName_keeps absent ?_
        exact live.named
      · rw [there.lower]
        exact ⟨update_of_ne unused.symm _ _,update_of_ne unused.symm _ _,update_of_ne unused.symm _ _,rfl,rfl⟩
    · refine ⟨?_,update_self ..⟩
      have sized := holds.watched known present unwritten
      simp only [Sized,World.create,World.setFile,update_of_ne unused.symm]
      exact sized
  · next found =>
    dsimp only at opens
    split at opens
    · cases opens
      have other := holds.leaving.apart different found
      refine ⟨other,⟨holds.leaving.tidy.congr rfl rfl,inode,?_,there⟩,fun known present unwritten => ?_⟩
      · refine live.carried live.found (samePlace_refl inode) live.named ?_
        rw [there.lower]
        exact ⟨update_of_ne other.symm _ _,update_of_ne other.symm _ _,update_of_ne other.symm _ _,rfl,rfl⟩
      · refine ⟨?_,found⟩
        have sized := holds.watched known present unwritten
        simp only [Sized,World.setFile,update_of_ne other.symm]
        exact sized
    · cases opens

theorem At.unopened {place : Inode → Prop} {path : RelPath} {errno : Errno}
    (holds : At oid path place state) (performed : perform oid state (.openDestination loc object) outcome = some (after,.error errno)) :
    At oid path place after := by
  obtain ⟨⟨world,answer⟩,executed,same⟩ := Option.map_eq_some_iff.mp performed
  cases same
  have still : world = state.world := by
    rcases perform_openDestination _ executed with ⟨rfl,_⟩ | opens
    · rfl
    unfold Control.openDestination at opens
    split at opens
    · cases opens
    · dsimp only at opens
      split at opens <;> cases opens
      rfl
  subst still
  exact holds.settles ⟨⟨⟨rfl,rfl,rfl,rfl⟩,fun _ => rfl,rfl,fun _ => .inl rfl,fun _ => id,rfl⟩,rfl⟩

theorem At.copying {reply : Reply (.ioCopy file dst)}
    (holds : At oid source.rel (Leaving source dest seen file) state) (different : dst ≠ file)
    (performed : perform oid state (.ioCopy file dst) outcome = some (after,reply)) :
    At oid source.rel (Leaving source dest seen file) after := by
  obtain ⟨⟨world,answer⟩,executed,same⟩ := Option.map_eq_some_iff.mp performed
  cases same
  obtain ⟨inode,live,there⟩ := holds.live
  have alike : Alike inode.lowerPath.file state
      {fileEffect state world (.ioCopy file dst) reply with
        world := world, queue := queued state oid (.ioCopy file dst) world outcome} := by
    rw [there.lower]
    exact ⟨update_of_ne different.symm _ _,rfl,rfl,rfl,rfl⟩
  rcases perform_ioCopy executed with ⟨rfl,_⟩ | ⟨count,rfl,_⟩
  · exact ⟨holds.tidy,inode,live.carried live.found (samePlace_refl inode) live.named alike,there⟩
  · exact ⟨holds.tidy.congr rfl rfl,inode,live.carried live.found (samePlace_refl inode) live.named alike,there⟩

theorem Watched.copied {bytes : Bytes} (holds : Watched oid source dest seen file (Opened loc file dst size) state)
    (different : dst ≠ file) (performed : perform oid state (.ioCopy file dst) outcome = some (after,.ok bytes)) :
    Watched oid source dest seen file (fun state => bytes.length = size → Filled loc file dst state) after := by
  refine ⟨holds.leaving.copying different performed,?_⟩
  obtain ⟨⟨world,answer⟩,executed,same⟩ := Option.map_eq_some_iff.mp performed
  cases same
  rcases perform_ioCopy executed with ⟨_,_,failed⟩ | ⟨count,rfl,read⟩
  · cases failed
  intro known present unwritten long
  obtain ⟨sized,named⟩ := holds.watched known present unwritten
  have whole : (state.world.files file).content.take count = (state.world.files file).content := by
    apply List.take_of_length_le
    rw [show bytes = _ from read bytes rfl,Control.ioCopy,List.length_take,← sized] at long
    rw [← long]
    exact Nat.min_le_left _ _
  refine ⟨named,?_⟩
  simp only [fileEffect,Control.ioCopy,World.record,World.setFile,update_self,whole]
  rw [update_of_ne different.symm]
  exact List.Subset.refl _

theorem Watched.synced (holds : Watched oid source dest seen file (Filled loc file dst) state)
    (performed : perform oid state (.syncFile dst) outcome = some (after,.ok ())) :
    Watched oid source dest seen file (Complete loc file) after := by
  refine ⟨holds.leaving.settles (perform_settles rfl performed),fun known present unwritten => ?_⟩
  obtain ⟨⟨world,answer⟩,executed,same⟩ := Option.map_eq_some_iff.mp performed
  have still := perform_idle rfl executed
  cases same
  subst still
  obtain ⟨named,filled⟩ := holds.watched known present unwritten
  refine ⟨dst,⟨named,filled⟩,update_self ..,?_⟩
  simp only [fileEffect,update_self]
  exact filled

theorem Watched.published {inode : Inode} (holds : Watched oid source dest seen file (Complete ⟨dest,source.rel⟩ file) state)
    (found : state.world.inodes oid = some inode) (unwritten : seen = inode.writeSeq)
    (named : state.world.names (cutoverDest inode) = some dst) (alike : ∀ file, Alike file state after)
    (switched : after.world = publish state.world oid inode dst) : At oid source.rel (fun inode => inode.lowerPath.mnt = dest) after := by
  obtain ⟨known,live,there⟩ := holds.leaving.live
  cases found.symm.trans live.found
  obtain ⟨copy,⟨standing,cached⟩,synced,durable⟩ := holds.watched inode found unwritten.symm
  have target : cutoverDest inode = ⟨dest,source.rel⟩ := by
    rw [cutoverDest,there.aim,live.relPath,Option.getD_some]
  rw [target] at named
  cases standing.symm.trans named
  have held : state.issued ⊆ state.cached file := by
    rw [← there.lower]
    exact live.cached
  have present : after.world.inodes oid = some (switchedInode inode dst) := by
    rw [switched]
    exact update_self ..
  refine ⟨by rw [switched]; exact holds.leaving.tidy.congr rfl rfl,switchedInode inode dst,?_,there.aim⟩
  constructor
  · exact present
  · exact live.relPath
  · rfl
  · rw [switched]
    change state.world.names ⟨inode.intendedTier,source.rel⟩ = some dst
    rw [there.aim,named]
  · exact (alike dst).synced.trans synced
  · rw [(alike dst).issued]
    change state.issued ⊆ after.cached dst
    rw [(alike dst).cached]
    exact List.Subset.trans held cached
  · rw [(alike dst).fsynced]
    change state.fsynced ⊆ after.durable dst
    rw [(alike dst).durable]
    exact List.Subset.trans live.confirmed (List.Subset.trans held durable)
  · rw [(alike dst).fsynced,(alike dst).issued]
    exact live.confirmed

end Facts

end Smoothfs.Durability
