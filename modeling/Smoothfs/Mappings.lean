import Smoothfs.CutoverSteps
import Smoothfs.Library.Content
import Smoothfs.Library.Run

/-! Writable shared mappings while a file is moved. Stores go to the lower file without
a word to the kernel module; the worker finds them by reading the source twice, and
the cutover looks for mappings once, before it drains the writers. The worker's copy
and its second reading go piece by piece, and anything can come in between. -/
namespace Smoothfs.Mappings

open Movement Content Run

/-- What the worker knows after its first INSPECT: where the file goes, the lower file
it opens as the source, and `write_seq`. -/
structure Move where
  destTier : Nat
  seq : Nat
  rel : RelPath
  source : FileId
  writeSeq : Nat
  deriving DecidableEq, Repr

structure Stat where
  size : Nat
  mtime : Nat
  deriving DecidableEq, Repr

/-- `read` is what it has read so far of a file it goes through, `sum` the digest of the copied
bytes. -/
inductive Worker
  | idle
  | inspected (move : Move)
  | planned (move : Move)
  | stated (move : Move) (before : Stat)
  | copying (move : Move) (before : Stat) (size : Nat) (dest : FileId) (read : Bytes)
  | copied (move : Move) (before : Stat) (dest : FileId) (sum : Bytes)
  | compared (move : Move) (before : Stat) (dest : FileId) (sum : Bytes)
  | hashing (move : Move) (dest : FileId) (sum read : Bytes)
  | hashed (move : Move) (dest : FileId) (sum : Bytes)
  | verified (move : Move) (dest : FileId) (sum : Bytes)
  | draining (move : Move) (dest : FileId) (sum : Bytes)
  deriving DecidableEq, Repr

/-- `maps` counts the writable shared mappings of the lower file, and `pending` the
calls of mmap that are past their test of `mappings_quiesced`. -/
structure State where
  world : World
  maps : Nat
  pending : Nat
  mappingsQuiesced : Bool
  worker : Worker

inductive Label
  | mmapTest
  | mmapLink
  | munmap
  | store (pos : Nat) (data : Bytes) (mtime : Nat)
  | write (pos : Nat) (data : Bytes)
  | revokeMappings
  | reconcile
  | begin_ (destTier seq : Nat)
  | worker (count : Nat) (fault : CutoverFault)
  deriving DecidableEq, Repr

def content (world : World) (file : FileId) : Bytes := (world.files file).content

def setContent (world : World) (file : FileId) (bytes : Bytes) : World :=
  world.setFile file {world.files file with content := bytes}

def stat (world : World) (file : FileId) : Stat :=
  ⟨(content world file).length,(world.files file).attrs.mtime⟩

def change (world : World) (inode : Inode) (pos : Nat) (data : Bytes) (mtime : Nat) : World :=
  let lower := world.files inode.lowerPath.file
  world.setFile inode.lowerPath.file
    {lower with content := pwrite lower.content pos data, attrs := {lower.attrs with mtime := mtime}}

def setMapped (oid : Oid) (state : State) (maps : Nat) : State :=
  match state.world.inodes oid with
  | none => state
  | some inode => {state with
      world := state.world.setInode oid {inode with mapped := 0 < maps}
      maps := maps}

def rollback (oid : Oid) (state : State) (move : Move) : State :=
  {state with world := (movementRollback state.world oid move.seq).1, worker := .idle}

def abandon (oid : Oid) (state : State) (move : Move) : State :=
  rollback oid {state with world := state.world.setName ⟨move.destTier,move.rel⟩ none} move

def openDestination (world : World) (move : Move) : Option (World × FileId) :=
  let opened := match world.names ⟨move.destTier,move.rel⟩ with
    | some file => (setContent world file [],file)
    | none => (world.create ⟨move.destTier,move.rel⟩ ⟨true,[],⟨0o644,world.clock,[]⟩,none,false,0⟩,world.nextFile)
  if opened.2 = move.source then none else some opened

def workerStep (oid : Oid) (state : State) (count : Nat) (fault : CutoverFault) : Option State :=
  match state.worker with
  | .idle => none
  | .inspected move =>
    match movementPlan state.world oid move.destTier move.seq false with
    | (world,.ok ()) => some {state with world := world, mappingsQuiesced := false, worker := .planned move}
    | (_,.error _) => some (rollback oid state move)
  | .planned move => some {state with worker := .stated move (stat state.world move.source)}
  | .stated move before =>
    (openDestination state.world move).map fun opened =>
      {state with world := opened.1, worker := .copying move before (stat opened.1 move.source).size opened.2 []}
  | .copying move before size dest read =>
    if count = 0 then none
    else
      match window (content state.world move.source) read.length count with
      | [] => some (if read.length = size then {state with worker := .copied move before dest read} else abandon oid state move)
      | data => some {state with
          world := setContent state.world dest (content state.world dest ++ data)
          worker := .copying move before size dest (read ++ data)}
  | .copied move before dest sum =>
    some (if content state.world dest = sum then {state with worker := .compared move before dest sum} else abandon oid state move)
  | .compared move before dest sum =>
    some (if stat state.world move.source = before then {state with worker := .hashing move dest sum []} else abandon oid state move)
  | .hashing move dest sum read =>
    if count = 0 then none
    else
      match window (content state.world move.source) read.length count with
      | [] => some (if read = sum then {state with worker := .hashed move dest sum} else abandon oid state move)
      | data => some {state with worker := .hashing move dest sum (read ++ data)}
  | .hashed move dest sum =>
    match inspect state.world oid with
    | .ok reply => some (if reply.writeSeq = move.writeSeq ∧ ¬ reply.rangeStaged then {state with worker := .verified move dest sum}
        else abandon oid state move)
    | .error _ => some (abandon oid state move)
  | .verified move dest sum =>
    if state.world.pool.quiesced then some (abandon oid state move)
    else
      match cutoverBegin state.world oid move.seq with
      | (world,.ok ()) => some {state with world := world, worker := .draining move dest sum}
      | (_,.error _) => some (abandon oid state move)
  | .draining move _ _ =>
    match cutoverFinish state.world oid (some move.writeSeq) fault with
    | (world,.ok ()) => some (setMapped oid {state with world := world, pending := 0, worker := .idle} 0)
    | (world,.error _) => some (abandon oid {state with world := world} move)

def step (oid : Oid) (state : State) : Label → Option State
  | .mmapTest => if state.mappingsQuiesced then none else some {state with pending := state.pending + 1}
  | .mmapLink => if state.pending = 0 then none else some (setMapped oid {state with pending := state.pending - 1} (state.maps + 1))
  | .munmap => if state.maps = 0 then none else some (setMapped oid state (state.maps - 1))
  | .store pos data mtime =>
    (state.world.inodes oid).bind fun inode =>
      if state.maps = 0 ∨ (content state.world inode.lowerPath.file).length < pos + data.length then none
      else some {state with world := change state.world inode pos data mtime}
  | .write pos data =>
    (state.world.inodes oid).bind fun inode =>
      -- Writes wait for a cutover that is under way.
      if inode.movementState = .cutoverInProgress then none
      else
        let written := change state.world inode pos data state.world.clock
        some {state with world := written.setInode oid {inode with writeSeq := inode.writeSeq + 1}}
  | .revokeMappings => some {state with mappingsQuiesced := true}
  | .reconcile => some {state with mappingsQuiesced := false}
  | .begin_ destTier seq =>
    match state.worker, state.world.inodes oid with
    | .idle, some inode => inode.relPath.map fun rel =>
        {state with worker := .inspected ⟨destTier,seq,rel,inode.lowerPath.file,inode.writeSeq⟩}
    | _, _ => none
  | .worker count fault => workerStep oid state count fault

/-- If the worker's cutover swaps `lower_path` now, the source is not mapped and the
destination has the source's bytes. -/
def SwapKeeps (oid : Oid) (state : State) (fault : CutoverFault) : Worker → Prop
  | .draining move _ _ => (cutoverFinish state.world oid (some move.writeSeq) fault).2 = .ok () →
      state.maps = 0 ∧ ∀ inode ∈ (cutoverFinish state.world oid (some move.writeSeq) fault).1.inodes oid,
        content state.world inode.lowerPath.file = content state.world move.source
  | _ => True

def NothingLost (oid : Oid) (state : State) : Label → Prop
  | .worker _ fault => SwapKeeps oid state fault state.worker
  | _ => True

def verifies : Worker → Bool
  | .hashing _ _ _ _ | .hashed _ _ _ | .verified _ _ _ | .draining _ _ _ => true
  | _ => false

def BeginsUnmapped (maps : Nat) : Worker → Prop
  | .compared _ _ _ _ => maps = 0
  | _ => True

/-- And no mapping is made from then on until the swap. -/
def Unmapped (state : State) : Label → Prop
  | .mmapLink => verifies state.worker = false
  | .worker _ _ => BeginsUnmapped state.maps state.worker
  | _ => True

instance (oid : Oid) (state : State) (fault : CutoverFault) (worker : Worker) : Decidable (SwapKeeps oid state fault worker) := by
  cases worker <;> unfold SwapKeeps <;> infer_instance

instance (oid : Oid) (state : State) (label : Label) : Decidable (NothingLost oid state label) := by
  cases label <;> unfold NothingLost <;> infer_instance

instance (maps : Nat) (worker : Worker) : Decidable (BeginsUnmapped maps worker) := by
  cases worker <;> unfold BeginsUnmapped <;> infer_instance

instance (state : State) (label : Label) : Decidable (Unmapped state label) := by
  cases label <;> unfold Unmapped <;> infer_instance

def Under (oid : Oid) (world : World) (move : Move) : Prop :=
  ∀ inode ∈ world.inodes oid, inode.lowerPath.file = move.source ∧ inode.relPath = some move.rel ∧ move.writeSeq ≤ inode.writeSeq

structure Planned (oid : Oid) (world : World) (move : Move) : Prop where
  under : Under oid world move
  tier : ∀ inode ∈ world.inodes oid, inode.intendedTier = move.destTier

structure Copied (oid : Oid) (world : World) (move : Move) (dest : FileId) (sum : Bytes) : Prop extends Planned oid world move where
  named : world.names ⟨move.destTier,move.rel⟩ = some dest
  apart : dest ≠ move.source
  held : content world dest = sum

/-- Unless something was written through the file system since the first INSPECT, the
bytes are those of the source, `upTo` there. -/
def Reads (oid : Oid) (world : World) (move : Move) (read : Bytes) (upTo : Nat) : Prop :=
  ∀ inode ∈ world.inodes oid, inode.writeSeq = move.writeSeq → read = (content world move.source).take upTo

structure Verified (oid : Oid) (world : World) (maps : Nat) (move : Move) (dest : FileId) (sum : Bytes) : Prop
    extends Copied oid world move dest sum where
  unmapped : maps = 0
  same : ∀ inode ∈ world.inodes oid, inode.writeSeq = move.writeSeq → sum = content world move.source

def Knows (oid : Oid) (world : World) (maps : Nat) : Worker → Prop
  | .idle => True
  | .inspected move => Under oid world move
  | .planned move | .stated move _ => Planned oid world move
  | .copying move _ _ dest read => Copied oid world move dest read
  | .copied move _ dest sum | .compared move _ dest sum => Copied oid world move dest sum
  | .hashing move dest sum read => Copied oid world move dest sum ∧ maps = 0 ∧ Reads oid world move read read.length
  | .hashed move dest sum | .verified move dest sum | .draining move dest sum => Verified oid world maps move dest sum

/-- Only the bytes of the object's lower file and what a move does not look at change,
the bytes not without `write_seq`. -/
structure Frame (oid : Oid) (world after : World) (quiet : Bool) : Prop where
  inodes : ∀ inode ∈ after.inodes oid, ∃ old ∈ world.inodes oid, inode.lowerPath.file = old.lowerPath.file ∧
    inode.relPath = old.relPath ∧ inode.intendedTier = old.intendedTier ∧ old.writeSeq ≤ inode.writeSeq ∧
    (quiet = true → inode.writeSeq = old.writeSeq → after.files old.lowerPath.file = world.files old.lowerPath.file)
  names : after.names = world.names
  files : ∀ file, (∀ old ∈ world.inodes oid, file ≠ old.lowerPath.file) → after.files file = world.files file

section Frames

variable {oid : Oid} {world after : World} {quiet : Bool} {move : Move} {dest : FileId} {sum : Bytes}

theorem Under.frame (under : Under oid world move) (frame : Frame oid world after quiet) : Under oid after move := by
  intro inode there
  obtain ⟨old,before,file,path,_,later,_⟩ := frame.inodes inode there
  obtain ⟨source,rel,seq⟩ := under old before
  exact ⟨file.trans source,path.trans rel,Nat.le_trans seq later⟩

theorem Planned.frame (planned : Planned oid world move) (frame : Frame oid world after quiet) : Planned oid after move := by
  refine ⟨planned.under.frame frame,fun inode there => ?_⟩
  obtain ⟨old,before,_,_,tier,_⟩ := frame.inodes inode there
  exact tier.trans (planned.tier old before)

theorem Copied.frame (copied : Copied oid world move dest sum) (frame : Frame oid world after quiet) :
    Copied oid after move dest sum := by
  refine ⟨copied.toPlanned.frame frame,frame.names ▸ copied.named,copied.apart,?_⟩
  have untouched : after.files dest = world.files dest := by
    refine frame.files dest (fun old before same => copied.apart ?_)
    exact same.trans (copied.under old before).1
  rw [content,untouched]
  exact copied.held

theorem source_frame (under : Under oid world move) (frame : Frame oid world after true) {inode : Inode}
    (there : inode ∈ after.inodes oid) (seq : inode.writeSeq = move.writeSeq) :
    ∃ old ∈ world.inodes oid, old.writeSeq = move.writeSeq ∧ content after move.source = content world move.source := by
  obtain ⟨old,before,_,_,_,later,bytes⟩ := frame.inodes inode there
  obtain ⟨source,_,first⟩ := under old before
  have same : old.writeSeq = move.writeSeq := by omega
  have kept := bytes rfl (by omega)
  rw [source] at kept
  exact ⟨old,before,same,by rw [content,kept]; rfl⟩

theorem knows_frame {worker : Worker} {maps rest : Nat} (knows : Knows oid world maps worker)
    (frame : Frame oid world after (verifies worker)) (unmapped : verifies worker = true → rest = 0) :
    Knows oid after rest worker := by
  cases worker with
  | idle => trivial
  | inspected move => exact Under.frame knows frame
  | planned move | stated move before => exact Planned.frame knows frame
  | copying move before size dest read | copied move before dest sum | compared move before dest sum => exact Copied.frame knows frame
  | hashing move dest sum read =>
    obtain ⟨copied,_,reads⟩ := knows
    refine ⟨copied.frame frame,unmapped rfl,fun inode there seq => ?_⟩
    obtain ⟨old,before,same,bytes⟩ := source_frame copied.under frame there seq
    rw [bytes]
    exact reads old before same
  | hashed move dest sum | verified move dest sum | draining move dest sum =>
    refine ⟨knows.toCopied.frame frame,unmapped rfl,fun inode there seq => ?_⟩
    obtain ⟨old,before,same,bytes⟩ := source_frame knows.under frame there seq
    rw [bytes]
    exact knows.same old before same

end Frames

section Step

variable {oid : Oid} {state : State}

variable {world : World} {inode : Inode}

theorem frame_setInode (found : world.inodes oid = some inode) (new : Inode)
    (file : new.lowerPath.file = inode.lowerPath.file) (path : new.relPath = inode.relPath)
    (tier : new.intendedTier = inode.intendedTier) (seq : inode.writeSeq ≤ new.writeSeq) (quiet : Bool) :
    Frame oid world (world.setInode oid new) quiet := by
  refine ⟨fun other there => ?_,rfl,fun _ _ => rfl⟩
  cases mem_setInode there
  exact ⟨inode,found,file,path,tier,seq,fun _ _ => rfl⟩

variable {maps : Nat}

theorem knows_setMapped {state : State} (knows : Knows oid state.world state.maps state.worker)
    (unmapped : verifies state.worker = true → maps = 0) :
    Knows oid (setMapped oid state maps).world (setMapped oid state maps).maps (setMapped oid state maps).worker := by
  unfold setMapped
  split
  · exact knows
  · next inode found =>
    exact knows_frame knows (frame_setInode found {inode with mapped := 0 < maps} rfl rfl rfl (Nat.le_refl _) _) unmapped

theorem change_files {world : World} {inode : Inode} {pos : Nat} {data : Bytes} {mtime : Nat} {file : FileId}
    (other : file ≠ inode.lowerPath.file) : (change world inode pos data mtime).files file = world.files file :=
  Function.update_of_ne other ..

variable {data : Bytes}

theorem knows_store {pos mtime : Nat} (knows : Knows oid state.world state.maps state.worker)
    (found : state.world.inodes oid = some inode) (open_ : verifies state.worker = false) :
    Knows oid (change state.world inode pos data mtime) state.maps state.worker := by
  refine knows_frame knows ⟨fun other there => ?_,rfl,fun file apart => ?_⟩ (fun verifying => ?_)
  · exact ⟨other,there,rfl,rfl,rfl,Nat.le_refl _,fun quiet => absurd (open_.symm.trans quiet) (by decide)⟩
  · exact change_files (apart inode found)
  · exact absurd (open_.symm.trans verifying) (by decide)

theorem unmapped_of_verifies {worker : Worker} (knows : Knows oid world maps worker)
    (verifying : verifies worker = true) : maps = 0 := by
  cases worker with
  | hashing move dest sum read => exact knows.2.1
  | hashed move dest sum | verified move dest sum | draining move dest sum => exact knows.unmapped
  | _ => cases verifying

theorem knows_write {pos mtime : Nat} (knows : Knows oid state.world state.maps state.worker)
    (found : state.world.inodes oid = some inode) :
    Knows oid ((change state.world inode pos data mtime).setInode oid {inode with writeSeq := inode.writeSeq + 1}) state.maps
      state.worker := by
  refine knows_frame knows ⟨fun other there => ?_,rfl,fun file apart => ?_⟩ (unmapped_of_verifies knows)
  · cases mem_setInode there
    exact ⟨inode,found,rfl,rfl,rfl,Nat.le_succ _,fun _ seq => absurd seq (Nat.succ_ne_self _)⟩
  · exact change_files (apart inode found)

variable {next : State} {label : Label}

theorem knows_env (knows : Knows oid state.world state.maps state.worker)
    (guard : Unmapped state label) (taken : step oid state label = some next) (beside : ∀ count fault, label ≠ .worker count fault) :
    Knows oid next.world next.maps next.worker := by
  cases label with
  | mmapTest =>
    simp only [step] at taken
    split at taken
    · cases taken
    cases taken
    exact knows
  | mmapLink =>
    simp only [step] at taken
    split at taken
    · cases taken
    cases taken
    have open_ : verifies state.worker = false := guard
    exact knows_setMapped knows
      (fun verifying => absurd (open_.symm.trans verifying) (by decide))
  | munmap =>
    simp only [step] at taken
    split at taken
    · cases taken
    next mapped =>
    cases taken
    exact knows_setMapped knows (fun verifying => absurd (unmapped_of_verifies knows verifying) mapped)
  | store pos data mtime =>
    obtain ⟨inode,found,stored⟩ := Option.bind_eq_some_iff.mp taken
    split at stored
    · cases stored
    next fits =>
    cases stored
    have mapped : ¬ state.maps = 0 := fun none_ => fits (.inl none_)
    exact knows_store knows found (Bool.eq_false_iff.mpr fun verifying => mapped (unmapped_of_verifies knows verifying))
  | write pos data =>
    obtain ⟨inode,found,written⟩ := Option.bind_eq_some_iff.mp taken
    split at written
    · cases written
    cases written
    exact knows_write knows found
  | revokeMappings | reconcile =>
    cases taken
    exact knows
  | begin_ destTier seq =>
    simp only [step] at taken
    split at taken
    · next inode _ found =>
      obtain ⟨rel,path,rfl⟩ := Option.map_eq_some_iff.mp taken
      intro other there
      cases found.symm.trans there
      exact ⟨rfl,path,Nat.le_refl _⟩
    · cases taken
  | worker count fault => exact absurd rfl (beside count fault)

variable {move : Move}

theorem openDestination_spec {after : World} {dest : FileId} (opened : openDestination world move = some (after,dest)) :
    after.inodes = world.inodes ∧ after.names ⟨move.destTier,move.rel⟩ = some dest ∧ dest ≠ move.source ∧ content after dest = [] := by
  cases named : world.names ⟨move.destTier,move.rel⟩ with
  | some file =>
    simp only [openDestination,named] at opened
    split at opened
    · cases opened
    next apart =>
    cases opened
    exact ⟨rfl,named,apart,by simp [content,setContent,World.setFile]⟩
  | none =>
    simp only [openDestination,named] at opened
    split at opened
    · cases opened
    next apart =>
    cases opened
    refine ⟨rfl,Function.update_self ..,apart,?_⟩
    simp [content,World.create,World.setFile]

theorem Planned.of_inodes {after : World} (planned : Planned oid world move)
    (inodes : after.inodes = world.inodes) : Planned oid after move :=
  ⟨fun inode there => planned.under inode (inodes ▸ there),fun inode there => planned.tier inode (inodes ▸ there)⟩

theorem window_next (bytes read : Bytes) (count : Nat) (prefix_ : read = bytes.take read.length) :
    read ++ window bytes read.length count = bytes.take (read ++ window bytes read.length count).length := by
  rw [List.length_append,List.take_add]
  congr 1
  rw [window,List.length_take]
  simp

variable {count : Nat}

theorem window_end {bytes read : Bytes} (positive : count ≠ 0) (ended : window bytes read.length count = []) :
    bytes.length ≤ read.length := by
  have lengths := congrArg List.length ended
  rw [length_window,List.length_nil] at lengths
  omega

variable (knows : Knows oid state.world state.maps state.worker)
include knows

theorem knows_worker {fault : CutoverFault}
    (guard : Unmapped state (.worker count fault)) (taken : workerStep oid state count fault = some next) :
    Knows oid next.world next.maps next.worker := by
  unfold workerStep at taken
  cases phase : state.worker with
  | idle => simp [phase] at taken
  | inspected move =>
    simp only [phase] at taken knows
    rcases movementPlan_spec state.world oid move.destTier move.seq false with ⟨errno,same⟩ | ⟨inode,found,_,_,_,_,same⟩
    · rw [same] at taken
      cases taken
      trivial
    rw [same] at taken
    cases taken
    refine ⟨fun other there => ?_,fun other there => ?_⟩
    · rw [mem_setInode there]
      exact knows inode found
    · rw [mem_setInode there]
  | planned move =>
    simp only [phase] at taken knows
    cases taken
    exact knows
  | stated move before =>
    simp only [phase] at taken knows
    obtain ⟨⟨world,dest⟩,opened,rfl⟩ := Option.map_eq_some_iff.mp taken
    obtain ⟨inodes,named,apart,empty⟩ := openDestination_spec opened
    exact ⟨Planned.of_inodes knows inodes,named,apart,empty⟩
  | copying move before size dest read =>
    simp only [phase] at taken knows
    split at taken
    · cases taken
    split at taken
    · cases taken
      split
      · exact knows
      · trivial
    · cases taken
      refine ⟨Planned.of_inodes knows.toPlanned rfl,knows.named,knows.apart,?_⟩
      simp [content,setContent,World.setFile,← knows.held]
  | copied move before dest sum =>
    simp only [phase] at taken knows
    cases taken
    split
    · exact knows
    · trivial
  | compared move before dest sum =>
    simp only [phase] at taken knows
    simp only [Unmapped,BeginsUnmapped,phase] at guard
    cases taken
    split
    · exact ⟨knows,guard,fun _ _ _ => rfl⟩
    · trivial
  | hashing move dest sum read =>
    simp only [phase] at taken knows
    obtain ⟨copied,unmapped,reads⟩ := knows
    split at taken
    · cases taken
    next positive =>
    split at taken
    · next ended =>
      cases taken
      split
      · next equal =>
        refine ⟨copied,unmapped,fun inode there seq => ?_⟩
        rw [← equal,reads inode there seq]
        exact List.take_of_length_le (window_end positive ended)
      · trivial
    · cases taken
      exact ⟨copied,unmapped,fun inode there seq => window_next _ _ count (reads inode there seq)⟩
  | hashed move dest sum =>
    simp only [phase] at taken knows
    split at taken
    · cases taken
      split
      · exact knows
      · trivial
    · cases taken
      trivial
  | verified move dest sum =>
    simp only [phase] at taken knows
    split at taken
    · cases taken
      trivial
    rcases cutoverBegin_spec state.world oid move.seq with ⟨errno,same⟩ | ⟨inode,found,_,_,_,same⟩
    · rw [same] at taken
      cases taken
      trivial
    rw [same] at taken
    cases taken
    have verified : Knows oid state.world state.maps (.draining move dest sum) := knows
    exact knows_frame verified (frame_setInode found (begun inode) rfl rfl rfl (Nat.le_refl _) _)
      (fun _ => knows.unmapped)
  | draining move dest sum =>
    simp only [phase] at taken
    split at taken
    · cases taken
      unfold setMapped
      split <;> trivial
    · cases taken
      trivial

theorem knows_step (guard : Unmapped state label)
    (taken : step oid state label = some next) : Knows oid next.world next.maps next.worker := by
  by_cases worker : ∃ count fault, label = .worker count fault
  · obtain ⟨count,fault,rfl⟩ := worker
    exact knows_worker knows guard taken
  · exact knows_env knows guard taken (fun count fault same => worker ⟨count,fault,same⟩)

theorem nothingLost : NothingLost oid state label := by
  cases label with
  | worker count fault =>
    cases phase : state.worker with
    | draining move dest sum =>
      simp only [NothingLost,phase] at knows ⊢
      intro swapped
      rcases cutoverFinish_spec state.world oid (some move.writeSeq) fault with
        ⟨after,errno,same,_⟩ | ⟨inode,other,found,_,resolved,same⟩
      · rw [same] at swapped
        cases swapped
      refine ⟨knows.unmapped,fun new there => ?_⟩
      rw [same] at there
      have switched : new = switchedInode inode other := mem_setInode there
      obtain ⟨seq,named,_,_⟩ := resolveCutover_ok _ _ resolved
      have loc : cutoverDest inode = ⟨move.destTier,move.rel⟩ := by
        rw [cutoverDest,knows.tier inode found,(knows.under inode found).2.1]
        rfl
      rw [loc,knows.named] at named
      cases named
      rw [switched]
      show content state.world dest = _
      rw [knows.held]
      exact knows.same inode found (seq _ rfl).symm
    | _ => simp [NothingLost,SwapKeeps,phase]
  | _ => trivial

omit knows

end Step

/-- Where the file is not mapped from the worker's second reading to the swap, the swap loses
nothing. -/
theorem swap_keeps_mapped_stores (oid : Oid) (world : World) (maps pending : Nat) (quiesced : Bool) (labels : List Label)
    (unmapped : Guarded (step oid) Unmapped ⟨world,maps,pending,quiesced,.idle⟩ labels) :
    Guarded (step oid) (NothingLost oid) ⟨world,maps,pending,quiesced,.idle⟩ labels := by
  have idle : Knows oid world maps .idle := trivial
  exact guarded_of_invariant _ (fun state => Knows oid state.world state.maps state.worker)
    (fun _ _ _ knows guard taken => knows_step knows guard taken) (fun _ _ knows _ => nothingLost knows) idle unmapped

def unmoved : State where
  world := {copied with
    names := fun loc => if loc = ⟨0,["f"]⟩ then some 0 else none
    files := fun _ => ⟨true,[1,2],⟨0o644,0,[]⟩,none,false,0⟩}
  maps := 0
  pending := 0
  mappingsQuiesced := false
  worker := .idle

def works (count : Nat) : List Label := List.replicate count (.worker 2 .none)

def storing : List Label := [.mmapTest,.mmapLink,.store 0 [9] 0,.munmap]

theorem swap_keeps_early_store : Guarded (step 0) (NothingLost 0) unmoved (storing ++ .begin_ 1 1 :: works 12) ∧
    (run (step 0) unmoved (storing ++ .begin_ 1 1 :: works 12)).map (fun state => (state.world.inodes 0).map (·.currentTier)) =
      some (some 1) :=
  ⟨swap_keeps_mapped_stores 0 _ _ _ _ _ (by decide),by decide⟩

/-- A store between the second reading and the test, and a mapping made during the drain. -/
theorem swap_loses_mapped_store :
    ¬ Guarded (step 0) (NothingLost 0) unmoved (.begin_ 1 1 :: works 10 ++ storing ++ works 2) ∧
    ¬ Guarded (step 0) (NothingLost 0) unmoved (.begin_ 1 1 :: works 11 ++ [.mmapTest,.mmapLink] ++ works 1) := by
  decide

end Smoothfs.Mappings
