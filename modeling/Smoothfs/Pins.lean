import Smoothfs.CutoverSteps
import Smoothfs.Library.LinkCount
import Smoothfs.Library.Run

/-! The pin of an inode and its count of links. A plan looks at both; link, unlink and
the two pin xattrs change them at any time, and the swap looks at neither. The lower
file system keeps a count of its own for each of its files. -/
namespace Smoothfs.Pins

open Movement Run LinkCount Function

def lowerFile (inode : Inode) : Nat × FileId := (inode.lowerPath.mnt,inode.lowerPath.file)

abbrev LinkCounts := Nat × FileId → Nat

def tierNames (world : World) (loc : Loc) : Option (Nat × FileId) :=
  (world.names loc).map (Prod.mk loc.dir)

/-- Every lower file system counts at least the names it has. -/
def Consistent (world : World) (nlink : LinkCounts) : Prop :=
  Enough (tierNames world) nlink

def linkedInode (inode : Inode) : Inode :=
  {inode with
    nlinkObserved := inode.nlinkObserved + 1
    pinState := if inode.nlinkObserved + 1 > 1 ∧ inode.pinState = .none then .hardlink else inode.pinState}

/-- `smoothfs_forget_placement` follows when the upper link count has come to zero. -/
def unlinkedInode (last : Bool) (inode : Inode) : Inode :=
  {inode with
    nlinkObserved := inode.nlinkObserved - 1
    pinState := if inode.nlinkObserved - 1 ≤ 1 ∧ inode.pinState = .hardlink then .none else inode.pinState
    linked := !last
    relPath := if last then none else inode.relPath}

def link (world : World) (nlink : LinkCounts) (oid : Oid) (parent : Nat) (source target : RelPath) :
    Except Errno (World × LinkCounts) :=
  match world.inodes oid with
  | none => .error .enoent
  | some inode =>
    if world.names ⟨inode.lowerPath.mnt,source⟩ ≠ some inode.lowerPath.file then .error .enoent
    else if inode.lowerPath.mnt ≠ parent then .error .exdev
    else if (world.names ⟨parent,target⟩).isSome then .error .eexist
    else .ok ((world.setName ⟨parent,target⟩ (some inode.lowerPath.file)).setInode oid (linkedInode inode),
      update nlink (lowerFile inode) (nlink (lowerFile inode) + 1))

def Named (world : World) (inode : Inode) (rel : RelPath) : Prop :=
  world.names ⟨inode.lowerPath.mnt,rel⟩ = some inode.lowerPath.file

instance (world : World) (inode : Inode) (rel : RelPath) : Decidable (Named world inode rel) := inferInstanceAs (Decidable (_ = _))

def unlink (world : World) (nlink : LinkCounts) (oid : Oid) (rel : RelPath) (last : Bool) : Except Errno (World × LinkCounts) :=
  match world.inodes oid with
  | none => .error .enoent
  | some inode =>
    if Named world inode rel then
      .ok ((world.setName ⟨inode.lowerPath.mnt,rel⟩ none).setInode oid (unlinkedInode last inode),
        update nlink (lowerFile inode) (nlink (lowerFile inode) - 1))
    else
      -- The lower file has lost the name before, and the unlink of the stale dentry succeeds.
      .ok (world.setInode oid (unlinkedInode last inode),nlink)

def wanted : Option Bytes → Except Errno Bool
  | none => .ok false
  | some [0] => .ok false
  | some [1] => .ok true
  | some _ => .error .einval

def trustedXattrSet (slot : PinState) (capable : Bool) (value : Option Bytes) (inode : Inode) : Except Errno Inode :=
  if ¬ capable then .error .eperm
  else
    match wanted value with
    | .error errno => .error errno
    | .ok true =>
      if inode.pinState = .none then .ok {inode with pinState := slot}
      else if inode.pinState ≠ slot then .error .ebusy
      else .ok inode
    | .ok false => .ok (if inode.pinState = slot then {inode with pinState := .none} else inode)

def setLease := trustedXattrSet .lease

def setLun := trustedXattrSet .lun

variable {rel : RelPath}

section Specs

variable {world after : World} {nlink counts : LinkCounts} {oid : Oid}

theorem link_spec {parent : Nat} {source target : RelPath} (done : link world nlink oid parent source target = .ok (after,counts)) :
    ∃ inode, world.inodes oid = some inode ∧ inode.lowerPath.mnt = parent ∧
      after = (world.setName ⟨parent,target⟩ (some inode.lowerPath.file)).setInode oid (linkedInode inode) ∧
      counts = update nlink (lowerFile inode) (nlink (lowerFile inode) + 1) := by
  unfold link at done
  split at done
  · cases done
  next inode found =>
  split at done
  · cases done
  split at done
  · cases done
  next near =>
  split at done
  · cases done
  cases done
  exact ⟨inode,found,not_not.mp near,rfl,rfl⟩

theorem unlink_spec {last : Bool} (done : unlink world nlink oid rel last = .ok (after,counts)) :
    ∃ inode, world.inodes oid = some inode ∧
      (Named world inode rel ∧ after = (world.setName ⟨inode.lowerPath.mnt,rel⟩ none).setInode oid (unlinkedInode last inode) ∧
          counts = update nlink (lowerFile inode) (nlink (lowerFile inode) - 1) ∨
        ¬ Named world inode rel ∧ after = world.setInode oid (unlinkedInode last inode) ∧ counts = nlink) := by
  unfold unlink at done
  split at done
  · cases done
  next inode found =>
  split at done
  · next named =>
    cases done
    exact ⟨inode,found,.inl ⟨named,rfl,rfl⟩⟩
  · next gone =>
    cases done
    exact ⟨inode,found,.inr ⟨gone,rfl,rfl⟩⟩

theorem trustedXattrSet_spec {slot : PinState} {capable : Bool} {value : Option Bytes} {inode next : Inode}
    (done : trustedXattrSet slot capable value inode = .ok next) :
    ∃ pin, next = {inode with pinState := pin} ∧
      (pin = inode.pinState ∨ (pin = .none ∧ inode.pinState = slot ∧ wanted value = .ok false) ∨
        pin = slot ∧ wanted value = .ok true) := by
  unfold trustedXattrSet at done
  split at done
  · cases done
  split at done
  · cases done
  next asked =>
    split at done
    · cases done
      exact ⟨slot,rfl,.inr (.inr ⟨rfl,asked⟩)⟩
    split at done
    · cases done
    cases done
    exact ⟨_,rfl,.inl rfl⟩
  next asked =>
  split at done
  · next own =>
    cases done
    exact ⟨.none,rfl,.inr (.inl ⟨rfl,own,asked⟩)⟩
  · cases done
    exact ⟨_,rfl,.inl rfl⟩

end Specs

/-- `forced` says whether the last plan was a forced one, `untouched` that since then the lower file
got and lost no link and no pin was set, but a lease if it was forced. -/
structure State where
  world : World
  nlink : LinkCounts
  forced : Bool
  untouched : Bool

/-- A cutover is two labels: it drops the inode lock to drain the writers. `last` of an unlink says
whether the upper link count has come to zero. -/
inductive Label
  | plan (destTier seq : Nat) (force : Bool)
  | link (parent : Nat) (source target : RelPath)
  | unlink (rel : RelPath) (last : Bool)
  | lease (capable : Bool) (value : Option Bytes)
  | lun (capable : Bool) (value : Option Bytes)
  | cutoverBegin (seq : Nat)
  | cutoverFinish (expected : Option Nat) (fault : CutoverFault)
  | rollback (seq : Nat)
  | complete (seq : Nat)
  deriving DecidableEq, Repr

def State.pin (oid : Oid) (state : State) (allowed : Bool) (value : Option Bytes) (set : Inode → Except Errno Inode) : Option State :=
  match (state.world.inodes oid).map set with
  | some (.ok inode) => some {state with
      world := state.world.setInode oid inode
      untouched := state.untouched && (allowed || wanted value ≠ .ok true)}
  | _ => none

def step (oid : Oid) (state : State) : Label → Option State
  | .plan destTier seq force =>
    match movementPlan state.world oid destTier seq force with
    | (world,.ok ()) => some ⟨world,state.nlink,force,true⟩
    | (_,.error _) => none
  | .link parent source target =>
    match link state.world state.nlink oid parent source target with
    | .ok (world,nlink) => some ⟨world,nlink,state.forced,false⟩
    | .error _ => none
  | .unlink rel last =>
    match unlink state.world state.nlink oid rel last with
    | .ok (world,nlink) =>
      some ⟨world,nlink,state.forced,state.untouched && ¬ (state.world.inodes oid).any fun inode => Named state.world inode rel⟩
    | .error _ => none
  | .lease capable value => state.pin oid state.forced value (setLease capable value)
  | .lun capable value => state.pin oid false value (setLun capable value)
  | .cutoverBegin seq =>
    if state.world.pool.quiesced then none else some {state with world := (cutoverBegin state.world oid seq).1}
  | .cutoverFinish expected fault => some {state with world := (cutoverFinish state.world oid expected fault).1}
  | .rollback seq => some {state with world := (movementRollback state.world oid seq).1}
  | .complete seq => some {state with world := (movementComplete state.world oid seq).1}

def Movable (state : State) (inode : Inode) : Prop :=
  state.nlink (lowerFile inode) = 1 ∧ (inode.pinState = .none ∨ inode.pinState = .lease ∧ state.forced = true)

instance (state : State) (inode : Inode) : Decidable (Movable state inode) := inferInstanceAs (Decidable (_ ∧ _))

/-- If the label swaps `lower_path`, the source is movable at that moment. -/
def Honoured (oid : Oid) (state : State) : Label → Prop
  | .cutoverFinish expected fault => (cutoverFinish state.world oid expected fault).2 = .ok () →
      ∀ inode ∈ state.world.inodes oid, Movable state inode
  | _ => True

/-- The unlink of a name takes a link that the lower file has, or one that was counted too many. -/
def CountedUnlink (world : World) (nlink : LinkCounts) (oid : Oid) (rel : RelPath) : Prop :=
  ∀ inode ∈ world.inodes oid, Named world inode rel ∨ (nlink (lowerFile inode) : Int) < inode.nlinkObserved

instance (world : World) (nlink : LinkCounts) (oid : Oid) (rel : RelPath) : Decidable (CountedUnlink world nlink oid rel) :=
  inferInstanceAs (Decidable (∀ inode ∈ world.inodes oid, _ ∨ (_ : Int) < _))

/-- A plan is made for a file that has a name, and no unlink counts below the links. At a swap
neither links nor pins were touched since, and the destination has one link. -/
def Untouched (oid : Oid) (state : State) : Label → Prop
  | .plan _ _ _ => ∀ inode ∈ state.world.inodes oid, state.nlink (lowerFile inode) ≠ 0
  | .unlink rel _ => CountedUnlink state.world state.nlink oid rel
  | .cutoverFinish expected fault => (cutoverFinish state.world oid expected fault).2 = .ok () →
      state.untouched = true ∧ ∀ inode ∈ (cutoverFinish state.world oid expected fault).1.inodes oid,
        state.nlink (lowerFile inode) = 1
  | _ => True

instance (oid : Oid) (state : State) (label : Label) : Decidable (Honoured oid state label) := by
  cases label <;> unfold Honoured <;> infer_instance

instance (oid : Oid) (state : State) (label : Label) : Decidable (Untouched oid state label) := by
  cases label <;> unfold Untouched <;> infer_instance

def Counted (nlink : LinkCounts) (inode : Inode) : Prop :=
  (nlink (lowerFile inode) : Int) ≤ inode.nlinkObserved

instance (nlink : LinkCounts) (inode : Inode) : Decidable (Counted nlink inode) :=
  inferInstanceAs (Decidable ((nlink (lowerFile inode) : Int) ≤ inode.nlinkObserved))

section Counting

variable {world : World} {nlink : LinkCounts} {inode : Inode}

theorem tierNames_setName (world : World) (loc : Loc) (file : Option FileId) :
    tierNames (world.setName loc file) = update (tierNames world) loc (file.map (Prod.mk loc.dir)) := by
  funext other
  by_cases same : other = loc
  · subst same
    simp [tierNames,World.setName]
  · simp [tierNames,World.setName,same]

theorem Consistent.congr {after : World} (consistent : Consistent world nlink) (names : after.names = world.names) :
    Consistent after nlink := by
  have same : tierNames after = tierNames world := by
    funext loc
    rw [tierNames,tierNames,names]
  rwa [Consistent,same]

theorem consistent_setName {loc : Loc} {file : Option FileId}
    (enough : Enough (update (tierNames world) loc (file.map (Prod.mk loc.dir))) nlink) :
    Consistent (world.setName loc file) nlink := by
  rwa [Consistent,tierNames_setName]

theorem Consistent.link (consistent : Consistent world nlink) (oid : Oid) (next : Inode) (target : RelPath) :
    Consistent ((world.setName ⟨inode.lowerPath.mnt,target⟩ (some inode.lowerPath.file)).setInode oid next)
      (update nlink (lowerFile inode) (nlink (lowerFile inode) + 1)) := by
  have added := Enough.add consistent ⟨inode.lowerPath.mnt,target⟩ (lowerFile inode)
  exact (consistent_setName added).congr rfl

theorem Consistent.unlink (consistent : Consistent world nlink) (oid : Oid) (next : Inode) (named : Named world inode rel) :
    Consistent ((world.setName ⟨inode.lowerPath.mnt,rel⟩ none).setInode oid next)
      (update nlink (lowerFile inode) (nlink (lowerFile inode) - 1)) := by
  have leads : tierNames world ⟨inode.lowerPath.mnt,rel⟩ = some (lowerFile inode) := by
    rw [tierNames,named]
    rfl
  exact (consistent_setName (Enough.remove consistent leads)).congr rfl

theorem Consistent.pos (consistent : Consistent world nlink) (named : Named world inode rel) :
    0 < nlink (lowerFile inode) := by
  have leads : tierNames world ⟨inode.lowerPath.mnt,rel⟩ = some (lowerFile inode) := by
    rw [tierNames,named]
    rfl
  exact Enough.pos consistent leads

theorem Counted.link (counted : Counted nlink inode) :
    Counted (update nlink (lowerFile inode) (nlink (lowerFile inode) + 1)) (linkedInode inode) := by
  unfold Counted at *
  rw [show lowerFile (linkedInode inode) = lowerFile inode from rfl,update_self]
  simp only [linkedInode]
  omega

theorem Counted.unlink (counted : Counted nlink inode) (positive : 0 < nlink (lowerFile inode)) (last : Bool) :
    Counted (update nlink (lowerFile inode) (nlink (lowerFile inode) - 1)) (unlinkedInode last inode) := by
  unfold Counted at *
  rw [show lowerFile (unlinkedInode last inode) = lowerFile inode from rfl,update_self]
  simp only [unlinkedInode]
  omega

theorem counted_stale (more : (nlink (lowerFile inode) : Int) < inode.nlinkObserved) (last : Bool) :
    Counted nlink (unlinkedInode last inode) := by
  show (nlink (lowerFile inode) : Int) ≤ inode.nlinkObserved - 1
  omega

end Counting

structure Invariant (oid : Oid) (state : State) : Prop where
  consistent : Consistent state.world state.nlink
  counted : ∀ inode ∈ state.world.inodes oid, Counted state.nlink inode
  movable : state.untouched = true → ∀ inode ∈ state.world.inodes oid, Movable state inode

section Step

variable {oid : Oid} {state next : State}

variable (invariant : Invariant oid state)
include invariant

theorem Invariant.same (world : World) (names : world.names = state.world.names)
    (keeps : ∀ inode ∈ world.inodes oid, ∃ old ∈ state.world.inodes oid,
      lowerFile inode = lowerFile old ∧ inode.nlinkObserved = old.nlinkObserved ∧ inode.pinState = old.pinState) :
    Invariant oid {state with world := world} where
  consistent := invariant.consistent.congr names
  counted inode found := by
    obtain ⟨old,before,place,count,_⟩ := keeps inode found
    unfold Counted
    rw [place,count]
    exact invariant.counted old before
  movable untouched inode found := by
    obtain ⟨old,before,place,_,pin⟩ := keeps inode found
    unfold Movable
    rw [place,pin]
    exact invariant.movable untouched old before

theorem Invariant.settle {old : Inode} (found : state.world.inodes oid = some old) (inode : Inode)
    (place : lowerFile inode = lowerFile old) (count : inode.nlinkObserved = old.nlinkObserved) (pin : inode.pinState = old.pinState) :
    Invariant oid {state with world := state.world.setInode oid inode} := by
  refine invariant.same (state.world.setInode oid inode) rfl (fun new there => ?_)
  cases mem_setInode there
  exact ⟨old,found,place,count,pin⟩

theorem Invariant.marked {after : World} (marked : Marked oid state.world after) : Invariant oid {state with world := after} := by
  obtain rfl | ⟨inode,_,_,_,found,rfl⟩ := marked
  · exact invariant
  · exact invariant.settle found _ rfl rfl rfl

theorem Invariant.refused {after : World} (refused : Refused state.world after oid) :
    Invariant oid {state with world := after} := by
  rcases refused with rfl | ⟨inode,movement,found,rfl | ⟨file,rfl⟩⟩
  · exact invariant
  · exact invariant.settle found _ rfl rfl rfl
  · refine invariant.same ((stamp state.world file oid).setInode oid _) rfl (fun new there => ?_)
    cases mem_setInode there
    exact ⟨inode,found,rfl,rfl,rfl⟩

theorem Invariant.plan {destTier seq : Nat} {force : Bool}
    (named : ∀ inode ∈ state.world.inodes oid, state.nlink (lowerFile inode) ≠ 0)
    (taken : step oid state (.plan destTier seq force) = some next) : Invariant oid next := by
  simp only [step] at taken
  rcases movementPlan_spec state.world oid destTier seq force with ⟨errno,same⟩ | ⟨inode,found,_,_,_,movable,same⟩
  · rw [same] at taken
    cases taken
  rw [same] at taken
  cases taken
  have settled := invariant.settle found
    {inode with intendedTier := destTier, movementState := .planAccepted, transactionSeq := seq} rfl rfl rfl
  refine ⟨settled.consistent,settled.counted,fun _ new there => ?_⟩
  cases mem_setInode there
  have counted : (state.nlink (lowerFile inode) : Int) ≤ inode.nlinkObserved := invariant.counted inode found
  have one := named inode found
  simp only [canMove,decide_eq_true_eq] at movable
  refine ⟨?_,?_⟩
  · show state.nlink (lowerFile inode) = 1
    omega
  · exact movable.1.imp id And.symm

theorem Invariant.finish {expected : Option Nat} {fault : CutoverFault}
    (quiet : Untouched oid state (.cutoverFinish expected fault)) :
    Invariant oid {state with world := (cutoverFinish state.world oid expected fault).1} := by
  rcases cutoverFinish_spec state.world oid expected fault with ⟨after,errno,same,refused⟩ | ⟨inode,dest,found,_,_,same⟩
  · rw [same]
    exact invariant.refused refused
  have swapped : (publish state.world oid inode dest).inodes oid = some (switchedInode inode dest) := update_self ..
  obtain ⟨untouched,single⟩ := quiet (by rw [same])
  rw [same] at single ⊢
  have one := single _ swapped
  obtain ⟨link,pin⟩ := invariant.movable untouched inode found
  have counted : (state.nlink (lowerFile inode) : Int) ≤ inode.nlinkObserved := invariant.counted inode found
  refine ⟨invariant.consistent,?_,?_⟩
  · intro new there
    cases swapped.symm.trans there
    show (state.nlink (lowerFile (switchedInode inode dest)) : Int) ≤ inode.nlinkObserved
    omega
  · intro _ new there
    cases swapped.symm.trans there
    refine ⟨one,.inl ?_⟩
    rcases pin with none_ | ⟨lease,_⟩
    · simp [switchedInode,none_]
    · simp [switchedInode,lease]

theorem Invariant.pin {slot : PinState} {allowed capable : Bool} {value : Option Bytes}
    (permits : allowed = true → slot = .lease ∧ state.forced = true)
    (taken : state.pin oid allowed value (trustedXattrSet slot capable value) = some next) : Invariant oid next := by
  unfold State.pin at taken
  split at taken
  swap
  · cases taken
  next after done =>
  obtain ⟨inode,found,set⟩ := Option.map_eq_some_iff.mp done
  obtain ⟨pin,rfl,change⟩ := trustedXattrSet_spec set
  cases taken
  refine ⟨invariant.consistent,fun new there => ?_,fun untouched new there => ?_⟩
  · cases mem_setInode there
    exact invariant.counted inode found
  · cases mem_setInode there
    simp only [Bool.and_eq_true,Bool.or_eq_true,decide_eq_true_eq] at untouched
    obtain ⟨before,kept⟩ := untouched
    obtain ⟨link,old⟩ := invariant.movable before inode found
    refine ⟨link,?_⟩
    rcases change with rfl | ⟨rfl,_⟩ | ⟨rfl,asked⟩
    · exact old
    · exact .inl rfl
    · exact .inr (permits (kept.resolve_right (not_not.mpr asked)))

omit invariant

theorem step_link {parent : Nat} {source target : RelPath} (taken : step oid state (.link parent source target) = some next) :
    ∃ world nlink, link state.world state.nlink oid parent source target = .ok (world,nlink) ∧
      next = ⟨world,nlink,state.forced,false⟩ := by
  simp only [step] at taken
  split at taken
  · next world nlink done => exact ⟨world,nlink,done,(Option.some.inj taken).symm⟩
  · cases taken

theorem step_unlink {last : Bool} (taken : step oid state (.unlink rel last) = some next) :
    ∃ world nlink, unlink state.world state.nlink oid rel last = .ok (world,nlink) ∧ next =
      ⟨world,nlink,state.forced,state.untouched && ¬ (state.world.inodes oid).any fun inode => Named state.world inode rel⟩ := by
  simp only [step] at taken
  split at taken
  · next world nlink done => exact ⟨world,nlink,done,(Option.some.inj taken).symm⟩
  · cases taken

theorem Invariant.step {label : Label} (invariant : Invariant oid state) (quiet : Untouched oid state label)
    (taken : step oid state label = some next) : Invariant oid next := by
  cases label with
  | plan destTier seq force => exact invariant.plan quiet taken
  | link parent source target =>
    obtain ⟨world,nlink,done,rfl⟩ := step_link taken
    obtain ⟨inode,found,rfl,rfl,rfl⟩ := link_spec done
    refine ⟨invariant.consistent.link oid _ target,fun new there => ?_,nofun⟩
    cases mem_setInode there
    exact Counted.link (invariant.counted inode found)
  | unlink rel last =>
    obtain ⟨world,nlink,done,rfl⟩ := step_unlink taken
    obtain ⟨inode,found,⟨named,rfl,rfl⟩ | ⟨gone,rfl,rfl⟩⟩ := unlink_spec done
    · refine ⟨invariant.consistent.unlink _ _ named,fun new there => ?_,fun untouched => ?_⟩
      · cases mem_setInode there
        exact Counted.unlink (invariant.counted inode found) (invariant.consistent.pos named) _
      · simp [found,named] at untouched
    · refine ⟨invariant.consistent.congr rfl,fun new there => ?_,fun untouched new there => ?_⟩
      · cases mem_setInode there
        exact counted_stale ((quiet inode found).resolve_left gone) last
      · cases mem_setInode there
        obtain ⟨single,pin⟩ := invariant.movable (Bool.and_eq_true_iff.mp untouched).1 inode found
        refine ⟨single,pin.imp (fun free => ?_) fun ⟨leased,forced⟩ => ⟨?_,forced⟩⟩
        · simp [unlinkedInode,free]
        · simp [unlinkedInode,leased]
  | lease capable value => exact invariant.pin (fun forced => ⟨rfl,forced⟩) taken
  | lun capable value => exact invariant.pin (fun (never : false = true) => nomatch never) taken
  | cutoverBegin seq =>
    simp only [Pins.step] at taken
    split at taken
    · cases taken
    cases taken
    exact invariant.marked (cutoverBegin_marked state.world oid seq)
  | cutoverFinish expected fault =>
    cases taken
    exact invariant.finish quiet
  | rollback seq =>
    cases taken
    exact invariant.marked (settle_marked state.world oid seq _)
  | complete seq =>
    cases taken
    exact invariant.marked (settle_marked state.world oid seq _)

end Step

def start (world : World) (nlink : LinkCounts) : State := ⟨world,nlink,false,false⟩

/-- Where neither links nor pins are touched between a plan and its swap, the swap honours them. -/
theorem swap_honours_pins (oid : Oid) (world : World) (nlink : LinkCounts) (labels : List Label) (consistent : Consistent world nlink)
    (counted : ∀ inode ∈ world.inodes oid, Counted nlink inode)
    (untouched : Guarded (step oid) (Untouched oid) (start world nlink) labels) :
    Guarded (step oid) (Honoured oid) (start world nlink) labels := by
  refine guarded_of_invariant _ (Invariant oid) (fun _ _ _ invariant quiet taken => invariant.step quiet taken) ?_
    ⟨consistent,counted,nofun⟩ untouched
  intro state label invariant quiet
  cases label with
  | cutoverFinish expected fault => exact fun swaps => invariant.movable (quiet swaps).1
  | _ => trivial

theorem copied_consistent : Consistent copied (fun _ => 1) := by
  intro file listed distinct leads
  have same (name : Loc) (member : name ∈ listed) : name = ⟨file.1,["f"]⟩ := by
    have led := leads name member
    simp only [tierNames,copied] at led
    split at led
    · next here =>
      obtain ⟨rfl,rfl⟩ := here
      cases led
      rfl
    · split at led
      · next here =>
        obtain ⟨rfl,rfl⟩ := here
        cases led
        rfl
      · cases led
  match listed, distinct, same with
  | [], _, _ => exact Nat.zero_le 1
  | [_], _, _ => exact Nat.le_refl 1
  | one::two::rest, distinct, same =>
    have equal : one = two := (same one (by simp)).trans (same two (by simp)).symm
    simp [equal] at distinct

theorem swap_honours_lease_under_force : Guarded (step 0) (Honoured 0) (start copied (fun _ => 1))
    [.lease true (some [1]),.plan 1 1 true,.cutoverBegin 1,.cutoverFinish none .none] :=
  swap_honours_pins 0 copied (fun _ => 1) _ copied_consistent (by decide) (by decide)

theorem swap_of_linked_file :
    ¬ Guarded (step 0) (Honoured 0) (start copied (fun _ => 1))
      [.plan 1 1 false,.link 0 ["f"] ["g"],.cutoverBegin 1,.cutoverFinish none .none] ∧
    ¬ Guarded (step 0) (Honoured 0) (start copied (fun _ => 1))
      [.plan 1 1 false,.cutoverBegin 1,.link 0 ["f"] ["g"],.cutoverFinish none .none] ∧
    ¬ Guarded (step 0) (Honoured 0) (start copied (fun _ => 1))
      [.plan 1 1 false,.lun true (some [1]),.cutoverBegin 1,.cutoverFinish none .none] ∧
    ¬ Guarded (step 0) (Honoured 0) (start copied (fun _ => 1))
      [.plan 1 1 false,.lease true (some [1]),.cutoverBegin 1,.cutoverFinish none .none] := by
  decide

end Smoothfs.Pins
