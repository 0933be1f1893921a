import Smoothfs.Pins

/-! SMB leases and the lease pin. Every smbd process sets the pin when it gets a lease
on an open file and removes it when it gives the lease up; all of them share one pin,
which link, unlink and the LUN xattr use too. -/
namespace Smoothfs.Leases

open Movement Pins Run

inductive LeaseType
  | rdlck | wrlck | unlck
  deriving DecidableEq, Repr

structure Handle where
  process : Nat
  fsp : Nat
  deriving DecidableEq, Repr

/-- `granted` are the leases not released since, and since when no forced move was cut over. -/
structure State where
  pins : Pins.State
  granted : List Handle

/-- `next` is the result of the next module, `smoothfs` what the connection found the share to be,
`capable` whether the process may set trusted xattrs. -/
inductive Label
  | setlease (handle : Handle) (leasetype : LeaseType) (next smoothfs capable : Bool)
  | event (process pid : Nat) (capable : Bool)
  | other (label : Pins.Label)
  deriving DecidableEq, Repr

def State.xattr (oid : Oid) (state : State) (capable : Bool) (value : Option Bytes) : State :=
  match (state.pins.world.inodes oid).map (setLease capable value) with
  | some (.ok inode) => {state with pins := {state.pins with world := state.pins.world.setInode oid inode}}
  | _ => state

def linuxSetlease (oid : Oid) (state : State) (handle : Handle) (leasetype : LeaseType) (next smoothfs capable : Bool) : State :=
  if ¬ next then state
  else
    let leased := {state with
      granted := if leasetype = .unlck then state.granted.erase handle else state.granted.insert handle}
    if ¬ smoothfs then leased
    else leased.xattr oid capable (if leasetype = .unlck then none else some [1])

/-- Up to the removal of the pin. -/
def fanotifyEvent (oid : Oid) (state : State) (process pid : Nat) (capable : Bool) : State :=
  if pid = process then state
  else if ((state.pins.world.inodes oid).all fun inode => (state.pins.world.files inode.lowerPath.file).regular) = true then
    state.xattr oid capable none
  else state

def swaps (oid : Oid) (state : Pins.State) : Pins.Label → Bool
  | .cutoverFinish expected fault => (cutoverFinish state.world oid expected fault).2 = .ok ()
  | _ => false

def leaseXattr : Pins.Label → Bool
  | .lease _ _ => true
  | _ => false

def step (oid : Oid) (state : State) : Label → Option State
  | .setlease handle leasetype next smoothfs capable => some (linuxSetlease oid state handle leasetype next smoothfs capable)
  | .event process pid capable => some (fanotifyEvent oid state process pid capable)
  | .other label =>
    if leaseXattr label then none
    else (Pins.step oid state.pins label).map fun pins =>
      ⟨pins,if swaps oid state.pins label ∧ state.pins.forced then [] else state.granted⟩

def Protected (oid : Oid) (state : State) : Prop :=
  state.granted ≠ [] → ∀ inode ∈ state.pins.world.inodes oid, inode.pinState ≠ .none

def Drops (oid : Oid) (state : Pins.State) (inode : Inode) : Pins.Label → Prop
  | .unlink _ _ => inode.nlinkObserved - 1 ≤ 1 ∧ inode.pinState = .hardlink
  | .lun _ value => inode.pinState = .lun ∧ wanted value = .ok false
  | .cutoverFinish expected fault => inode.pinState = .lease ∧ swaps oid state (.cutoverFinish expected fault) = true
  | _ => False

/-- A lease is released when no other is held. Grants reach the pin. While leases are held no
foreign event is handled, and only a forced move drops the pin. -/
def Careful (oid : Oid) (state : State) : Label → Prop
  | .setlease handle .unlck next _ _ => next = true → state.granted.erase handle = []
  | .setlease _ _ next smoothfs capable => next = true → smoothfs = true ∧ capable = true
  | .event process pid _ => pid = process ∨ state.granted = []
  | .other label => state.granted = [] ∨ swaps oid state.pins label = true ∧ state.pins.forced = true ∨
      ∀ inode ∈ state.pins.world.inodes oid, ¬ Drops oid state.pins inode label

instance (oid : Oid) (state : State) : Decidable (Protected oid state) := inferInstanceAs (Decidable (_ → _))

instance (oid : Oid) (state : Pins.State) (inode : Inode) : (label : Pins.Label) → Decidable (Drops oid state inode label)
  | .unlink _ _ | .lun _ _ | .cutoverFinish _ _ => inferInstanceAs (Decidable (_ ∧ _))
  | .plan _ _ _ | .link _ _ _ | .lease _ _ | .cutoverBegin _ | .rollback _ | .complete _ => instDecidableFalse

instance (oid : Oid) (state : State) : (label : Label) → Decidable (Careful oid state label)
  | .setlease _ .unlck _ _ _ | .setlease _ .rdlck _ _ _ | .setlease _ .wrlck _ _ _ => inferInstanceAs (Decidable (_ → _))
  | .event _ _ _ | .other _ => inferInstanceAs (Decidable (_ ∨ _))

section Step

variable {oid : Oid} {state : State}

theorem xattr_granted (oid : Oid) (state : State) (capable : Bool) (value : Option Bytes) :
    (state.xattr oid capable value).granted = state.granted := by
  unfold State.xattr
  split <;> rfl

theorem xattr_set (oid : Oid) (state : State) :
    ∀ inode ∈ (state.xattr oid true (some [1])).pins.world.inodes oid, inode.pinState ≠ .none := by
  intro inode there
  unfold State.xattr at there
  cases found : state.pins.world.inodes oid with
  | none => simp [found] at there
  | some old =>
    simp only [found,Option.map_some,setLease,trustedXattrSet,wanted,not_true_eq_false] at there
    by_cases free : old.pinState = .none
    · simp only [free] at there
      rw [mem_setInode there]
      nofun
    by_cases leased : old.pinState = .lease
    · simp only [leased] at there
      rw [mem_setInode there,leased]
      nofun
    · simp only [free,leased,if_false,ne_eq,not_false_eq_true,if_true,found] at there
      rwa [Option.some.inj there] at free

theorem pin_lost {pins next : Pins.State} {label : Pins.Label} (taken : Pins.step oid pins label = some next)
    (foreign : ¬ leaseXattr label = true) {inode : Inode} (there : inode ∈ next.world.inodes oid)
    (gone : inode.pinState = .none) : ∃ old ∈ pins.world.inodes oid, old.pinState = .none ∨ Drops oid pins old label := by
  -- A change that leaves the pin as it was.
  have same {old changed : Inode} {world : World} (found : pins.world.inodes oid = some old)
      (there : inode ∈ (world.setInode oid changed).inodes oid) (pin : changed.pinState = old.pinState) :
      ∃ old ∈ pins.world.inodes oid, old.pinState = .none ∨ Drops oid pins old label := by
    rw [mem_setInode there,pin] at gone
    exact ⟨old,found,.inl gone⟩
  have kept {after : World} (marked : Marked oid pins.world after) (there : inode ∈ after.inodes oid) :
      ∃ old ∈ pins.world.inodes oid, old.pinState = .none ∨ Drops oid pins old label := by
    obtain rfl | ⟨old,_,_,_,found,rfl⟩ := marked
    · exact ⟨inode,there,.inl gone⟩
    · exact same found there rfl
  cases label with
  | plan destTier seq force =>
    simp only [Pins.step] at taken
    rcases movementPlan_spec pins.world oid destTier seq force with ⟨errno,failed⟩ | ⟨old,found,_,_,_,_,accepted⟩
    · rw [failed] at taken
      cases taken
    · rw [accepted] at taken
      cases taken
      exact same found there rfl
  | link parent source target =>
    obtain ⟨world,nlink,done,rfl⟩ := step_link taken
    obtain ⟨old,found,_,rfl,_⟩ := link_spec done
    rw [mem_setInode there] at gone
    simp only [linkedInode] at gone
    split at gone
    · cases gone
    · exact ⟨old,found,.inl gone⟩
  | unlink rel last =>
    obtain ⟨world,nlink,done,rfl⟩ := step_unlink taken
    obtain ⟨old,found,changed⟩ := unlink_spec done
    have new : inode = unlinkedInode last old := by
      rcases changed with ⟨_,rfl,_⟩ | ⟨_,rfl,_⟩ <;> exact mem_setInode there
    rw [new] at gone
    simp only [unlinkedInode] at gone
    split at gone
    · next drops => exact ⟨old,found,.inr drops⟩
    · exact ⟨old,found,.inl gone⟩
  | lease capable value => exact absurd rfl foreign
  | lun capable value =>
    simp only [Pins.step,State.pin] at taken
    split at taken
    · next changed done =>
      cases taken
      obtain ⟨old,found,set⟩ := Option.map_eq_some_iff.mp done
      obtain ⟨pin,rfl,change⟩ := trustedXattrSet_spec set
      rcases change with rfl | ⟨rfl,own,asked⟩ | ⟨rfl,_⟩
      · exact same found there rfl
      · exact ⟨old,found,.inr ⟨own,asked⟩⟩
      · rw [mem_setInode there] at gone
        cases gone
    · cases taken
  | cutoverBegin seq =>
    simp only [Pins.step] at taken
    split at taken
    · cases taken
    cases taken
    exact kept (cutoverBegin_marked pins.world oid seq) there
  | cutoverFinish expected fault =>
    cases taken
    rcases cutoverFinish_spec pins.world oid expected fault with ⟨after,errno,failed,refused⟩ | ⟨old,dest,found,_,_,swapped⟩
    · rw [failed] at there
      rcases refused with rfl | ⟨old,movement,found,rfl | ⟨file,rfl⟩⟩
      · exact ⟨inode,there,.inl gone⟩
      · exact same found there rfl
      · exact same found there rfl
    · rw [swapped] at there
      have new : inode = switchedInode old dest := mem_setInode there
      rw [new] at gone
      simp only [switchedInode] at gone
      split at gone
      · next leased => exact ⟨old,found,.inr ⟨leased,by simp [swaps,swapped]⟩⟩
      · exact ⟨old,found,.inl gone⟩
  | rollback seq =>
    cases taken
    exact kept (settle_marked pins.world oid seq _) there
  | complete seq =>
    cases taken
    exact kept (settle_marked pins.world oid seq _) there

theorem protected_setlease {handle : Handle} {leasetype : LeaseType} {next smoothfs capable : Bool} (protect : Protected oid state)
    (careful : Careful oid state (.setlease handle leasetype next smoothfs capable)) :
    Protected oid (linuxSetlease oid state handle leasetype next smoothfs capable) := by
  unfold linuxSetlease
  split
  · exact protect
  next heard =>
  have heard : next = true := not_not.mp heard
  dsimp only
  by_cases release : leasetype = .unlck
  · subst release
    have none_ : state.granted.erase handle = [] := careful heard
    split
    · exact fun held => absurd none_ (by simpa using held)
    · intro held
      rw [xattr_granted] at held
      exact absurd none_ (by simpa using held)
  · have reaches : smoothfs = true ∧ capable = true := by
      cases leasetype with
      | unlck => exact absurd rfl release
      | rdlck => exact careful heard
      | wrlck => exact careful heard
    obtain ⟨rfl,rfl⟩ := reaches
    rw [if_neg release,if_neg release]
    exact fun _ => xattr_set oid _

theorem protected_step {next : State} {label : Label} (protect : Protected oid state) (careful : Careful oid state label)
    (taken : step oid state label = some next) : Protected oid next := by
  cases label with
  | setlease handle leasetype result smoothfs capable =>
    cases taken
    exact protected_setlease protect careful
  | event process pid capable =>
    cases taken
    unfold fanotifyEvent
    split
    · exact protect
    next foreign =>
    have idle := careful.resolve_left foreign
    split
    · intro held
      rw [xattr_granted] at held
      exact absurd idle held
    · exact protect
  | other label =>
    simp only [step] at taken
    split at taken
    · cases taken
    next foreign =>
    obtain ⟨pins,done,rfl⟩ := Option.map_eq_some_iff.mp taken
    intro held inode there gone
    split at held
    · exact held rfl
    next kept =>
    obtain ⟨old,found,pin⟩ := pin_lost done foreign there gone
    rcases careful with idle | forced | still
    · exact held idle
    · exact kept forced
    · rcases pin with free | drops
      · exact protect held old found free
      · exact still old found drops

end Step

/-- While a lease is held, the file is pinned. -/
theorem held_lease_pins (oid : Oid) (pins : Pins.State) (labels : List Label) (final : State)
    (careful : Guarded (step oid) (Careful oid) ⟨pins,[]⟩ labels) (reached : run (step oid) ⟨pins,[]⟩ labels = some final) :
    Protected oid final :=
  invariant (step oid) (Careful oid) (Protected oid) (fun _ _ _ protect careful taken => protected_step protect careful taken)
    ⟨pins,[]⟩ final labels (fun held => absurd rfl held) careful reached

def politeLeases : List Label :=
  [.setlease ⟨1,1⟩ .rdlck true true true,.other (.link 0 ["f"] ["g"]),.other (.unlink ["g"] false),.setlease ⟨1,1⟩ .unlck true true true,
    .setlease ⟨2,1⟩ .wrlck true true true,.other (.plan 1 1 true),.other (.cutoverBegin 1),.other (.cutoverFinish none .none),
    .setlease ⟨3,1⟩ .rdlck true true true]

theorem held_lease_pins_two_processes : ∃ final, run (step 0) ⟨start copied (fun _ => 1),[]⟩ politeLeases = some final ∧
    final.granted = [⟨3,1⟩] ∧ Protected 0 final :=
  ⟨_,rfl,by decide,held_lease_pins 0 (start copied (fun _ => 1)) politeLeases _ (by decide) rfl⟩

def lost (labels : List Label) : Bool :=
  (run (step 0) ⟨start copied (fun _ => 1),[]⟩ labels).any fun state => ¬ Protected 0 state

/-- Of two holders one releases; another process writes; a pin that was there before the lease goes
away. -/
theorem held_lease_loses_pin :
    lost [.setlease ⟨1,1⟩ .rdlck true true true,.setlease ⟨2,1⟩ .rdlck true true true,.setlease ⟨2,1⟩ .unlck true true true] = true ∧
    lost [.setlease ⟨1,1⟩ .rdlck true true true,.event 1 7 true] = true ∧
    lost [.other (.link 0 ["f"] ["g"]),.setlease ⟨1,1⟩ .rdlck true true true,.other (.unlink ["g"] false)] = true ∧
    lost [.other (.lun true (some [1])),.setlease ⟨1,1⟩ .rdlck true true true,.other (.lun true none)] = true := by
  decide

end Smoothfs.Leases
