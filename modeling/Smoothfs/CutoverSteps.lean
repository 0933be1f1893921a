import Smoothfs.Movement

/-! `smoothfs_movement_cutover` cut where other tasks can come in: after the test of
`quiesced`, which no lock protects, and where it drops the inode lock to drain the
writers. Run without a break the pieces are the transition of `Movement`. -/
namespace Smoothfs.Movement

def begun (inode : Inode) : Inode :=
  {inode with movementState := .cutoverInProgress}

/-- From the test of `quiesced` to where the inode lock is dropped. -/
def cutoverBegin (world : World) (oid : Oid) (seq : Nat) : World × Except Errno Unit :=
  match cutoverAdmits world oid seq with
  | .error errno => (world,.error errno)
  | .ok inode => (world.setInode oid (begun inode),.ok ())

/-- Pins, links and mappings are not looked at again. -/
def cutoverFinish (world : World) (oid : Oid) (expected : Option Nat) (fault : CutoverFault) : World × Except Errno Unit :=
  match world.inodes oid with
  | none => (world,.error .enoent)
  | some inode =>
    if inode.movementState = .cutoverInProgress then cutoverEnd world oid inode expected fault
    else (if fault = .drainTimeout then world else world.setInode oid {inode with movementState := .copyVerified},.error .ebusy)

theorem mem_setInode {world : World} {oid : Oid} {inode new : Inode} (there : new ∈ (world.setInode oid inode).inodes oid) :
    new = inode := by
  simpa [World.setInode,eq_comm] using there

section Steps

variable {world : World} {oid : Oid} {inode : Inode}

theorem cutoverFinish_begun {expected : Option Nat} {fault : CutoverFault} (found : world.inodes oid = some inode)
    (busy : inode.movementState = .cutoverInProgress) :
    cutoverFinish world oid expected fault = cutoverEnd world oid inode expected fault := by
  simp only [cutoverFinish,found,busy,if_true]

theorem cutoverBegin_spec (world : World) (oid : Oid) (seq : Nat) :
    (∃ errno, cutoverBegin world oid seq = (world,.error errno)) ∨
      ∃ inode, world.inodes oid = some inode ∧ inode.movementState.preCutover = true ∧ inode.transactionSeq = seq ∧
        inode.mapped = false ∧ cutoverBegin world oid seq = (world.setInode oid (begun inode),.ok ()) := by
  unfold cutoverBegin
  split
  · exact .inl ⟨_,rfl⟩
  next inode admitted =>
  obtain ⟨found,_,early,same,unmapped⟩ := cutoverAdmits_ok world oid seq admitted
  exact .inr ⟨inode,found,early,same,unmapped,rfl⟩

theorem cutoverBegin_marked (world : World) (oid : Oid) (seq : Nat) : Marked oid world (cutoverBegin world oid seq).1 := by
  obtain ⟨_,refused⟩ | ⟨inode,found,_,_,_,done⟩ := cutoverBegin_spec world oid seq
  · exact .inl (by rw [refused])
  · exact .inr ⟨inode,_,_,_,found,by rw [done]; rfl⟩

theorem cutoverFinish_spec (world : World) (oid : Oid) (expected : Option Nat) (fault : CutoverFault) :
    (∃ after errno, cutoverFinish world oid expected fault = (after,.error errno) ∧ Refused world after oid) ∨
      ∃ inode dest, world.inodes oid = some inode ∧ inode.movementState = .cutoverInProgress ∧
        resolveCutover world oid inode expected = .ok dest ∧
        cutoverFinish world oid expected fault = (publish world oid inode dest,.ok ()) := by
  cases found : world.inodes oid with
  | none => exact .inl ⟨world,.enoent,by simp only [cutoverFinish,found],.inl rfl⟩
  | some inode =>
  by_cases busy : inode.movementState = .cutoverInProgress
  · rw [cutoverFinish_begun found busy]
    exact (cutoverEnd_refused found).imp_right fun ⟨dest,resolved,_,done⟩ => ⟨inode,dest,rfl,busy,resolved,done⟩
  · simp only [cutoverFinish,found,busy,if_false]
    refine .inl ⟨_,.ebusy,rfl,?_⟩
    split
    · exact .inl rfl
    · exact .inr ⟨inode,.copyVerified,found,.inl rfl⟩

end Steps

def copied : World where
  pool := ⟨2,0,false,false,false,false⟩
  inodes oid := if oid = 0 then some ⟨⟨0,0,"f"⟩,true,some ["f"],0,0,.placed,.none,0,0,0,1,false,false,false,8⟩ else none
  names loc := if loc = ⟨0,["f"]⟩ then some 0 else if loc = ⟨1,["f"]⟩ then some 1 else none
  files _ := ⟨true,[],⟨0,0,[]⟩,none,false,0⟩
  nextFile := 2
  rows _ := none
  log := []
  umask := 0
  clock := 0
  history := []

end Smoothfs.Movement
