import Smoothfs.TierSelection

/-! Making a name: the loops over the tiers of `smoothfs_create` and `smoothfs_mkdir`,
mknod and symlink beside the parent, and what a late failure leaves behind. -/
namespace Smoothfs.NewNames

open TierSelection

inductive Err
  | enospc
  | other (errno : Nat)
  deriving DecidableEq, Repr

/-- What each step answers on one tier, `none` for success. -/
structure Answers where
  materialize : Option Err
  lookup : Option Err
  create : Option Err
  iget : Option Err
  track : Option Err

/-- `full` goes on to the next tier; `failed` ends the loop and says whether the lower entry is left. -/
inductive Tried
  | full
  | failed (err : Err) (left : Bool)
  | made
  deriving DecidableEq, Repr

def Answers.parent (answers : Answers) (materialize : Bool) : Option Err := if materialize then answers.materialize else none

def attempt (answers : Answers) (materialize : Bool) : Tried :=
  match answers.parent materialize, answers.lookup, answers.create, answers.iget, answers.track with
  | some .enospc, _, _, _, _ => .full
  | some err, _, _, _, _ => .failed err false
  | none, some err, _, _, _ => .failed err false
  | none, none, some .enospc, _, _ => .full
  | none, none, some err, _, _ => .failed err false
  | none, none, none, some err, _ => .failed err true
  | none, none, none, none, some err => .failed err true
  | none, none, none, none, none => .made

structure Result where
  err : Option Err
  entries : List Nat
  deriving DecidableEq, Repr

def Tried.result (tier : Nat) : Tried → Result
  | .full => ⟨some .enospc,[]⟩
  | .failed err left => ⟨some err,if left then [tier] else []⟩
  | .made => ⟨none,[tier]⟩

variable (pool : Pool) (allocated : Bool) (parentTier : Nat) (answers : Nat → Answers)

def tryOn (tier : Nat) : Tried := attempt (answers tier) (tier ≠ parentTier)

def skipped (tier : Nat) : Bool := tier ≠ pool.ntiers - 1 && tierNearEnospc pool tier

def place : List Nat → Result
  | [] => ⟨some .enospc,[]⟩
  | tier::rest =>
    if skipped pool tier || tryOn parentTier answers tier = .full then place rest
    else (tryOn parentTier answers tier).result tier

def createOrder : List Nat :=
  (List.range (if pool.cacheMode then 1 else pool.ntiers)).map fun round => (selectCreateTier pool allocated + round) % pool.ntiers

def mkdirOrder : List Nat := if pool.cacheMode then [pool.ntiers - 1] else List.range pool.ntiers

def create : Result := place pool parentTier answers (createOrder pool allocated)

def mkdir : Result := place pool parentTier answers (mkdirOrder pool)

/-- In the parent's own lower directory, without a placement record. -/
def makeBeside : Result := (attempt {answers parentTier with track := none} false).result parentTier

def mknod : Result := makeBeside parentTier answers

def symlink : Result := makeBeside parentTier answers

section Conditions

variable (answers : Answers) (materialize : Bool)

/-- A lower mkdir or create runs out of space. -/
def Answers.noRoom : Bool :=
  answers.parent materialize = some .enospc || answers.parent materialize = none && answers.lookup = none && answers.create = some .enospc

def Answers.entered : Bool := answers.parent materialize = none && answers.lookup = none && answers.create = none

/-- Another step says that it ran out of space. -/
def Answers.otherEnospc : Bool :=
  answers.parent materialize = none && answers.lookup = some .enospc ||
    answers.entered materialize && (answers.iget = some .enospc || answers.iget = none && answers.track = some .enospc)

/-- Neither the inode nor its placement fails once the lower entry is made. -/
def Answers.Whole : Prop := answers.entered materialize = true → answers.iget = none ∧ answers.track = none

end Conditions

def noRoomOn (tier : Nat) : Bool := (answers tier).noRoom (tier ≠ parentTier)

def Spills (result : Result) : Prop :=
  (result.err = some .enospc → ∀ tier < pool.ntiers, noRoomOn parentTier answers tier = true) ∧
    (result.err = none → ∃ tier < pool.ntiers, result.entries = [tier])

def Traceless (result : Result) : Prop := result.err ≠ none → result.entries = []

/-- In this order every tier before it is passed over or has no room. -/
def Ends (order : List Nat) (tier : Nat) : Prop :=
  ∃ before after, order = before ++ tier::after ∧ skipped pool tier = false ∧ noRoomOn parentTier answers tier = false ∧
    ∀ other ∈ before, skipped pool other = true ∨ noRoomOn parentTier answers other = true

/-- If a tier has room, so has one that is tried. -/
def RoomTried : Prop :=
  (∃ tier < pool.ntiers, noRoomOn parentTier answers tier = false) →
    ∃ tier < pool.ntiers, skipped pool tier = false ∧ noRoomOn parentTier answers tier = false

def Honest (order : List Nat) : Prop :=
  ∀ tier, Ends pool parentTier answers order tier → (answers tier).otherEnospc (tier ≠ parentTier) = false

section Attempts

variable (answers : Answers) (materialize : Bool)

theorem attempt_full : attempt answers materialize = .full ↔ answers.noRoom materialize = true := by
  unfold attempt Answers.noRoom
  split <;> simp_all

theorem attempt_enospc (tier : Nat) (room : answers.noRoom materialize = false) :
    ((attempt answers materialize).result tier).err = some .enospc ↔ answers.otherEnospc materialize = true := by
  unfold attempt Answers.otherEnospc Answers.entered
  unfold Answers.noRoom at room
  split <;> simp_all [Tried.result]

theorem traceless_attempt (tier : Nat) : Traceless ((attempt answers materialize).result tier) ↔ answers.Whole materialize := by
  unfold attempt Answers.Whole Answers.entered
  split <;> simp_all [Traceless,Tried.result]

theorem attempt_made (tier : Nat) (done : ((attempt answers materialize).result tier).err = none) :
    ((attempt answers materialize).result tier).entries = [tier] := by
  cases tried : attempt answers materialize <;> simp_all [Tried.result]

end Attempts

variable {pool allocated parentTier answers} {order : List Nat}

/-- The loop ends on one tier of the order with what that tier answers, or runs through. -/
theorem place_cases :
    (∃ tier, Ends pool parentTier answers order tier ∧ place pool parentTier answers order = (tryOn parentTier answers tier).result tier) ∨
      (∀ tier ∈ order, skipped pool tier = true ∨ noRoomOn parentTier answers tier = true) ∧
        place pool parentTier answers order = ⟨some .enospc,[]⟩ := by
  induction order with
  | nil => exact .inr ⟨nofun,rfl⟩
  | cons tier rest ih =>
    have full : tryOn parentTier answers tier = .full ↔ noRoomOn parentTier answers tier = true := attempt_full _ _
    by_cases passed : skipped pool tier = true ∨ noRoomOn parentTier answers tier = true
    · have next : place pool parentTier answers (tier::rest) = place pool parentTier answers rest := by
        rw [place,if_pos (by simpa [full] using passed)]
      rw [next]
      refine ih.imp ?_ ?_
      · rintro ⟨last,⟨before,after,rfl,kept⟩,same⟩
        exact ⟨last,⟨tier::before,after,rfl,kept.1,kept.2.1,List.forall_mem_cons.mpr ⟨passed,kept.2.2⟩⟩,same⟩
      · exact fun through => ⟨List.forall_mem_cons.mpr ⟨passed,through.1⟩,through.2⟩
    · have kept : skipped pool tier = false ∧ noRoomOn parentTier answers tier = false := by simpa using passed
      refine .inl ⟨tier,⟨[],rest,rfl,kept.1,kept.2,nofun⟩,?_⟩
      rw [place,if_neg (by simp [kept,full])]

theorem Ends.unique {one two : Nat} (first : Ends pool parentTier answers order one) (second : Ends pool parentTier answers order two) :
    one = two := by
  obtain ⟨before,after,rfl,kept,room,passed⟩ := first
  obtain ⟨others,behind,same,more,space,skips⟩ := second
  rcases List.append_eq_append_iff.mp same with ⟨middle,rfl,split⟩ | ⟨middle,rfl,split⟩
  · cases middle with
    | nil => exact (List.cons.inj split).1
    | cons head rest =>
      cases (List.cons.inj split).1
      simpa [kept,room] using skips one (by simp)
  · cases middle with
    | nil => exact (List.cons.inj split).1.symm
    | cons head rest =>
      cases (List.cons.inj split).1
      simpa [more,space] using passed two (by simp)

theorem spills_iff (all : ∀ tier, tier ∈ order ↔ tier < pool.ntiers) :
    Spills pool parentTier answers (place pool parentTier answers order) ↔
      RoomTried pool parentTier answers ∧ Honest pool parentTier answers order := by
  obtain ⟨tier,ends,same⟩ | ⟨passed,same⟩ := @place_cases pool parentTier answers order
  · obtain ⟨before,after,split,kept,room,_⟩ := id ends
    have inside : tier < pool.ntiers := (all tier).mp (by simp [split])
    rw [same]
    constructor
    · refine fun spills => ⟨fun _ => ⟨tier,inside,kept,room⟩,fun other there => ?_⟩
      cases there.unique ends
      by_contra late
      have full := spills.1 ((attempt_enospc _ _ _ room).mpr (by simpa using late)) tier inside
      rw [room] at full
      cases full
    · rintro ⟨_,honest⟩
      refine ⟨fun failed => ?_,fun made => ⟨tier,inside,attempt_made _ _ _ made⟩⟩
      have late := (attempt_enospc _ _ _ room).mp failed
      rw [honest tier ends] at late
      cases late
  · rw [same]
    constructor
    · refine fun spills => ⟨?_,fun tier ends => ?_⟩
      · rintro ⟨tier,inside,room⟩
        rw [spills.1 rfl tier inside] at room
        cases room
      · obtain ⟨before,after,split,kept,room,_⟩ := ends
        simpa [kept,room] using passed tier (by simp [split])
    · rintro ⟨tried,_⟩
      refine ⟨fun _ tier inside => by_contra fun room => ?_,nofun⟩
      obtain ⟨other,there,kept,more⟩ := tried ⟨tier,inside,by simpa using room⟩
      simpa [kept,more] using passed other ((all other).mpr there)

theorem traceless_place : Traceless (place pool parentTier answers order) ↔
    ∀ tier, Ends pool parentTier answers order tier → (answers tier).Whole (tier ≠ parentTier) := by
  obtain ⟨tier,ends,same⟩ | ⟨passed,same⟩ := @place_cases pool parentTier answers order
  · rw [same,tryOn,traceless_attempt]
    exact ⟨fun whole other there => there.unique ends ▸ whole,fun whole => whole tier ends⟩
  · rw [same]
    refine iff_of_true (fun _ => rfl) fun tier ⟨before,after,split,kept,room,_⟩ => ?_
    simpa [kept,room] using passed tier (by simp [split])

theorem mem_createOrder (tiered : pool.cacheMode = false) (tier : Nat) : tier ∈ createOrder pool allocated ↔ tier < pool.ntiers := by
  simp only [createOrder,tiered,Bool.false_eq_true,if_false,List.mem_map,List.mem_range]
  constructor
  · rintro ⟨round,inside,rfl⟩
    exact Nat.mod_lt _ (by omega)
  · intro inside
    have positive : 0 < pool.ntiers := by omega
    generalize selectCreateTier pool allocated = start
    refine ⟨(tier + (pool.ntiers - start % pool.ntiers)) % pool.ntiers,Nat.mod_lt _ positive,?_⟩
    have whole := Nat.div_add_mod start pool.ntiers
    have small := Nat.mod_lt start positive
    have sum : start + (tier + (pool.ntiers - start % pool.ntiers)) = tier + pool.ntiers * (start / pool.ntiers + 1) := by
      rw [Nat.mul_add]
      omega
    rw [Nat.add_mod_mod,sum,Nat.add_mul_mod_self_left,Nat.mod_eq_of_lt inside]

/-- With tiers, create and mkdir spill over the whole pool exactly when no tier with room is passed
over in vain and no other step says ENOSPC. -/
theorem create_spills_iff (tiered : pool.cacheMode = false) :
    (Spills pool parentTier answers (create pool allocated parentTier answers) ↔
      RoomTried pool parentTier answers ∧ Honest pool parentTier answers (createOrder pool allocated)) ∧
      (Spills pool parentTier answers (mkdir pool parentTier answers) ↔
        RoomTried pool parentTier answers ∧ Honest pool parentTier answers (mkdirOrder pool)) :=
  ⟨spills_iff (mem_createOrder tiered),spills_iff (by simp [mkdirOrder,tiered])⟩

def twoTiers (fast slow : Nat) : Pool := ⟨[some ⟨100,fast,4096⟩,some ⟨100,slow,4096⟩],98,false,.fastest⟩

def full : Answers := ⟨none,none,some .enospc,none,none⟩

def roomy : Answers := ⟨none,none,none,none,none⟩

theorem roomy_pool_spills : Spills (twoTiers 50 50) 0 (fun _ => roomy) (create (twoTiers 50 50) true 0 fun _ => roomy) :=
  (create_spills_iff rfl).1.mpr ⟨fun _ => ⟨0,by decide,by decide,by decide⟩,fun tier _ => by simp [roomy,Answers.otherEnospc]⟩

/-- The first tier is past the watermark and has room, the second is full. -/
theorem watermark_hides_room : (create (twoTiers 1 0) true 0 fun tier => if tier = 0 then roomy else full).err = some .enospc ∧
    (mkdir (twoTiers 1 0) 0 fun tier => if tier = 0 then roomy else full).err = some .enospc ∧
    tryOn 0 (fun tier => if tier = 0 then roomy else full) 0 = .made := by
  decide

/-- A failed call leaves nothing exactly when nothing fails behind the lower create. -/
theorem failed_create_traceless_iff :
    (Traceless (create pool allocated parentTier answers) ↔
      ∀ tier, Ends pool parentTier answers (createOrder pool allocated) tier → (answers tier).Whole (tier ≠ parentTier)) ∧
    (Traceless (mkdir pool parentTier answers) ↔
      ∀ tier, Ends pool parentTier answers (mkdirOrder pool) tier → (answers tier).Whole (tier ≠ parentTier)) ∧
    (Traceless (mknod parentTier answers) ↔ ({answers parentTier with track := none} : Answers).Whole false) ∧
    (Traceless (symlink parentTier answers) ↔ ({answers parentTier with track := none} : Answers).Whole false) :=
  ⟨traceless_place,traceless_place,traceless_attempt _ _ _,traceless_attempt _ _ _⟩

theorem entry_without_inode :
    create (twoTiers 50 50) true 0 (fun _ => {roomy with iget := some (.other 12)}) = ⟨some (.other 12),[0]⟩ ∧
    mkdir (twoTiers 50 50) 0 (fun _ => {roomy with iget := some (.other 12)}) = ⟨some (.other 12),[0]⟩ ∧
    mknod 0 (fun _ => {roomy with iget := some (.other 12)}) = ⟨some (.other 12),[0]⟩ ∧
    symlink 0 (fun _ => {roomy with iget := some (.other 12)}) = ⟨some (.other 12),[0]⟩ := by
  decide

end Smoothfs.NewNames
