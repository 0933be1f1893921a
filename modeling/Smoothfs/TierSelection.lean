import Mathlib.Data.List.Basic
import Mathlib.Tactic.Linarith

/-! `smoothfs_select_create_tier`: the tier that a new file goes to, from the
statistics of the lower file systems. -/
namespace Smoothfs.TierSelection

structure Stat where
  blocks : Nat
  bavail : Nat
  bsize : Nat

inductive CreatePolicy
  | fastest | highWater
  deriving DecidableEq

/-- `stats` has what `vfs_statfs` answers for each tier, and tier 0 is the fastest. -/
structure Pool where
  stats : List (Option Stat)
  writeStagingFullPct : Nat
  cacheMode : Bool
  createPolicy : CreatePolicy

def Pool.ntiers (pool : Pool) : Nat := pool.stats.length

def Pool.fullPct (pool : Pool) : Nat :=
  if pool.writeStagingFullPct = 0 ∨ 100 < pool.writeStagingFullPct then 98 else pool.writeStagingFullPct

/-- In `u64`: more available blocks than there are wrap around. -/
def nearEnospc (pool : Pool) (stat : Stat) : Bool :=
  (stat.blocks * pool.fullPct : Int) % 18446744073709551616 ≤ (stat.blocks - stat.bavail : Int) * 100 % 18446744073709551616

def tierNearEnospc (pool : Pool) (tier : Nat) : Bool :=
  match pool.stats[tier]? with
  | some (some stat) => stat.blocks ≠ 0 && nearEnospc pool stat
  | _ => false

def Pool.usable (pool : Pool) : List (Nat × Stat) :=
  (List.range pool.ntiers).filterMap fun tier =>
    match pool.stats[tier]? with
    | some (some stat) => if stat.blocks = 0 then none else some (tier,stat)
    | _ => none

def maxBlocks (usable : List (Nat × Stat)) : Nat := usable.foldr (fun entry most => max most entry.2.blocks) 0

def better (best : Nat × Nat) (entry : Nat × Stat) : Nat × Nat :=
  if best.2 < entry.2.bavail then (entry.1,entry.2.bavail) else best

def bestTier (usable : List (Nat × Stat)) : Nat := (usable.foldl better (0,0)).1

def Pool.admits (pool : Pool) (entry : Nat × Stat) : Bool := entry.1 = pool.ntiers - 1 || !nearEnospc pool entry.2

/-- The `while` loop: `water` is halved until a tier stands above it. -/
def sweep (pool : Pool) : Nat → Nat → Option Nat
  | 0, _ => none
  | fuel+1, water =>
    if water = 0 then none
    else match pool.usable.find? fun entry => pool.admits entry && water < entry.2.bavail with
      | some entry => some entry.1
      | none => sweep pool fuel (water / 2)

def selectHighWaterTier (pool : Pool) (allocated : Bool) : Nat :=
  if !allocated then 0
  else (sweep pool (maxBlocks pool.usable) (maxBlocks pool.usable / 2)).getD (bestTier pool.usable)

def selectCreateTier (pool : Pool) (allocated : Bool) : Nat :=
  if pool.cacheMode then pool.ntiers - 1
  else if pool.ntiers ≤ 1 then 0
  else if pool.createPolicy = .highWater then selectHighWaterTier pool allocated
  else ((List.range pool.ntiers).find? fun tier => tier = pool.ntiers - 1 || !tierNearEnospc pool tier).getD 0

/-- `statfs` succeeded with a size, and the tier is the slowest or below the full
percentage. -/
def Eligible (pool : Pool) (entry : Nat × Stat) : Prop :=
  entry ∈ pool.usable ∧ (entry.1 = pool.ntiers - 1 ∨ (entry.2.blocks - entry.2.bavail) * 100 < entry.2.blocks * pool.fullPct)

/-- If an eligible tier has free space, `tier` is eligible and has at least half
the free bytes of every eligible tier. -/
def Roomy (pool : Pool) (tier : Nat) : Prop :=
  (∃ entry, Eligible pool entry ∧ 0 < entry.2.bavail) → ∃ stat, Eligible pool (tier,stat) ∧
    ∀ entry, Eligible pool entry → entry.2.bavail * entry.2.bsize ≤ 2 * (stat.bavail * stat.bsize)

/-- One block size, and no tier so large that the percentage test overflows. -/
structure Plain (pool : Pool) : Prop where
  uniform : ∀ entry other, Eligible pool entry → Eligible pool other → entry.2.bsize = other.2.bsize
  small : ∀ entry ∈ pool.usable, entry.2.blocks * 100 < 18446744073709551616

/-- When every eligible tier is down to its last block, the tier with the most
free blocks is eligible. -/
def Unshadowed (pool : Pool) : Prop :=
  (∃ entry, Eligible pool entry ∧ 0 < entry.2.bavail) → (∀ entry, Eligible pool entry → entry.2.bavail ≤ 1) →
    ∃ stat, Eligible pool (bestTier pool.usable,stat)

variable {pool : Pool} {entry : Nat × Stat}

theorem fullPct_le : pool.fullPct ≤ 100 := by
  unfold Pool.fullPct
  split <;> omega

theorem usable_lt (member : entry ∈ pool.usable) : entry.1 < pool.ntiers := by
  simp only [Pool.usable] at member
  grind

theorem usable_unique {other : Nat × Stat} (member : entry ∈ pool.usable) (there : other ∈ pool.usable)
    (same : entry.1 = other.1) : entry.2 = other.2 := by
  simp only [Pool.usable] at member there
  grind

theorem Plain.admits_iff (plain : Plain pool) (bounded : ∀ entry ∈ pool.usable, entry.2.bavail ≤ entry.2.blocks)
    (member : entry ∈ pool.usable) : pool.admits entry = true ↔ Eligible pool entry := by
  have size := plain.small entry member
  have scaled : entry.2.blocks * pool.fullPct ≤ entry.2.blocks * 100 := Nat.mul_le_mul_left _ fullPct_le
  have used : (entry.2.blocks - entry.2.bavail) * 100 ≤ entry.2.blocks * 100 := Nat.mul_le_mul_right _ (Nat.sub_le _ _)
  have limit : (entry.2.blocks * pool.fullPct : Int) % 18446744073709551616 = (entry.2.blocks * pool.fullPct : Nat) := by
    rw [← Int.natCast_mul]
    omega
  have taken : (entry.2.blocks - entry.2.bavail : Int) * 100 % 18446744073709551616 = ((entry.2.blocks - entry.2.bavail) * 100 : Nat) := by
    rw [← Int.natCast_sub (bounded entry member)]
    omega
  simp only [Pool.admits,nearEnospc,limit,taken,Int.ofNat_le,Eligible,member]
  simp

theorem blocks_le {usable : List (Nat × Stat)} (member : entry ∈ usable) : entry.2.blocks ≤ maxBlocks usable := by
  induction usable with
  | nil => cases member
  | cons first rest ih =>
    simp only [maxBlocks] at ih ⊢
    rcases List.mem_cons.mp member with rfl | later
    · exact le_max_right _ _
    · exact (ih later).trans (le_max_left _ _)

theorem foldl_better (usable : List (Nat × Stat)) (start : Nat × Nat) :
    usable.foldl better start = start ∧ (∀ entry ∈ usable, entry.2.bavail ≤ start.2) ∨
      ∃ entry ∈ usable, usable.foldl better start = (entry.1,entry.2.bavail) ∧ 0 < entry.2.bavail := by
  induction usable generalizing start with
  | nil => simp
  | cons first rest ih =>
    rw [List.foldl_cons]
    by_cases more : start.2 < first.2.bavail
    · rcases ih (better start first) with ⟨same,_⟩ | ⟨entry,later,found⟩
      · exact .inr ⟨first,List.mem_cons_self,by rw [same,better,if_pos more],by omega⟩
      · exact .inr ⟨entry,List.mem_cons_of_mem _ later,found⟩
    have kept : better start first = start := if_neg more
    rw [kept]
    rcases ih start with ⟨same,least⟩ | ⟨entry,later,found⟩
    · exact .inl ⟨same,List.forall_mem_cons.mpr ⟨by omega,least⟩⟩
    · exact .inr ⟨entry,List.mem_cons_of_mem _ later,found⟩

theorem bestTier_lt (filled : 0 < pool.ntiers) : bestTier pool.usable < pool.ntiers := by
  rcases foldl_better pool.usable (0,0) with ⟨same,_⟩ | ⟨entry,member,found,_⟩
  · rw [bestTier,same]
    exact filled
  · rw [bestTier,found]
    exact usable_lt member

theorem sweep_lt {fuel water tier : Nat} (found : sweep pool fuel water = some tier) : tier < pool.ntiers := by
  induction fuel generalizing water with
  | zero => cases found
  | succ fuel ih =>
    rw [sweep] at found
    split at found
    · cases found
    split at found
    · next entry chosen =>
      cases found
      exact usable_lt (List.mem_of_find?_eq_some chosen)
    · exact ih found

/-- The level halves, and every eligible tier stays below twice it: a tier that is
found has at least half of every other. -/
theorem sweep_spec (plain : Plain pool) (bounded : ∀ entry ∈ pool.usable, entry.2.bavail ≤ entry.2.blocks) {fuel : Nat}
    (water : Nat) (enough : water ≤ fuel)
    (bound : ∀ entry, Eligible pool entry → entry.2.bavail ≤ 2 * water + 1) :
    (∀ tier, sweep pool fuel water = some tier → ∃ stat, Eligible pool (tier,stat) ∧ 1 < stat.bavail ∧
      ∀ entry, Eligible pool entry → entry.2.bavail ≤ 2 * stat.bavail) ∧
    (sweep pool fuel water = none → ∀ entry, Eligible pool entry → entry.2.bavail ≤ 1) := by
  induction fuel generalizing water with
  | zero =>
    obtain rfl : water = 0 := by omega
    simpa [sweep] using bound
  | succ fuel ih =>
    rw [sweep]
    split
    · next dry => simpa [dry] using bound
    split
    · next entry found =>
      have passed := List.find?_some found
      simp only [Bool.and_eq_true,decide_eq_true_eq] at passed
      have chosen := (plain.admits_iff bounded (List.mem_of_find?_eq_some found)).mp passed.1
      refine ⟨fun tier same => ?_,by simp⟩
      cases same
      exact ⟨entry.2,chosen,by omega,fun other eligible => by have := bound other eligible; omega⟩
    · next missed =>
      apply ih _ (by omega)
      intro entry eligible
      have low := List.find?_eq_none.mp missed entry eligible.1
      rw [(plain.admits_iff bounded eligible.1).mpr eligible] at low
      simp only [Bool.true_and,decide_eq_true_eq] at low
      omega

/-- The policy always names a tier of the pool. With one block size and no
overflow, that tier has room exactly when no fuller tier is eligible once the
eligible ones are down to their last block. -/
theorem high_water_roomy_iff (filled : 0 < pool.ntiers) (bounded : ∀ entry ∈ pool.usable, entry.2.bavail ≤ entry.2.blocks) :
    (∀ allocated, selectHighWaterTier pool allocated < pool.ntiers) ∧
      (Plain pool → (Roomy pool (selectHighWaterTier pool true) ↔ Unshadowed pool)) := by
  constructor
  · intro allocated
    unfold selectHighWaterTier
    split
    · exact filled
    · cases swept : sweep pool (maxBlocks pool.usable) (maxBlocks pool.usable / 2) with
      | none => exact bestTier_lt filled
      | some tier => exact sweep_lt swept
  · intro plain
    have start (entry : Nat × Stat) (eligible : Eligible pool entry) : entry.2.bavail ≤ 2 * (maxBlocks pool.usable / 2) + 1 := by
      have free := bounded entry eligible.1
      have most := blocks_le eligible.1
      omega
    obtain ⟨found,missed⟩ := sweep_spec plain bounded (maxBlocks pool.usable / 2) (Nat.div_le_self _ _) start
    cases swept : sweep pool (maxBlocks pool.usable) (maxBlocks pool.usable / 2) with
    | some tier =>
      obtain ⟨stat,chosen,plenty,half⟩ := found tier swept
      refine iff_of_true (fun _ => ⟨stat,by simpa [selectHighWaterTier,swept] using chosen,fun entry eligible => ?_⟩) ?_
      · rw [plain.uniform entry _ eligible chosen,← Nat.mul_assoc]
        exact Nat.mul_le_mul_right _ (half entry eligible)
      · intro _ last
        exact absurd (last _ chosen) (Nat.not_le.mpr plenty)
    | none =>
      have last := missed swept
      have picked : selectHighWaterTier pool true = bestTier pool.usable := by simp [selectHighWaterTier,swept]
      rw [picked]
      constructor
      · intro roomy free _
        exact (roomy free).imp fun _ good => good.1
      · intro unshadowed free
        obtain ⟨stat,chosen⟩ := unshadowed free last
        refine ⟨stat,chosen,fun entry eligible => ?_⟩
        obtain ⟨spare,there,filled⟩ := free
        have positive : 0 < stat.bavail := by
          rcases foldl_better pool.usable (0,0) with ⟨_,empty⟩ | ⟨top,member,same,positive⟩
          · have zero := empty spare there.1
            omega
          · have equal : stat = top.2 := usable_unique chosen.1 member (by rw [bestTier,same])
            rw [equal]
            exact positive
        rw [plain.uniform entry _ eligible chosen,← Nat.mul_assoc]
        apply Nat.mul_le_mul_right
        have one := last entry eligible
        omega

def twoTiers (fast slow : Stat) : Pool := ⟨[some fast,some slow],98,false,.highWater⟩

theorem even_tiers_roomy : Roomy (twoTiers ⟨100,60,4096⟩ ⟨100,70,4096⟩) 0 := by
  have usable : (twoTiers ⟨100,60,4096⟩ ⟨100,70,4096⟩).usable = [(0,⟨100,60,4096⟩),(1,⟨100,70,4096⟩)] := rfl
  have plain : Plain (twoTiers ⟨100,60,4096⟩ ⟨100,70,4096⟩) := by
    refine ⟨?_,by simp [usable]⟩
    rintro entry other ⟨member,_⟩ ⟨there,_⟩
    simp only [usable,List.mem_cons,List.not_mem_nil,or_false] at member there
    rcases member with rfl | rfl <;> rcases there with rfl | rfl <;> rfl
  have unshadowed : Unshadowed (twoTiers ⟨100,60,4096⟩ ⟨100,70,4096⟩) := by
    intro _ last
    exact absurd (last (1,⟨100,70,4096⟩) ⟨by simp [usable],.inl rfl⟩) (by simp)
  exact ((high_water_roomy_iff (by decide) (by simp [usable])).2 plain).mpr unshadowed

/-- Sixty blocks of 512 bytes are chosen before fifty-five of 4096; and a tier
over the full percentage is chosen because the other has one free block. -/
theorem uneven_and_shadowed_tiers :
    selectHighWaterTier (twoTiers ⟨100,60,512⟩ ⟨100,55,4096⟩) true = 0 ∧ ¬ Roomy (twoTiers ⟨100,60,512⟩ ⟨100,55,4096⟩) 0 ∧
    selectHighWaterTier (twoTiers ⟨1000,5,4096⟩ ⟨10,1,4096⟩) true = 0 ∧ ¬ Roomy (twoTiers ⟨1000,5,4096⟩ ⟨10,1,4096⟩) 0 := by
  have uneven : (twoTiers ⟨100,60,512⟩ ⟨100,55,4096⟩).usable = [(0,⟨100,60,512⟩),(1,⟨100,55,4096⟩)] := rfl
  have shadowed : (twoTiers ⟨1000,5,4096⟩ ⟨10,1,4096⟩).usable = [(0,⟨1000,5,4096⟩),(1,⟨10,1,4096⟩)] := rfl
  refine ⟨rfl,fun roomy => ?_,rfl,fun roomy => ?_⟩
  · have slow : Eligible (twoTiers ⟨100,60,512⟩ ⟨100,55,4096⟩) (1,⟨100,55,4096⟩) := ⟨by simp [uneven],.inl rfl⟩
    obtain ⟨stat,chosen,half⟩ := roomy ⟨_,slow,by decide⟩
    obtain rfl : stat = ⟨100,60,512⟩ := by simpa [Eligible,uneven] using chosen.1
    exact absurd (half _ slow) (by decide)
  · obtain ⟨stat,chosen,_⟩ := roomy ⟨_,⟨by simp [shadowed],.inl rfl⟩,show 0 < (1,(⟨10,1,4096⟩ : Stat)).2.bavail by decide⟩
    obtain rfl : stat = ⟨1000,5,4096⟩ := by simpa [shadowed] using chosen.1
    exact absurd chosen.2 (by decide)

end Smoothfs.TierSelection
