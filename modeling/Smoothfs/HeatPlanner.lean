import Mathlib.Algebra.Order.Field.Rat
import Mathlib.Data.List.GetD
import Mathlib.Data.List.Sort
import Mathlib.Tactic.Linarith

/-! `Planner.planPool`: which objects one tick moves up or down by their heat, and
that heat that stays the same does not move an object both ways. -/
namespace Smoothfs.HeatPlanner

abbrev Hex := List Char

structure Config where
  promotePercentile : Int
  demotePercentile : Int
  hysteresisPct : Int

structure TierInfo where
  rank : Nat
  targetID : String
  fillPct : Int
  fullPct : Int

structure Pool where
  cacheMode : Bool
  tiers : List TierInfo

/-- A row of `smoothfs_objects`; `recent` is what `movedRecently` says of its last
movement at the tick. -/
structure Candidate where
  oid : Hex
  currentTier : String
  ewma : ℚ
  recent : Bool
  pinState : String

inductive Heading
  | base | promote | demote
  deriving DecidableEq

structure Plan where
  oid : Hex
  heading : Heading
  source : TierInfo
  dest : TierInfo

def TierInfo.overfull (tier : TierInfo) : Bool := 0 < tier.fullPct && tier.fullPct ≤ tier.fillPct

def percentileIndex (n : Nat) (pct : Int) : Nat :=
  if n ≤ 1 then 0
  else if pct ≤ 0 then 0
  else if 100 ≤ pct then n - 1
  else min (n * pct.toNat / 100) (n - 1)

/-- Where the promotion cut is read: one before the hottest object. -/
def promoteAt (cfg : Config) (n : Nat) : Nat :=
  let index := percentileIndex n cfg.promotePercentile
  if 0 < cfg.hysteresisPct ∧ index = n - 1 ∧ 0 < index then index - 1 else index

/-- Where the demotion cut is read: one after the coldest object. -/
def demoteAt (cfg : Config) (n : Nat) : Nat :=
  let index := percentileIndex n cfg.demotePercentile
  if 0 < cfg.hysteresisPct ∧ index = 0 ∧ 1 < n then 1 else index

/-- From the heats in ascending order. -/
def movementGates (cfg : Config) (heats : List ℚ) : ℚ × ℚ :=
  let promoteCut := heats.getD (promoteAt cfg heats.length) 0
  let demoteCut := heats.getD (demoteAt cfg heats.length) 0
  if cfg.hysteresisPct ≤ 0 then (promoteCut,demoteCut)
  else
    let hysteresis : ℚ := cfg.hysteresisPct / 100
    (promoteCut * (1 + hysteresis),max (demoteCut * (1 - hysteresis)) 0)

def decodes (oid : Hex) : Bool :=
  oid.length = 32 && oid.all fun digit => digit.isDigit || ('a' ≤ digit && digit ≤ 'f') || ('A' ≤ digit && digit ≤ 'F')

def buildMovementPlan (heading : Heading) (cur : TierInfo) (c : Candidate) (dest : TierInfo) : Option Plan :=
  if dest.overfull then none else if decodes c.oid then some ⟨c.oid,heading,cur,dest⟩ else none

/-- One turn of the loop; the outer `none` is an index outside the tier list. The
map by target keeps the last of several tiers with one id. -/
def planOne (pool : Pool) (gates : ℚ × ℚ) (c : Candidate) : Option (Option Plan) :=
  match pool.tiers.reverse.find? (·.targetID = c.currentTier) with
  | none => some none
  | some cur =>
    if c.pinState ≠ "" ∧ c.pinState ≠ "none" then some none
    else if pool.cacheMode then
      pool.tiers.getLast?.map fun base => if cur.rank ≠ base.rank then buildMovementPlan .base cur c base else none
    else if gates.1 ≤ c.ewma ∧ 0 < cur.rank then
      if c.recent then some none else pool.tiers[cur.rank - 1]?.map (buildMovementPlan .promote cur c)
    else if (c.ewma ≤ gates.2 ∨ cur.overfull) ∧ cur.rank < pool.tiers.length - 1 then
      if !cur.overfull && c.recent then some none else pool.tiers[cur.rank + 1]?.map (buildMovementPlan .demote cur c)
    else some none

def planAll (pool : Pool) (gates : ℚ × ℚ) : List Candidate → Option (List Plan)
  | [] => some []
  | c::rest => do
    let plan ← planOne pool gates c
    let plans ← planAll pool gates rest
    return plan.toList ++ plans

def planPool (cfg : Config) (pool : Pool) (objs : List Candidate) : Option (List Plan) :=
  if pool.tiers.length < 2 ∨ objs = [] then some []
  else planAll pool (movementGates cfg (objs.map (·.ewma))) objs

structure Tick where
  pool : Pool
  objs : List Candidate

def Tick.Heads (cfg : Config) (tick : Tick) (heading : Heading) (oid : Hex) : Prop :=
  ∃ plans, planPool cfg tick.pool tick.objs = some plans ∧ ∃ plan ∈ plans, plan.oid = oid ∧ plan.heading = heading

/-- The tick sees the objects with their heats, sorted; no tier is over its
threshold and every residency time is over. -/
structure Tick.Calm (oids : List Hex) (heat : Hex → ℚ) (tick : Tick) : Prop where
  same : (tick.objs.map (·.oid)).Perm oids
  heats : ∀ c ∈ tick.objs, c.ewma = heat c.oid
  sorted : tick.objs.Pairwise (·.ewma ≤ ·.ewma)
  room : ∀ tier ∈ tick.pool.tiers, tier.overfull = false
  elapsed : ∀ c ∈ tick.objs, c.recent = false

def NeverBounces (cfg : Config) (oids : List Hex) (heat : Hex → ℚ) : Prop :=
  ∀ ticks : List Tick, (∀ tick ∈ ticks, tick.Calm oids heat) →
    ticks.Pairwise fun earlier later => ∀ oid, earlier.Heads cfg .promote oid → ¬ later.Heads cfg .demote oid

def promoteCut (cfg : Config) (oids : List Hex) (heat : Hex → ℚ) : ℚ :=
  ((oids.map heat).insertionSort (· ≤ ·)).getD (promoteAt cfg oids.length) 0

variable {cfg : Config} {pool : Pool} {gates : ℚ × ℚ} {objs : List Candidate} {plans : List Plan} {plan : Plan}

theorem planAll_mem (planned : planAll pool gates objs = some plans) (member : plan ∈ plans) :
    ∃ c ∈ objs, planOne pool gates c = some (some plan) := by
  induction objs generalizing plans with
  | nil =>
    simp only [planAll,Option.some.injEq] at planned
    simp [← planned] at member
  | cons c rest ih =>
    simp only [planAll,Option.bind_eq_bind,Option.bind_eq_some_iff,Option.pure_def,Option.some.injEq] at planned
    obtain ⟨first,chosen,others,later,rfl⟩ := planned
    rcases List.mem_append.mp member with here | there
    · rw [Option.mem_toList] at here
      exact ⟨c,List.mem_cons_self,by rw [chosen,here]⟩
    · obtain ⟨other,inside,made⟩ := ih later there
      exact ⟨other,List.mem_cons_of_mem _ inside,made⟩

theorem buildMovementPlan_spec {heading : Heading} {cur dest : TierInfo} {c : Candidate}
    (built : buildMovementPlan heading cur c dest = some plan) :
    plan.oid = c.oid ∧ plan.heading = heading := by
  simp only [buildMovementPlan,Option.ite_none_left_eq_some,Option.ite_none_right_eq_some,Option.some.injEq] at built
  obtain ⟨_,_,rfl⟩ := built
  exact ⟨rfl,rfl⟩

theorem planOne_spec {c : Candidate} (room : ∀ tier ∈ pool.tiers, tier.overfull = false)
    (made : planOne pool gates c = some (some plan)) : plan.oid = c.oid ∧
      (plan.heading = .promote → gates.1 ≤ c.ewma) ∧ (plan.heading = .demote → c.ewma ≤ gates.2) := by
  unfold planOne at made
  split at made
  · cases made
  next cur found =>
  have empty := room cur (List.mem_reverse.mp (List.mem_of_find?_eq_some found))
  split_ifs at made with pinned cached hot recent cold settled
  · cases made
  · obtain ⟨base,_,built⟩ := Option.map_eq_some_iff.mp made
    split at built
    · obtain ⟨same,heading⟩ := buildMovementPlan_spec built
      simp [same,heading]
    · cases built
  · cases made
  · obtain ⟨dest,_,built⟩ := Option.map_eq_some_iff.mp made
    obtain ⟨same,heading⟩ := buildMovementPlan_spec built
    simp [same,heading,hot.1]
  · cases made
  · obtain ⟨dest,_,built⟩ := Option.map_eq_some_iff.mp made
    obtain ⟨same,heading⟩ := buildMovementPlan_spec built
    have below : c.ewma ≤ gates.2 := by simpa [empty] using cold.1
    simp [same,heading,below]
  · cases made

theorem percentileIndex_lt {n : Nat} (filled : 0 < n) (pct : Int) : percentileIndex n pct < n := by
  unfold percentileIndex
  split_ifs <;> omega

theorem percentileIndex_mono {n : Nat} {low high : Int} (less : low < high) :
    percentileIndex n low ≤ percentileIndex n high := by
  have scaled : n * low.toNat / 100 ≤ n * high.toNat / 100 :=
    Nat.div_le_div_right (Nat.mul_le_mul_left n (by omega))
  unfold percentileIndex
  split_ifs <;> omega

/-- The shifts at the two ends take the cuts past each other by one at most. -/
theorem demoteAt_le (less : cfg.demotePercentile < cfg.promotePercentile) (n : Nat) : demoteAt cfg n ≤ promoteAt cfg n + 1 := by
  have order := percentileIndex_mono (n := n) less
  simp only [demoteAt,promoteAt]
  split_ifs <;> omega

theorem promoteAt_lt (cfg : Config) {n : Nat} (filled : 0 < n) : promoteAt cfg n < n := by
  have bound := percentileIndex_lt filled cfg.promotePercentile
  simp only [promoteAt]
  split_ifs <;> omega

theorem demoteAt_lt (cfg : Config) {n : Nat} (filled : 0 < n) : demoteAt cfg n < n := by
  have bound := percentileIndex_lt filled cfg.demotePercentile
  simp only [demoteAt]
  split_ifs <;> omega

structure Config.Banded (cfg : Config) : Prop where
  less : cfg.demotePercentile < cfg.promotePercentile
  positive : 1 ≤ cfg.hysteresisPct
  bounded : cfg.hysteresisPct ≤ 100

variable {heats : List ℚ} {heat : ℚ}

/-- Above a promotion cut that is not zero, no heat passes both gates. -/
theorem Config.Banded.gates_apart (banded : cfg.Banded) (sorted : heats.Pairwise (· ≤ ·)) (positive : ∀ heat ∈ heats, 0 ≤ heat)
    (above : 0 < heats.getD (promoteAt cfg heats.length) 0) (member : heat ∈ heats)
    (hot : (movementGates cfg heats).1 ≤ heat) : (movementGates cfg heats).2 < heat := by
  obtain ⟨index,inside,rfl⟩ := List.mem_iff_getElem.mp member
  have filled : 0 < heats.length := List.length_pos_of_mem member
  have ordered (i j : Nat) (first : i < heats.length) (second : j < heats.length) (le : i ≤ j) : heats[i] ≤ heats[j] :=
    sorted.sortedLE.getElem_le_getElem_of_le le
  have promote := promoteAt_lt cfg filled
  have demote := demoteAt_lt cfg filled
  have scale : 0 < (cfg.hysteresisPct : ℚ) / 100 ∧ (cfg.hysteresisPct : ℚ) / 100 ≤ 1 := by
    have positive : (1 : ℚ) ≤ cfg.hysteresisPct := by exact_mod_cast banded.positive
    have bounded : (cfg.hysteresisPct : ℚ) ≤ 100 := by exact_mod_cast banded.bounded
    constructor <;> linarith
  simp only [movementGates,if_neg (show ¬ cfg.hysteresisPct ≤ 0 by have := banded.positive; omega),
    List.getD_eq_getElem _ _ promote,List.getD_eq_getElem _ _ demote] at hot above ⊢
  generalize (cfg.hysteresisPct : ℚ) / 100 = hysteresis at hot scale ⊢
  have cool : 0 ≤ heats[demoteAt cfg heats.length] := positive _ (List.getElem_mem _)
  have grows := mul_pos above scale.1
  have shrinks := mul_nonneg cool scale.1.le
  rw [max_eq_left (mul_nonneg cool (by linarith))]
  rcases Nat.lt_or_ge (promoteAt cfg heats.length) (demoteAt cfg heats.length) with crossed | apart
  · have near := demoteAt_le banded.less heats.length
    have below := ordered _ _ promote demote crossed.le
    rcases Nat.lt_or_ge (promoteAt cfg heats.length) index with right | left
    · have higher := ordered _ index demote inside (by omega)
      have falls := mul_pos (above.trans_le below) scale.1
      linarith
    · have lower := ordered index _ inside promote left
      linarith
  · have below := ordered _ _ demote promote apart
    linarith

variable {oids : List Hex} {heatOf : Hex → ℚ} {tick : Tick}

theorem Tick.Calm.heats_eq (calm : tick.Calm oids heatOf) :
    tick.objs.map (·.ewma) = (oids.map heatOf).insertionSort (· ≤ ·) := by
  have named : tick.objs.map (·.ewma) = (tick.objs.map (·.oid)).map heatOf := by
    rw [List.map_map]
    exact List.map_congr_left calm.heats
  apply List.Perm.eq_of_pairwise (fun _ _ _ _ => le_antisymm) (List.pairwise_map.mpr calm.sorted) (List.pairwise_insertionSort _ _)
  rw [named]
  exact (calm.same.map heatOf).trans (List.perm_insertionSort _ _).symm

theorem Tick.Calm.heads (calm : tick.Calm oids heatOf) {heading : Heading} {oid : Hex} (heads : tick.Heads cfg heading oid) :
    oid ∈ oids ∧
      (heading = .promote → (movementGates cfg ((oids.map heatOf).insertionSort (· ≤ ·))).1 ≤ heatOf oid) ∧
      (heading = .demote → heatOf oid ≤ (movementGates cfg ((oids.map heatOf).insertionSort (· ≤ ·))).2) := by
  obtain ⟨plans,planned,plan,member,rfl,rfl⟩ := heads
  unfold planPool at planned
  split at planned
  · simp only [Option.some.injEq] at planned
    simp [← planned] at member
  obtain ⟨c,inside,made⟩ := planAll_mem planned member
  rw [calm.heats_eq] at made
  obtain ⟨same,hot,cold⟩ := planOne_spec calm.room made
  rw [same,← calm.heats c inside]
  exact ⟨calm.same.mem_iff.mp (List.mem_map_of_mem inside),hot,cold⟩

/-- Objects whose promotion cut is above zero never bounce. -/
theorem heat_never_bounces (banded : cfg.Banded) (positive : ∀ oid ∈ oids, 0 ≤ heatOf oid)
    (above : 0 < promoteCut cfg oids heatOf) : NeverBounces cfg oids heatOf := by
  intro ticks calm
  rw [List.pairwise_iff_getElem]
  intro i j first second _ oid promoted demoted
  obtain ⟨member,hot,_⟩ := (calm _ (List.getElem_mem first)).heads promoted
  obtain ⟨_,_,cold⟩ := (calm _ (List.getElem_mem second)).heads demoted
  have nonneg : ∀ heat ∈ (oids.map heatOf).insertionSort (· ≤ ·), 0 ≤ heat := by simpa using positive
  have inside : heatOf oid ∈ (oids.map heatOf).insertionSort (· ≤ ·) := by
    simpa using ⟨oid,member,rfl⟩
  have apart := banded.gates_apart (List.pairwise_insertionSort _ _) nonneg (by simpa [promoteCut] using above) inside (hot rfl)
  exact absurd (cold rfl) apart.not_ge

def usual : Config := ⟨80,20,10⟩

theorem usual_banded : usual.Banded := ⟨by decide,by decide,by decide⟩

theorem warm_objects_never_bounce : NeverBounces usual [['a'],['b']] (fun _ => 1) :=
  heat_never_bounces usual_banded (by simp) (by simp [promoteCut,promoteAt,percentileIndex,usual])

def idle : Hex := List.replicate 32 'a'

def idleOn (tier : String) : Tick :=
  ⟨⟨false,[⟨0,"fast",0,0⟩,⟨1,"slow",0,0⟩]⟩,[⟨idle,tier,0,false,"none"⟩]⟩

/-- One object without heat: its gates are zero, so it goes up and then down. -/
theorem idle_object_bounces : usual.Banded ∧ (idleOn "slow").Calm [idle] (fun _ => 0) ∧ (idleOn "fast").Calm [idle] (fun _ => 0) ∧
    (idleOn "slow").Heads usual .promote idle ∧ (idleOn "fast").Heads usual .demote idle := by
  have calm (tier : String) : (idleOn tier).Calm [idle] (fun _ => 0) := by
    constructor <;> simp [idleOn,TierInfo.overfull]
  have valid : decodes idle = true := by decide
  have up : planPool usual (idleOn "slow").pool (idleOn "slow").objs = some [⟨idle,.promote,⟨1,"slow",0,0⟩,⟨0,"fast",0,0⟩⟩] := by
    simp [planPool,planAll,planOne,idleOn,movementGates,buildMovementPlan,TierInfo.overfull,valid]
  have down : planPool usual (idleOn "fast").pool (idleOn "fast").objs = some [⟨idle,.demote,⟨0,"fast",0,0⟩,⟨1,"slow",0,0⟩⟩] := by
    simp [planPool,planAll,planOne,idleOn,movementGates,buildMovementPlan,TierInfo.overfull,valid]
  exact ⟨usual_banded,calm "slow",calm "fast",⟨_,up,_,List.mem_singleton_self _,rfl,rfl⟩,⟨_,down,_,List.mem_singleton_self _,rfl,rfl⟩⟩

end Smoothfs.HeatPlanner
