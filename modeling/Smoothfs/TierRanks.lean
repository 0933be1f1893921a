import Smoothfs.HeatPlanner

/-! `Service.discoverPool` and the tiers that `planPool` names: it uses the ranks
of `tier_targets` as positions in the sorted list of tiers. -/
namespace Smoothfs.TierRanks
open HeatPlanner

structure TierTarget where
  id : String
  placementDomain : String
  backendKind : String
  rank : Int
  fullThresholdPct : Int
  backingRef : String

structure Table where
  rows : List TierTarget
  keyed : (rows.map (·.id)).Nodup

/-- The domain of the namespace, the ranks of the mount event and what `storage_mode`
says; `none` is an error. -/
structure Mounted where
  domain : Option String
  ranks : List Nat
  cacheMode : Option Bool

/-- `sort.Slice` by rank leaves equal ranks in any order. -/
structure Sorter where
  sort : List TierInfo → List TierInfo
  perm : ∀ tiers, (sort tiers).Perm tiers
  ordered : ∀ tiers, (sort tiers).Pairwise (·.rank ≤ ·.rank)

def tierInfo (row : TierTarget) : TierInfo := ⟨(row.rank % 256).toNat,row.id,0,row.fullThresholdPct⟩

def discoverPool (sorter : Sorter) (mounted : Mounted) (table : Table) : Option Pool :=
  mounted.domain.bind fun domain =>
    let rows := table.rows.filter fun row => row.placementDomain = domain ∧ row.backendKind = "smoothfs"
    if rows.any fun row => row.backingRef = "" ∧ ∀ rank ∈ mounted.ranks, (rank : Int) ≠ row.rank then none
    else if rows.isEmpty then none
    else mounted.cacheMode.map fun cache => ⟨cache,sorter.sort (rows.map tierInfo)⟩

/-- A tick first measures how full every tier is. -/
def measured (pool : Pool) (fill : String → Int) : Pool :=
  {pool with tiers := pool.tiers.map fun tier => {tier with fillPct := fill tier.targetID}}

def Table.rank (table : Table) (id : String) : Int := ((table.rows.find? (·.id = id)).map (·.rank)).getD 0

section Ranks

variable (ranks : String → Int)

def Between (one two tier : TierInfo) : Prop :=
  min (ranks one.targetID) (ranks two.targetID) < ranks tier.targetID ∧ ranks tier.targetID < max (ranks one.targetID) (ranks two.targetID)

/-- The ranks are those of the table: `TierInfo.rank` has only their last byte. -/
def NextTo (tiers : List TierInfo) (source dest : TierInfo) : Prop :=
  dest ∈ tiers ∧ ranks source.targetID ≠ ranks dest.targetID ∧ ∀ tier ∈ tiers, ¬Between ranks source dest tier

def Base (tiers : List TierInfo) (tier : TierInfo) : Prop :=
  tier ∈ tiers ∧ ∀ other ∈ tiers, ranks other.targetID ≤ ranks tier.targetID

def Named (pool : Pool) (plan : Plan) : Prop :=
  if pool.cacheMode then Base ranks pool.tiers plan.dest ∧ plan.source.targetID ≠ plan.dest.targetID
  else NextTo ranks pool.tiers plan.source plan.dest

/-- No tick indexes outside the list, and every plan of it names a neighbour. -/
def NamesNeighbours (pool : Pool) : Prop :=
  ∀ (cfg : Config) (fill : String → Int) (objs : List Candidate),
    ∃ plans, planPool cfg (measured pool fill) objs = some plans ∧ ∀ plan ∈ plans, Named ranks (measured pool fill) plan

/-- The last bytes of the ranks count the places, and between the ranks of two tiers in a row lies
no other. -/
structure Contiguous (tiers : List TierInfo) : Prop where
  positioned : ∀ (index : Nat) (tier : TierInfo), tiers[index]? = some tier → ranks tier.targetID % 256 = index
  adjacent : ∀ (index : Nat) (one two : TierInfo), tiers[index]? = some one → tiers[index + 1]? = some two →
    ∀ tier ∈ tiers, ¬Between ranks one two tier

/-- The last tier is the base, or no tier differs from it in the last byte. -/
def Based (tiers : List TierInfo) : Prop :=
  ∀ last, tiers.getLast? = some last →
    Base ranks tiers last ∨ ∀ tier ∈ tiers, ranks tier.targetID % 256 = ranks last.targetID % 256

end Ranks

def Positioned (tiers : List TierInfo) : Prop :=
  ∀ (index : Nat) (tier : TierInfo), tiers[index]? = some tier → tier.rank = index

variable {pool : Pool} {gates : ℚ × ℚ} {objs : List Candidate} {tiers : List TierInfo}

theorem planAll_all {good : Plan → Prop}
    (each : ∀ c ∈ objs, ∃ made, planOne pool gates c = some made ∧ ∀ plan, made = some plan → good plan) :
    ∃ plans, planAll pool gates objs = some plans ∧ ∀ plan ∈ plans, good plan := by
  induction objs with
  | nil => exact ⟨[],rfl,by simp⟩
  | cons c rest ih =>
    obtain ⟨made,chosen,first⟩ := each c List.mem_cons_self
    obtain ⟨plans,planned,others⟩ := ih fun other member => each other (List.mem_cons_of_mem _ member)
    refine ⟨made.toList ++ plans,by simp [planAll,chosen,planned],fun plan member => ?_⟩
    rcases List.mem_append.mp member with here | there
    · exact first plan (Option.mem_toList.mp here)
    · exact others plan there

variable {ranks : String → Int}

def Bytes (ranks : String → Int) (tiers : List TierInfo) : Prop :=
  ∀ tier ∈ tiers, (tier.rank : Int) = ranks tier.targetID % 256

theorem Contiguous.rank (contiguous : Contiguous ranks tiers) (bytes : Bytes ranks tiers) : Positioned tiers := by
  intro index tier there
  exact Int.ofNat_inj.mp ((bytes tier (List.mem_of_getElem? there)).trans (contiguous.positioned index tier there))

theorem Contiguous.nextTo (contiguous : Contiguous ranks tiers) {source dest : TierInfo} {i j : Nat} (here : tiers[i]? = some source)
    (there : tiers[j]? = some dest) (near : i = j + 1 ∨ j = i + 1) : NextTo ranks tiers source dest := by
  refine ⟨List.mem_of_getElem? there,fun same => ?_,fun tier member => ?_⟩
  · have first := contiguous.positioned i source here
    have second := contiguous.positioned j dest there
    rw [same] at first
    omega
  · rcases near with rfl | rfl
    · have apart := contiguous.adjacent j dest source there here tier member
      rwa [Between,min_comm,max_comm] at apart
    · exact contiguous.adjacent i source dest here there tier member

theorem planOne_named (bytes : Bytes ranks pool.tiers)
    (safe : if pool.cacheMode then Based ranks pool.tiers else Contiguous ranks pool.tiers) (c : Candidate) :
    ∃ made, planOne pool gates c = some made ∧ ∀ plan, made = some plan → Named ranks pool plan := by
  have built (heading : Heading) (cur dest : TierInfo) (named : Named ranks pool ⟨c.oid,heading,cur,dest⟩) (plan : Plan)
      (made : buildMovementPlan heading cur c dest = some plan) : Named ranks pool plan := by
    simp only [buildMovementPlan,Option.ite_none_left_eq_some,Option.ite_none_right_eq_some,Option.some.injEq] at made
    obtain ⟨_,_,rfl⟩ := made
    exact named
  unfold planOne
  split
  · exact ⟨none,rfl,by simp⟩
  next cur found =>
  have member := List.mem_reverse.mp (List.mem_of_find?_eq_some found)
  obtain ⟨index,inside,here⟩ := List.mem_iff_getElem.mp member
  have here : pool.tiers[index]? = some cur := by rw [List.getElem?_eq_getElem inside,here]
  have ranked (tiered : ¬ pool.cacheMode = true) : Contiguous ranks pool.tiers := by rwa [if_neg tiered] at safe
  have at_rank (tiered : ¬ pool.cacheMode = true) : cur.rank = index := (ranked tiered).rank bytes index cur here
  split_ifs with pinned cached hot recent cold settled
  · exact ⟨none,rfl,by simp⟩
  · obtain ⟨base,last⟩ := List.getLast?_isSome.mpr (List.ne_nil_of_mem member) |> Option.isSome_iff_exists.mp
    rw [last]
    refine ⟨_,rfl,fun plan made => ?_⟩
    dsimp only at made
    split at made
    · next other =>
      rw [if_pos cached] at safe
      have bottom := bytes base (List.mem_of_getLast? last)
      have own := bytes cur member
      refine built .base cur base ?_ plan made
      rw [Named,if_pos cached]
      refine ⟨(safe base last).resolve_right fun same => other ?_,fun same => other ?_⟩
      · have equal := same cur member
        omega
      · have equal : ranks cur.targetID = ranks base.targetID := congrArg ranks same
        omega
    · cases made
  · exact ⟨none,rfl,by simp⟩
  · have above : cur.rank - 1 < pool.tiers.length := by have := at_rank cached; omega
    rw [List.getElem?_eq_getElem above]
    refine ⟨_,rfl,built .promote cur _ ?_⟩
    rw [Named,if_neg cached]
    have place := at_rank cached
    exact (ranked cached).nextTo here (List.getElem?_eq_getElem above) (.inl (by omega))
  · exact ⟨none,rfl,by simp⟩
  · have below : cur.rank + 1 < pool.tiers.length := by omega
    rw [List.getElem?_eq_getElem below]
    refine ⟨_,rfl,built .demote cur _ ?_⟩
    rw [Named,if_neg cached]
    have place := at_rank cached
    exact (ranked cached).nextTo here (List.getElem?_eq_getElem below) (.inr (by omega))
  · exact ⟨none,rfl,by simp⟩

/-- Where the places before and after every rank exist and hold another rank, sorted ranks
count the places. -/
theorem positioned_of_differing (sorted : tiers.Pairwise (·.rank ≤ ·.rank))
    (before : ∀ tier ∈ tiers, 0 < tier.rank → ∃ dest, tiers[tier.rank - 1]? = some dest ∧ tier.rank ≠ dest.rank)
    (after : ∀ tier ∈ tiers, tier.rank + 1 < tiers.length → ∃ dest, tiers[tier.rank + 1]? = some dest ∧ tier.rank ≠ dest.rank) :
    Positioned tiers := by
  have monotone {i j : Nat} {one two : TierInfo} (first : tiers[i]? = some one) (second : tiers[j]? = some two) (le : i ≤ j) :
      one.rank ≤ two.rank := by
    obtain ⟨left,rfl⟩ := List.getElem?_eq_some_iff.mp first
    obtain ⟨right,rfl⟩ := List.getElem?_eq_some_iff.mp second
    rcases Nat.lt_or_eq_of_le le with less | rfl
    · exact List.pairwise_iff_getElem.mp sorted i j left right less
    · exact Nat.le_refl _
  have inside {i : Nat} {one : TierInfo} (there : tiers[i]? = some one) : i < tiers.length :=
    (List.getElem?_eq_some_iff.mp there).1
  -- a rank above its place leads to a greater one that is above its place too
  have low (bound : Nat) : ∀ (p : Nat) (tier : TierInfo), tiers[p]? = some tier → tiers.length + 1 - tier.rank = bound → tier.rank ≤ p := by
    induction bound using Nat.strong_induction_on with
    | _ bound ih =>
      intro p tier there measure
      by_contra above
      obtain ⟨dest,place,other⟩ := before tier (List.mem_of_getElem? there) (by omega)
      have rises := monotone there place (by omega)
      have room := inside place
      have next := ih (tiers.length + 1 - dest.rank) (by omega) _ dest place rfl
      omega
  have high (bound : Nat) : ∀ (p : Nat) (tier : TierInfo), tiers[p]? = some tier → tier.rank = bound → p ≤ tier.rank := by
    induction bound using Nat.strong_induction_on with
    | _ bound ih =>
      intro p tier there measure
      by_contra beneath
      have room := inside there
      obtain ⟨dest,place,other⟩ := after tier (List.mem_of_getElem? there) (by omega)
      have sinks := monotone place there (by omega)
      have next := ih dest.rank (by omega) _ dest place rfl
      omega
  exact fun p tier there => Nat.le_antisymm (low _ p tier there rfl) (high _ p tier there rfl)

theorem Based.measured (based : Based ranks pool.tiers) (fill : String → Int) : Based ranks (measured pool fill).tiers := by
  intro last there
  rw [TierRanks.measured,List.getLast?_map] at there
  obtain ⟨own,bottom,rfl⟩ := Option.map_eq_some_iff.mp there
  refine (based own bottom).imp (fun base => ⟨List.mem_map_of_mem base.1,fun tier member => ?_⟩) (fun same tier member => ?_)
  · obtain ⟨other,listed,rfl⟩ := List.mem_map.mp member
    exact base.2 other listed
  · obtain ⟨other,listed,rfl⟩ := List.mem_map.mp member
    exact same other listed

theorem Contiguous.measured (contiguous : Contiguous ranks pool.tiers) (fill : String → Int) :
    Contiguous ranks (measured pool fill).tiers := by
  refine ⟨fun index tier there => ?_,fun index one two first second tier member => ?_⟩
  · obtain ⟨own,listed,rfl⟩ := Option.map_eq_some_iff.mp ((List.getElem?_map ..).symm.trans there)
    exact contiguous.positioned index own listed
  · obtain ⟨left,here,rfl⟩ := Option.map_eq_some_iff.mp ((List.getElem?_map ..).symm.trans first)
    obtain ⟨right,there,rfl⟩ := Option.map_eq_some_iff.mp ((List.getElem?_map ..).symm.trans second)
    obtain ⟨own,listed,rfl⟩ := List.mem_map.mp member
    exact contiguous.adjacent index left right here there own listed

def emptied (tier : TierInfo) : TierInfo := {tier with fillPct := 0}

def emptyTick (pool : Pool) : Pool := measured pool fun _ => 0

def coldOn (tier : TierInfo) : Candidate := ⟨idle,tier.targetID,0,false,"none"⟩

theorem found_tier (keyed : (pool.tiers.map (·.targetID)).Nodup) {tier : TierInfo} (member : tier ∈ pool.tiers) :
    (emptyTick pool).tiers.reverse.find? (·.targetID = tier.targetID) = some (emptied tier) := by
  cases found : (emptyTick pool).tiers.reverse.find? (·.targetID = tier.targetID) with
  | none =>
    have listed : emptied tier ∈ (emptyTick pool).tiers := List.mem_map_of_mem member
    simpa [emptied] using List.find?_eq_none.mp found (emptied tier) (List.mem_reverse.mpr listed)
  | some other =>
    obtain ⟨own,inside,rfl⟩ := List.mem_map.mp (List.mem_reverse.mp (List.mem_of_find?_eq_some found))
    have same : own.targetID = tier.targetID := by simpa using List.find?_some found
    rw [List.inj_on_of_nodup_map keyed inside member same]
    rfl

/-- A tick with the cold object on the tier and a pinned object of heat 1, which sets the gates. -/
theorem NamesNeighbours.chosen (names : NamesNeighbours ranks pool) (several : ¬ pool.tiers.length < 2)
    (tier : TierInfo) (promote : Int) (heading : Heading) (place : Option TierInfo)
    (chosen : planOne (emptyTick pool) (movementGates ⟨promote,0,0⟩ [0,1]) (coldOn tier) =
      (place.map emptied).map (buildMovementPlan heading (emptied tier) (coldOn tier))) :
    ∃ dest, place = some dest ∧ Named ranks (emptyTick pool) ⟨idle,heading,emptied tier,emptied dest⟩ := by
  obtain ⟨plans,made,named⟩ := names ⟨promote,0,0⟩ (fun _ => 0) [coldOn tier,⟨idle,tier.targetID,1,false,"hot"⟩]
  rw [planPool,if_neg (by simpa [measured] using several)] at made
  simp only [planAll,Option.bind_eq_bind,Option.bind_eq_some_iff] at made
  obtain ⟨first,there,others,_,same⟩ := made
  obtain ⟨dest,placed,built⟩ := Option.map_eq_some_iff.mp (chosen.symm.trans there)
  obtain ⟨own,listed,rfl⟩ := Option.map_eq_some_iff.mp placed
  have valid : decodes idle = true := by decide
  have planned : first = some ⟨idle,heading,emptied tier,emptied own⟩ := by
    have empty : (emptied own).fillPct = 0 := rfl
    rw [← built]
    simp only [buildMovementPlan,TierInfo.overfull,Bool.and_eq_true,decide_eq_true_eq]
    rw [if_neg (by omega)]
    exact if_pos valid
  have member : (⟨idle,heading,emptied tier,emptied own⟩ : Plan) ∈ plans := by
    cases same
    simp [planned]
  exact ⟨own,listed,named _ member⟩

variable (names : NamesNeighbours ranks pool) (several : ¬ pool.tiers.length < 2) (keyed : (pool.tiers.map (·.targetID)).Nodup)

include names several keyed

theorem NamesNeighbours.contiguous (tiered : pool.cacheMode = false) (sorted : pool.tiers.Pairwise (·.rank ≤ ·.rank))
    (bytes : Bytes ranks pool.tiers) : Contiguous ranks pool.tiers := by
  have next {tier : TierInfo} {place : Nat} (promote : Int) (heading : Heading)
      (chosen : planOne (emptyTick pool) (movementGates ⟨promote,0,0⟩ [0,1]) (coldOn tier) =
        (emptyTick pool).tiers[place]?.map (buildMovementPlan heading (emptied tier) (coldOn tier))) :
      ∃ dest, pool.tiers[place]? = some dest ∧ ranks tier.targetID ≠ ranks dest.targetID ∧
        ∀ other ∈ pool.tiers, ¬Between ranks tier dest other := by
    have placed : (emptyTick pool).tiers[place]? = (pool.tiers[place]?).map emptied := List.getElem?_map ..
    rw [placed] at chosen
    obtain ⟨dest,there,named⟩ := names.chosen several tier promote heading _ chosen
    rw [Named,if_neg (by simp [emptyTick,measured,tiered])] at named
    exact ⟨dest,there,named.2.1,fun other member => named.2.2 (emptied other) (List.mem_map_of_mem member)⟩
  have before (tier : TierInfo) (member : tier ∈ pool.tiers) (positive : 0 < tier.rank) :
      ∃ dest, pool.tiers[tier.rank - 1]? = some dest ∧ ranks tier.targetID ≠ ranks dest.targetID ∧
        ∀ other ∈ pool.tiers, ¬Between ranks tier dest other := by
    refine next 0 .promote ?_
    have gates : movementGates ⟨0,0,0⟩ [0,1] = (0,0) := by simp [movementGates,promoteAt,demoteAt,percentileIndex]
    have found : (emptyTick pool).tiers.reverse.find? (·.targetID = (coldOn tier).currentTier) = _ := found_tier keyed member
    have hot : 0 < (emptied tier).rank := positive
    rw [planOne,found,gates]
    simp [coldOn,hot,emptyTick,measured,tiered]
    rfl
  have after (tier : TierInfo) (member : tier ∈ pool.tiers) (inside : tier.rank + 1 < pool.tiers.length) :
      ∃ dest, pool.tiers[tier.rank + 1]? = some dest ∧ ranks tier.targetID ≠ ranks dest.targetID ∧
        ∀ other ∈ pool.tiers, ¬Between ranks tier dest other := by
    refine next 100 .demote ?_
    have gates : movementGates ⟨100,0,0⟩ [0,1] = (1,0) := by simp [movementGates,promoteAt,demoteAt,percentileIndex]
    have found : (emptyTick pool).tiers.reverse.find? (·.targetID = (coldOn tier).currentTier) = _ := found_tier keyed member
    have cold : (emptied tier).rank < pool.tiers.length - 1 := by change tier.rank < _; omega
    rw [planOne,found,gates]
    simp [coldOn,cold,emptyTick,measured,tiered]
    rfl
  -- a tier with the byte of its neighbour would be its own neighbour
  have positioned : Positioned pool.tiers := by
    refine positioned_of_differing sorted (fun tier member positive => ?_) (fun tier member inside => ?_)
    · obtain ⟨dest,there,_⟩ := before tier member positive
      refine ⟨dest,there,fun same => ?_⟩
      obtain ⟨again,here,differ,_⟩ := before dest (List.mem_of_getElem? there) (same ▸ positive)
      rw [← same,there] at here
      cases here
      exact differ rfl
    · obtain ⟨dest,there,_⟩ := after tier member inside
      refine ⟨dest,there,fun same => ?_⟩
      obtain ⟨again,here,differ,_⟩ := after dest (List.mem_of_getElem? there) (same ▸ inside)
      rw [← same,there] at here
      cases here
      exact differ rfl
  refine ⟨fun index tier there => ?_,fun index one two first second => ?_⟩
  · rw [← bytes tier (List.mem_of_getElem? there),positioned index tier there]
  · have rank := positioned index one first
    obtain ⟨dest,there,_,apart⟩ := after one (List.mem_of_getElem? first) (rank ▸ (List.getElem?_eq_some_iff.mp second).1)
    rw [rank,second] at there
    cases there
    exact apart

theorem NamesNeighbours.based (cached : pool.cacheMode = true) (bytes : Bytes ranks pool.tiers) : Based ranks pool.tiers := by
  intro last there
  refine or_iff_not_imp_right.mpr fun differ => ?_
  obtain ⟨tier,rest⟩ := not_forall.mp differ
  obtain ⟨member,differ⟩ := Classical.not_imp.mp rest
  have bottom : (emptyTick pool).tiers.getLast? = some (emptied last) := by
    rw [emptyTick,measured,List.getLast?_map,there]
    rfl
  have other : (emptied tier).rank ≠ (emptied last).rank := by
    intro same
    have own := bytes tier member
    have base := bytes last (List.mem_of_getLast? there)
    have same : tier.rank = last.rank := same
    omega
  obtain ⟨dest,placed,named⟩ := names.chosen several tier 0 .base (some last) (by
    have found : (emptyTick pool).tiers.reverse.find? (·.targetID = (coldOn tier).currentTier) = _ := found_tier keyed member
    have cache : (emptyTick pool).cacheMode = true := cached
    rw [planOne,found]
    simp [bottom,coldOn,cache,other])
  cases placed
  rw [Named,if_pos (by simp [emptyTick,measured,cached])] at named
  exact ⟨List.mem_of_getLast? there,fun one member => named.1.2 (emptied one) (List.mem_map_of_mem member)⟩

omit names several keyed

theorem discovered_spec {sorter : Sorter} {mounted : Mounted} {table : Table} (discovered : discoverPool sorter mounted table = some pool) :
    (pool.tiers.map (·.targetID)).Nodup ∧ pool.tiers.Pairwise (·.rank ≤ ·.rank) ∧ Bytes table.rank pool.tiers := by
  simp only [discoverPool,Option.bind_eq_some_iff,Option.ite_none_left_eq_some,Option.map_eq_some_iff] at discovered
  obtain ⟨domain,_,_,_,cache,_,rfl⟩ := discovered
  refine ⟨?_,sorter.ordered _,fun tier member => ?_⟩
  · rw [((sorter.perm _).map _).nodup_iff,List.map_map]
    exact table.keyed.sublist (List.filter_sublist.map _)
  · obtain ⟨row,listed,rfl⟩ := List.mem_map.mp ((sorter.perm _).mem_iff.mp member)
    have known : table.rows.find? (·.id = row.id) = some row := by
      cases found : table.rows.find? (·.id = row.id) with
      | none => simpa using List.find?_eq_none.mp found row (List.mem_of_mem_filter listed)
      | some other =>
        have same : other.id = row.id := by simpa using List.find?_some found
        rw [List.inj_on_of_nodup_map table.keyed (List.mem_of_find?_eq_some found) (List.mem_of_mem_filter listed) same]
    have rank : table.rank row.id = row.rank := by rw [Table.rank,known]; rfl
    simp only [tierInfo]
    rw [rank]
    omega

/-- A discovered pool names neighbours exactly if its tiers stand in the order of the table's
ranks, counted from 0 in their last bytes, or in cache mode end with the base. -/
theorem planner_names_neighbours_iff {sorter : Sorter} {mounted : Mounted} {table : Table}
    (discovered : discoverPool sorter mounted table = some pool) :
    NamesNeighbours table.rank pool ↔ pool.tiers.length < 2 ∨
      if pool.cacheMode then Based table.rank pool.tiers else Contiguous table.rank pool.tiers := by
  obtain ⟨keyed,sorted,bytes⟩ := discovered_spec discovered
  constructor
  · intro names
    by_cases few : pool.tiers.length < 2
    · exact .inl few
    right
    split
    · next cached => exact names.based few keyed cached bytes
    · next tiered => exact names.contiguous few keyed (by simpa using tiered) sorted bytes
  · intro safe cfg fill objs
    unfold planPool
    split_ifs with idle
    · exact ⟨[],rfl,by simp⟩
    have met := safe.resolve_left fun few => idle (.inl (by simpa [measured] using few))
    refine planAll_all fun c _ => planOne_named ?_ ?_ c
    · intro tier member
      obtain ⟨own,listed,rfl⟩ := List.mem_map.mp member
      exact bytes own listed
    · change if pool.cacheMode then _ else _
      split at met
      · next cached => rw [if_pos cached]; exact met.measured fill
      · next tiered => rw [if_neg tiered]; exact met.measured fill

def sorter : Sorter where
  sort tiers := tiers.insertionSort (·.rank ≤ ·.rank)
  perm _ := List.perm_insertionSort _ _
  ordered _ := List.pairwise_insertionSort _ _

def target (id : String) (rank : Int) : TierTarget := ⟨id,"media","smoothfs",rank,90,"/mnt/" ++ id⟩

def twoTiers (fast slow : Int) : Table := ⟨[target "fast" fast,target "slow" slow],by simp [target]⟩

def media : Mounted := ⟨some "media",[],some false⟩

theorem contiguous_ranks_named : NamesNeighbours (twoTiers 0 1).rank ⟨false,[⟨0,"fast",0,90⟩,⟨1,"slow",0,90⟩]⟩ := by
  have discovered : discoverPool sorter media (twoTiers 0 1) = some ⟨false,[⟨0,"fast",0,90⟩,⟨1,"slow",0,90⟩]⟩ := by rfl
  refine (planner_names_neighbours_iff discovered).mpr (.inr ⟨fun index tier there => ?_,fun index one two first second tier member => ?_⟩)
  · rcases index with _ | _ | index
    · cases there
      decide
    · cases there
      decide
    · simp at there
  · rcases index with _ | index
    · cases first
      cases second
      have two : tier = ⟨0,"fast",0,90⟩ ∨ tier = ⟨1,"slow",0,90⟩ := by simpa using member
      unfold Between
      rcases two with rfl | rfl <;> decide
    · simp at second

/-- Ranks 0 and 5 lead outside the list, and ranks 1 and 2 from a tier to itself. -/
theorem gaps_and_offsets :
    (discoverPool sorter media (twoTiers 0 5)).bind (planPool usual · [⟨idle,"slow",0,false,"none"⟩]) = none ∧
      (discoverPool sorter media (twoTiers 1 2)).bind (planPool usual · [⟨idle,"slow",0,false,"none"⟩]) =
        some [⟨idle,.promote,⟨2,"slow",0,90⟩,⟨2,"slow",0,90⟩⟩] := by
  have valid : decodes idle = true := by decide
  have gap : discoverPool sorter media (twoTiers 0 5) = some ⟨false,[⟨0,"fast",0,90⟩,⟨5,"slow",0,90⟩]⟩ := rfl
  have offset : discoverPool sorter media (twoTiers 1 2) = some ⟨false,[⟨1,"fast",0,90⟩,⟨2,"slow",0,90⟩]⟩ := rfl
  rw [gap,offset]
  simp [planPool,planAll,planOne,movementGates,buildMovementPlan,TierInfo.overfull,valid]

end Smoothfs.TierRanks
