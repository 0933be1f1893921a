import Smoothfs.Resolve
import Smoothfs.Sidecar

/-! The replay of the sidecars in `.smoothfs` at mount time. Records are handled in
directory order, and a hard error of one of them ends the loop. -/
namespace Smoothfs.RangeReplay

open LittleEndian Resolve Function
open RangeStaging (Header readHeader signed)

structure Range where
  start : Int
  stop : Int
  deriving DecidableEq, Repr

/-- A file opened for reading: the bytes that reads deliver, and the error that
ends them if it is not the end of the file. -/
structure Opened where
  data : Bytes
  fault : Option Errno
  deriving DecidableEq, Repr

def Opened.short (file : Opened) : Errno := file.fault.getD .eio

structure Entry where
  name : List Char
  file : Option Opened
  deriving DecidableEq, Repr

/-- `.smoothfs`, in the order of `iterate_dir`. `stage` says for which objects the stage file opens.
-/
structure Directory where
  entries : List Entry
  stage : Oid → Bool

def recPrefix : List Char := ['r','a','n','g','e','-']

def recSuffix : List Char := ['.','m','e','t','a']

def nameMax : Nat := 255

def rangeActor (name : List Char) : Bool :=
  name ≠ ['.'] ∧ name ≠ ['.','.'] ∧ name.length ≤ nameMax ∧ recPrefix.length + recSuffix.length ≤ name.length ∧
    name.take recPrefix.length = recPrefix ∧ name.drop (name.length - recSuffix.length) = recSuffix

def hexToBin (digit : Char) : Option Nat :=
  if '0' ≤ digit ∧ digit ≤ '9' then some (digit.toNat - '0'.toNat)
  else if 'a' ≤ digit ∧ digit ≤ 'f' then some (digit.toNat - 'a'.toNat + 10)
  else if 'A' ≤ digit ∧ digit ≤ 'F' then some (digit.toNat - 'A'.toNat + 10)
  else none

def oidLen : Nat := 16

def parseOid (name : List Char) : Option Oid :=
  if name.length ≠ recPrefix.length + oidLen * 2 + recSuffix.length then none
  else ((name.drop recPrefix.length).take (oidLen * 2)).foldlM (fun oid digit => (hexToBin digit).map (16 * oid + ·)) 0

structure Staged where
  path : Bool
  ranges : List Range
  rangeStaged : Bool
  recovered : Bool
  sourceTier : Nat
  pinned : Bool
  deriving DecidableEq, Repr

def Staged.fresh : Staged := ⟨false,[],false,false,Namespace.maxTiers,false⟩

/-- `smoothfs_lookup_oid_resolve`, with the identity of the inode returned, and
`smoothfs_recovery_rebuild_for_staging`. -/
structure Resolver (σ : Type) where
  resolve : σ → Oid → σ × Option Oid
  rebuild : σ → Except Errno σ

structure Finder (σ : Type) where
  objects : σ
  pathsRebuilt : Bool

structure Pool (σ : Type) where
  ntiers : Nat
  cacheMode : Bool
  resolver : Resolver σ

structure State (σ : Type) where
  finder : Finder σ
  staged : Oid → Staged
  recoveredBytes : Nat
  oldestNs : Nat
  tierMask : Nat
  recoveredFiles : Nat
  skippedFiles : Nat

inductive Outcome
  | recovered | skipped
  deriving DecidableEq, Repr

variable {σ : Type}

def find (pool : Pool σ) (finder : Finder σ) (oid : Oid) : Finder σ × Except Errno (Option Oid) :=
  match pool.resolver.resolve finder.objects oid with
  | (objects,some inode) => (⟨objects,finder.pathsRebuilt⟩,.ok (some inode))
  | (objects,none) =>
    if finder.pathsRebuilt then (⟨objects,true⟩,.ok none)
    else
      match pool.resolver.rebuild objects with
      | .error err => (⟨objects,true⟩,.error err)
      | .ok scanned =>
        let (objects,found) := pool.resolver.resolve scanned oid
        (⟨objects,true⟩,.ok found)

def identify (pool : Pool σ) (name : List Char) (file : Opened) : Except Errno (Oid × Header × Opened) :=
  match parseOid name with
  | none => .error .einval
  | some oid =>
    match readHeader file.data with
    | none => .error file.short
    | some (header,rest) => if header.accepted pool.ntiers then .ok (oid,header,{file with data := rest}) else .error .einval

def readEntry (input : Bytes) : Option (Range × Bytes) := do
  let (start,input) ← read 8 input
  let (stop,input) ← read 8 input
  some (⟨signed start,signed stop⟩,input)

/-- The loop over the `count` entries. A list that breaks off is emptied again. -/
def readRanges : Nat → Opened → Except Errno (List Range)
  | 0, _ => .ok []
  | count+1, file =>
    match readEntry file.data with
    | none => .error file.short
    | some (range,rest) =>
      if range.stop ≤ range.start then .error .einval
      else (readRanges count {file with data := rest}).map (range::·)

def restore (cacheMode : Bool) (staged : Staged) (header : Header) (listed : Except Errno (List Range)) : Staged :=
  match listed with
  | .error _ => {staged with path := false, ranges := []}
  | .ok ranges =>
    {path := true
     ranges := ranges
     rangeStaged := true
     recovered := true
     sourceTier := header.sourceTier
     pinned := staged.pinned || cacheMode}

def State.account (state : State σ) (header : Header) (ranges : List Range) : State σ :=
  {state with
    recoveredBytes := (state.recoveredBytes + (ranges.map fun range => (range.stop - range.start).toNat).foldr (· + ·) 0) % 2 ^ 64
    oldestNs := if state.oldestNs = 0 ∨ header.oldestWriteNs ≠ 0 ∧ header.oldestWriteNs < state.oldestNs then header.oldestWriteNs
      else state.oldestNs
    tierMask := state.tierMask ||| 2 ^ header.sourceTier}

def replayOne (pool : Pool σ) (stage : Oid → Bool) (state : State σ) (name : List Char) (file : Opened) :
    State σ × Except Errno Outcome :=
  match identify pool name file with
  | .error err => (state,.error err)
  | .ok (oid,header,rest) =>
    match find pool state.finder oid with
    | (finder,.error err) => ({state with finder := finder},.error err)
    | (finder,.ok none) => ({state with finder := finder},.ok .skipped)
    | (finder,.ok (some inode)) =>
      if stage oid then
        let listed := readRanges header.count rest
        let state := {state with
          finder := finder
          staged := update state.staged inode (restore pool.cacheMode (state.staged inode) header listed)}
        match listed with
        | .error _ => (state,.ok .recovered)
        | .ok ranges => (state.account header ranges,.ok .recovered)
      else ({state with finder := finder},.ok .skipped)

def State.count (state : State σ) : Outcome → State σ
  | .recovered => {state with recoveredFiles := state.recoveredFiles + 1}
  | .skipped => {state with skippedFiles := state.skippedFiles + 1}

def replayNames (pool : Pool σ) (stage : Oid → Bool) : State σ → List Entry → State σ × Option Errno
  | state, [] => (state,none)
  | state, entry::rest =>
    match entry.file with
    | none => replayNames pool stage state rest
    | some file =>
      match replayOne pool stage state entry.name file with
      | (state,.error err) => (state,some err)
      | (state,.ok outcome) => replayNames pool stage (state.count outcome) rest

def State.initial (objects : σ) : State σ := ⟨⟨objects,false⟩,fun _ => .fresh,0,0,0,0,0⟩

def Directory.names (directory : Directory) : List Entry := directory.entries.filter (rangeActor ·.name)

/-- In a mount that has just read its recovery index. -/
def stagingReplay (pool : Pool σ) (objects : σ) (directory : Directory) : State σ × Option Errno :=
  replayNames pool directory.stage (.initial objects) directory.names

def rebuildForStaging (mount : Mount) (visits : List (Loc × Oid)) : Mount :=
  {rebuild mount visits with
    records := (visits.foldl scanName (mount.world,Placement.replayLoadLog mount.log)).2}

/-- `visits` are the names that a scan of the tiers meets, `fault` the error it ends with; the state
also has the identities yet to be minted. -/
def mountResolver (number : Oid → Nat) (visits : List (Loc × Oid)) (fault : Option Errno) : Resolver (Mount × (Nat → Oid)) where
  resolve objects oid :=
    let (mount,found) := recoveryResolveOid number objects.1 (objects.2 0) oid
    ((mount,fun index => objects.2 (index + 1)),found)
  rebuild objects :=
    match fault with
    | some err => .error err
    | none => .ok (rebuildForStaging objects.1 visits,objects.2)

/-- The inode that a sidecar is for, with the header and the file behind it. -/
def target (pool : Pool σ) (stage : Oid → Bool) (finder : Finder σ) (name : List Char) (file : Opened) :
    Option (Oid × Header × Opened) :=
  match identify pool name file with
  | .error _ => none
  | .ok (oid,header,rest) =>
    match (find pool finder oid).2 with
    | .ok (some inode) => if stage oid then some (inode,header,rest) else none
    | _ => none

def advance (pool : Pool σ) (finder : Finder σ) (name : List Char) (file : Opened) : Option (Finder σ) :=
  match identify pool name file with
  | .error _ => none
  | .ok (oid,_,_) =>
    match find pool finder oid with
    | (_,.error _) => none
    | (finder,.ok _) => some finder

variable (pool : Pool σ) (stage : Oid → Bool) (state : State σ) (name : List Char) (file : Opened)

theorem replayOne_staged : (replayOne pool stage state name file).1.staged = match target pool stage state.finder name file with
      | some (inode,header,rest) =>
        update state.staged inode (restore pool.cacheMode (state.staged inode) header (readRanges header.count rest))
      | none => state.staged := by
  unfold replayOne target
  cases identify pool name file with
  | error err => rfl
  | ok identified =>
    obtain ⟨oid,header,rest⟩ := identified
    dsimp only
    obtain ⟨finder,found⟩ := find pool state.finder oid
    cases found with
    | error err => rfl
    | ok inode =>
      cases inode with
      | none => rfl
      | some inode =>
        cases stage oid with
        | false => rfl
        | true =>
          simp only [↓reduceIte]
          cases readRanges header.count rest <;> rfl

theorem replayOne_advance : match advance pool state.finder name file with
    | none => ∃ err, (replayOne pool stage state name file).2 = .error err
    | some finder => (replayOne pool stage state name file).1.finder = finder ∧
        ∃ outcome, (replayOne pool stage state name file).2 = .ok outcome := by
  unfold replayOne advance
  cases identify pool name file with
  | error err => exact ⟨err,rfl⟩
  | ok identified =>
    obtain ⟨oid,header,rest⟩ := identified
    dsimp only
    obtain ⟨finder,found⟩ := find pool state.finder oid
    cases found with
    | error err => exact ⟨err,rfl⟩
    | ok inode =>
      cases inode with
      | none => exact ⟨rfl,_,rfl⟩
      | some inode =>
        cases stage oid with
        | false => exact ⟨rfl,_,rfl⟩
        | true => cases readRanges header.count rest <;> exact ⟨rfl,_,rfl⟩

section WellFormed

def entryAt (data : Bytes) (index : Nat) : Range := ⟨signed (field (16 * index) 8 data),signed (field (16 * index + 8) 8 data)⟩

/-- All `count` ranges are there, and none of them is empty or reversed. -/
def Complete (data : Bytes) (count : Nat) : Prop :=
  16 * count ≤ data.length ∧ ∀ index < count, (entryAt data index).start < (entryAt data index).stop

variable (data : Bytes)

theorem readEntry_eq : readEntry data = if 16 ≤ data.length then some (entryAt data 0,data.drop 16) else none := by
  unfold readEntry
  by_cases eight : 8 ≤ data.length
  · by_cases whole : 16 ≤ data.length
    · have second : 8 ≤ (data.drop 8).length := by
        rw [List.length_drop]
        omega
      rw [if_pos whole,LittleEndian.read,if_pos eight]
      dsimp only [bind,Option.bind]
      rw [LittleEndian.read,if_pos second,List.drop_drop]
      rfl
    · have second : ¬ 8 ≤ (data.drop 8).length := by
        rw [List.length_drop]
        omega
      rw [if_neg whole,LittleEndian.read,if_pos eight]
      dsimp only [bind,Option.bind]
      rw [LittleEndian.read,if_neg second]
  · rw [if_neg (by omega),LittleEndian.read,if_neg eight]
    rfl

theorem entryAt_drop (index : Nat) : entryAt (data.drop 16) index = entryAt data (index + 1) := by
  unfold entryAt field
  rw [List.drop_drop,List.drop_drop,show 16 + 16 * index = 16 * (index + 1) by omega,
    show 16 + (16 * index + 8) = 16 * (index + 1) + 8 by omega]

variable (count : Nat)

theorem complete_succ :
    Complete data (count + 1) ↔ 16 ≤ data.length ∧ (entryAt data 0).start < (entryAt data 0).stop ∧ Complete (data.drop 16) count := by
  unfold Complete
  rw [List.length_drop]
  simp only [entryAt_drop]
  constructor
  · intro complete
    exact ⟨by omega,complete.2 0 (Nat.succ_pos count),by omega,fun index inside => complete.2 (index + 1) (by omega)⟩
  · intro ⟨first,proper,rest,later⟩
    refine ⟨by omega,?_⟩
    intro index inside
    cases index with
    | zero => exact proper
    | succ index => exact later index (by omega)

theorem readRanges_ok_iff (file : Opened) (ranges : List Range) :
    readRanges count file = .ok ranges ↔ Complete file.data count ∧ ranges = (List.range count).map (entryAt file.data) := by
  induction count generalizing file ranges with
  | zero => simp [readRanges,Complete,eq_comm]
  | succ count ih =>
    rw [readRanges,readEntry_eq,complete_succ,List.range_succ_eq_map,List.map_cons,List.map_map]
    split
    next short =>
      split at short
      · cases short
      · next few => simp [few]
    next range rest entry =>
    split at entry
    next enough =>
      cases entry
      have later := ih {file with data := file.data.drop 16}
      simp only [funext (entryAt_drop file.data)] at later
      by_cases proper : (entryAt file.data 0).stop ≤ (entryAt file.data 0).start
      · simp [proper]
      rw [if_neg proper]
      cases listed : readRanges count {file with data := file.data.drop 16} with
      | error err =>
        simp only [listed,reduceCtorEq,false_iff,not_and] at later
        simp only [Except.map,reduceCtorEq,false_iff]
        intro ⟨⟨_,_,complete⟩,_⟩
        exact later _ complete rfl
      | ok others =>
        have known := (later others).mp listed
        simp only [Except.map,Except.ok.injEq]
        constructor
        · intro same
          refine ⟨⟨enough,not_le.mp proper,known.1⟩,?_⟩
          rw [← same,known.2]
          rfl
        · intro ⟨_,same⟩
          rw [same,known.2]
          rfl
    next few => cases entry

structure Sorted (ranges : List Range) : Prop where
  nonempty : ranges ≠ []
  byStart : ranges.Pairwise fun first second => first.start ≤ second.start
  disjoint : ranges.Pairwise fun first second => first.stop ≤ second.start ∨ second.stop ≤ first.start
  nonnegative : ∀ range ∈ ranges, 0 ≤ range.start ∧ 0 ≤ range.stop

instance (ranges : List Range) : Decidable (Sorted ranges) :=
  decidable_of_iff (ranges ≠ [] ∧ (ranges.Pairwise fun first second => first.start ≤ second.start) ∧
      (ranges.Pairwise fun first second => first.stop ≤ second.start ∨ second.stop ≤ first.start) ∧
      ∀ range ∈ ranges, 0 ≤ range.start ∧ 0 ≤ range.stop)
    ⟨fun parts => ⟨parts.1,parts.2.1,parts.2.2.1,parts.2.2.2⟩,fun sorted => ⟨sorted.1,sorted.2,sorted.3,sorted.4⟩⟩

def Staged.WellFormed (staged : Staged) : Prop :=
  staged.rangeStaged = false ∧ staged.ranges = [] ∨ staged.rangeStaged = true ∧ Sorted staged.ranges

instance (staged : Staged) : Decidable staged.WellFormed :=
  inferInstanceAs (Decidable (staged.rangeStaged = false ∧ staged.ranges = [] ∨ staged.rangeStaged = true ∧ Sorted staged.ranges))

/-- There is a range, the first one starts at no negative offset, and each other one
at or behind the end of the one before it. -/
def InOrder (data : Bytes) (count : Nat) : Prop :=
  0 < count ∧ 0 ≤ (entryAt data 0).start ∧ ∀ index, index + 1 < count → (entryAt data index).stop ≤ (entryAt data (index + 1)).start

theorem InOrder.apart {data : Bytes} {count : Nat} (ordered : InOrder data count) (complete : Complete data count) (first gap : Nat)
    (inside : first + gap + 1 < count) : (entryAt data first).stop ≤ (entryAt data (first + gap + 1)).start := by
  induction gap with
  | zero => exact ordered.2.2 first inside
  | succ gap ih =>
    have nearer := ih (by omega)
    have proper := complete.2 (first + gap + 1) (by omega)
    have next := ordered.2.2 (first + gap + 1) inside
    exact nearer.trans (proper.le.trans next)

theorem InOrder.later {data : Bytes} {count : Nat} (ordered : InOrder data count) (complete : Complete data count) {first second : Nat}
    (before : first < second) (inside : second < count) : (entryAt data first).stop ≤ (entryAt data second).start := by
  obtain ⟨gap,rfl⟩ : ∃ gap, second = first + gap + 1 := ⟨second - first - 1,by omega⟩
  exact ordered.apart complete first gap inside

theorem pairwise_entries (relation : Range → Range → Prop) (data : Bytes) (count : Nat) :
    ((List.range count).map (entryAt data)).Pairwise relation ↔
      ∀ first second, first < second → second < count → relation (entryAt data first) (entryAt data second) := by
  rw [List.pairwise_iff_getElem]
  simp only [List.length_map,List.length_range,List.getElem_map,List.getElem_range]
  constructor
  · intro pairs first second before inside
    exact pairs first second (by omega) inside before
  · intro pairs first second _ inside before
    exact pairs first second before inside

theorem sorted_entries_iff {data : Bytes} {count : Nat} (complete : Complete data count) :
    Sorted ((List.range count).map (entryAt data)) ↔ InOrder data count := by
  constructor
  · intro sorted
    have some_ : 0 < count := by
      apply Nat.pos_of_ne_zero
      intro none_
      exact sorted.nonempty (by rw [none_]; rfl)
    refine ⟨some_,?_,?_⟩
    · exact (sorted.nonnegative _ (List.mem_map_of_mem (List.mem_range.mpr some_))).1
    intro index inside
    have starts := (pairwise_entries _ data count).mp sorted.byStart index (index + 1) (Nat.lt_succ_self index) inside
    have proper := complete.2 (index + 1) inside
    apply ((pairwise_entries _ data count).mp sorted.disjoint index (index + 1) (Nat.lt_succ_self index) inside).resolve_right
    -- The later range would end where it starts.
    omega
  · intro ordered
    refine ⟨?_,?_,?_,?_⟩
    · intro empty
      have size := congrArg List.length empty
      have some_ := ordered.1
      simp only [List.length_map,List.length_range,List.length_nil] at size
      omega
    · rw [pairwise_entries]
      intro first second before inside
      exact (complete.2 first (by omega)).le.trans (ordered.later complete before inside)
    · rw [pairwise_entries]
      intro first second before inside
      exact .inl (ordered.later complete before inside)
    · intro range member
      obtain ⟨index,inside,rfl⟩ := List.mem_map.mp member
      rw [List.mem_range] at inside
      have proper := complete.2 index inside
      have start : 0 ≤ (entryAt data index).start := by
        cases index with
        | zero => exact ordered.2.1
        | succ index =>
          have first := complete.2 0 ordered.1
          exact ordered.2.1.trans (first.le.trans (ordered.later complete (Nat.succ_pos index) inside))
      exact ⟨start,start.trans proper.le⟩

theorem restore_wellFormed_iff (cacheMode : Bool) (header : Header) (rest : Opened) :
    (restore cacheMode .fresh header (readRanges header.count rest)).WellFormed ↔
      (Complete rest.data header.count → InOrder rest.data header.count) := by
  cases listed : readRanges header.count rest with
  | error err =>
    constructor
    · intro _ complete
      have whole := (readRanges_ok_iff header.count rest _).mpr ⟨complete,rfl⟩
      cases listed.symm.trans whole
    · intro _
      exact .inl ⟨rfl,rfl⟩
  | ok ranges =>
    obtain ⟨complete,rfl⟩ := (readRanges_ok_iff header.count rest ranges).mp listed
    rw [← sorted_entries_iff complete]
    constructor
    · intro formed _
      cases formed with
      | inl unstaged => cases unstaged.1
      | inr staged => exact staged.2
    · intro sorted
      exact .inr ⟨rfl,sorted complete⟩

/-- A sidecar leaves the fresh inode it is for well formed unless its list is
complete and yet empty, out of order or negative. -/
theorem replayed_wellFormed_iff (pool : Pool σ) (stage : Oid → Bool) (state : State σ) (name : List Char) (file : Opened) (inode : Oid)
    (fresh : state.staged inode = .fresh) :
    ((replayOne pool stage state name file).1.staged inode).WellFormed ↔
      ∀ header rest, target pool stage state.finder name file = some (inode,header,rest) → Complete rest.data header.count →
        InOrder rest.data header.count := by
  have unstaged : Staged.fresh.WellFormed := .inl ⟨rfl,rfl⟩
  rw [replayOne_staged]
  cases found : target pool stage state.finder name file with
  | none => simp [fresh,unstaged]
  | some reached =>
    obtain ⟨other,header,rest⟩ := reached
    dsimp only
    by_cases same : inode = other
    · subst same
      rw [update_self,fresh,restore_wellFormed_iff]
      simp
    · rw [update_of_ne same,fresh]
      simp [unstaged,Ne.symm same]

def indexedMount : Mount :=
  (Run.run (step id) (emptyMount StagingDrain.twoTierPool 0 0) indexed).getD
    (emptyMount StagingDrain.twoTierPool 0 0)

def indexedPool : Pool (Mount × (Nat → Oid)) :=
  ⟨2,false,mountResolver id [(⟨0,["a"]⟩,8),(⟨0,["b"]⟩,9)] none⟩

def indexedObjects : Mount × (Nat → Oid) := (indexedMount,fun index => index + 9)

def sidecarName (digit : Char) : List Char :=
  recPrefix ++ List.replicate 31 '0' ++ [digit] ++ recSuffix

def sidecarFile (ranges : List Extents.Extent) : Opened := ⟨RangeStaging.Sidecar.encode ⟨0,5,ranges⟩,none⟩

def replayedRanges (ranges : List Extents.Extent) : Staged :=
  (replayOne indexedPool (fun _ => true) (.initial indexedObjects) (sidecarName '1') (sidecarFile ranges)).1.staged 1

theorem ordered_sidecar_replayed :
    (replayedRanges [⟨0,4⟩,⟨8,12⟩]).ranges = [⟨0,4⟩,⟨8,12⟩] ∧ (replayedRanges [⟨0,4⟩,⟨8,12⟩]).WellFormed := by
  refine ⟨by decide +kernel,(replayed_wellFormed_iff _ _ _ _ _ 1 rfl).mpr ?_⟩
  intro header rest reached _
  have known : target indexedPool (fun _ => true) ⟨indexedObjects,false⟩ (sidecarName '1') (sidecarFile [⟨0,4⟩,⟨8,12⟩]) =
      some (1,⟨RangeStaging.recMagic,1,0,5,2⟩,⟨[⟨0,4⟩,⟨8,12⟩].flatMap RangeStaging.encodeRange,none⟩) := by decide +kernel
  cases reached.symm.trans known
  refine ⟨by decide,by decide +kernel,?_⟩
  intro index inside
  have first : index = 0 := by
    change index + 1 < 2 at inside
    omega
  subst first
  decide +kernel

/-- Without ranges, and with ranges out of order. -/
theorem unordered_sidecar_replayed :
    Run.run (Resolve.step id) (Resolve.emptyMount StagingDrain.twoTierPool 0 0) Resolve.indexed = some indexedMount ∧
      (replayedRanges []).rangeStaged = true ∧ (replayedRanges []).ranges = [] ∧ ¬ (replayedRanges []).WellFormed ∧
      (replayedRanges [⟨8,12⟩,⟨0,10⟩]).ranges = [⟨8,12⟩,⟨0,10⟩] ∧ ¬ (replayedRanges [⟨8,12⟩,⟨0,10⟩]).WellFormed ∧
      (replayedRanges [⟨2 ^ 64 - 4,4⟩]).ranges = [⟨-4,4⟩] ∧ ¬ (replayedRanges [⟨2 ^ 64 - 4,4⟩]).WellFormed :=
  ⟨rfl,by decide +kernel⟩

end WellFormed

section Interference

variable (pool : Pool σ) (stage : Oid → Bool)

/-- What is known of the objects after a name of the directory, unless the loop ends
there. -/
def next (finder : Finder σ) (entry : Entry) : Option (Finder σ) :=
  match entry.file with
  | none => some finder
  | some file => advance pool finder entry.name file

def lists (finder : Finder σ) (entry : Entry) (inode : Oid) : Option (Except Errno (List Range)) :=
  match entry.file with
  | none => none
  | some file =>
    match target pool stage finder entry.name file with
    | none => none
    | some (reached,header,rest) => if reached = inode then some (readRanges header.count rest) else none

def Silent (inode : Oid) (finder : Finder σ) (entries : List Entry) : Prop :=
  ∀ before entry after known, entries = before ++ entry::after → before.foldlM (next pool) finder = some known →
    lists pool stage known entry inode = none

/-- The loop gets to a sidecar that lists the ranges for the inode, and to no other
one for the inode after it. -/
def Handled (inode : Oid) (ranges : List Range) (finder : Finder σ) (entries : List Entry) : Prop :=
  ∃ before entry after known, entries = before ++ entry::after ∧ before.foldlM (next pool) finder = some known ∧
    lists pool stage known entry inode = some (.ok ranges) ∧
    ∀ later, next pool known entry = some later → Silent pool stage inode later after

variable {pool stage}

variable (inode : Oid) (finder : Finder σ)

theorem silent_nil : Silent pool stage inode finder [] := by
  intro before entry after known split
  simp at split

theorem silent_cons (entry : Entry) (rest : List Entry) : Silent pool stage inode finder (entry::rest) ↔
      lists pool stage finder entry inode = none ∧ ∀ later, next pool finder entry = some later → Silent pool stage inode later rest := by
  constructor
  · intro silent
    refine ⟨silent [] entry rest finder rfl rfl,?_⟩
    intro later goes before other after known split reached
    refine silent (entry::before) other after known (by rw [split]; rfl) ?_
    rw [List.foldlM_cons,goes]
    exact reached
  · intro ⟨first,others⟩ before other after known split reached
    cases before with
    | nil =>
      obtain ⟨rfl,rfl⟩ := List.cons.inj split
      cases reached
      exact first
    | cons head before =>
      obtain ⟨rfl,rfl⟩ := List.cons.inj split
      obtain ⟨later,goes,reached⟩ := Option.bind_eq_some_iff.mp reached
      exact others later goes before other after known rfl reached

variable (ranges : List Range)

theorem not_handled_nil (finder : Finder σ) : ¬ Handled pool stage inode ranges finder [] := by
  rintro ⟨before,entry,after,known,split,_⟩
  simp at split

theorem handled_cons (finder : Finder σ) (entry : Entry) (rest : List Entry) :
    Handled pool stage inode ranges finder (entry::rest) ↔ (lists pool stage finder entry inode = some (.ok ranges) ∧
        ∀ later, next pool finder entry = some later → Silent pool stage inode later rest) ∨
      ∃ later, next pool finder entry = some later ∧ Handled pool stage inode ranges later rest := by
  constructor
  · rintro ⟨before,other,after,known,split,reached,listed,quiet⟩
    cases before with
    | nil =>
      obtain ⟨rfl,rfl⟩ := List.cons.inj split
      cases reached
      exact .inl ⟨listed,quiet⟩
    | cons head before =>
      obtain ⟨rfl,rfl⟩ := List.cons.inj split
      obtain ⟨later,goes,reached⟩ := Option.bind_eq_some_iff.mp reached
      exact .inr ⟨later,goes,before,other,after,known,rfl,reached,listed,quiet⟩
  · rintro (⟨listed,quiet⟩ | ⟨later,goes,before,other,after,known,split,reached,listed,quiet⟩)
    · exact ⟨[],entry,rest,finder,rfl,rfl,listed,quiet⟩
    · refine ⟨entry::before,other,after,known,by rw [split]; rfl,?_,listed,quiet⟩
      rw [List.foldlM_cons,goes]
      exact reached

theorem next_of_lists {finder : Finder σ} {entry : Entry} {inode : Oid} {listed : Except Errno (List Range)}
    (named : lists pool stage finder entry inode = some listed) : ∃ later, next pool finder entry = some later := by
  unfold lists at named
  unfold next
  cases opens : entry.file with
  | none => simp [opens] at named
  | some file =>
    rw [opens] at named
    dsimp only at named ⊢
    unfold target at named
    unfold advance
    cases identified : identify pool entry.name file with
    | error err => simp [identified] at named
    | ok parts =>
      obtain ⟨oid,header,rest⟩ := parts
      rw [identified] at named
      dsimp only at named ⊢
      generalize find pool finder oid = result at named ⊢
      obtain ⟨later,found⟩ := result
      cases found with
      | error err => simp at named
      | ok reached => exact ⟨later,rfl⟩

def listedInto (cacheMode : Bool) (staged : Staged) : Option (Except Errno (List Range)) → Staged → Prop
  | none, after => after = staged
  | some listed, after => ∃ header, after = restore cacheMode staged header listed

theorem replayNames_cons (state : State σ) (entry : Entry) (rest : List Entry) (inode : Oid) :
    ∃ after : State σ, listedInto pool.cacheMode (state.staged inode) (lists pool stage state.finder entry inode) (after.staged inode) ∧
      match next pool state.finder entry with
      | none => (replayNames pool stage state (entry::rest)).1.staged = after.staged
      | some later => after.finder = later ∧ replayNames pool stage state (entry::rest) = replayNames pool stage after rest := by
  unfold next lists
  cases opens : entry.file with
  | none => exact ⟨state,rfl,rfl,by rw [replayNames,opens]⟩
  | some file =>
    dsimp only
    have changed := congrFun (replayOne_staged pool stage state entry.name file) inode
    have goes := replayOne_advance pool stage state entry.name file
    have effect : listedInto pool.cacheMode (state.staged inode)
        (match target pool stage state.finder entry.name file with
          | none => none
          | some (reached,header,rest) => if reached = inode then some (readRanges header.count rest) else none)
        ((replayOne pool stage state entry.name file).1.staged inode) := by
      cases found : target pool stage state.finder entry.name file with
      | none =>
        rw [found] at changed
        exact changed
      | some parts =>
        obtain ⟨reached,header,rest⟩ := parts
        rw [found] at changed
        dsimp only at changed ⊢
        by_cases same : reached = inode
        · subst same
          rw [update_self] at changed
          rw [if_pos rfl]
          exact ⟨header,changed⟩
        · rw [update_of_ne (Ne.symm same)] at changed
          rw [if_neg same]
          exact changed
    cases known : advance pool state.finder entry.name file with
    | none =>
      rw [known] at goes
      obtain ⟨err,failed⟩ := goes
      refine ⟨_,effect,?_⟩
      rw [replayNames,opens]
      dsimp only
      generalize replayOne pool stage state entry.name file = result at failed ⊢
      obtain ⟨after,outcome⟩ := result
      subst failed
      rfl
    | some later =>
      rw [known] at goes
      obtain ⟨finder,outcome,finished⟩ := goes
      have same : ((replayOne pool stage state entry.name file).1.count outcome).staged =
          (replayOne pool stage state entry.name file).1.staged := by cases outcome <;> rfl
      have keeps : ((replayOne pool stage state entry.name file).1.count outcome).finder = later := by
        cases outcome <;> exact finder
      refine ⟨(replayOne pool stage state entry.name file).1.count outcome,by rw [same]; exact effect,keeps,?_⟩
      rw [replayNames,opens]
      dsimp only
      generalize replayOne pool stage state entry.name file = result at finished ⊢
      obtain ⟨after,ended⟩ := result
      subst finished
      rfl

def Holds (ranges : List Range) (staged : Staged) : Prop := staged.rangeStaged = true ∧ staged.ranges = ranges

theorem restore_holds_iff {cacheMode : Bool} {staged : Staged} {header : Header} {listed : Except Errno (List Range)}
    {ranges : List Range} (some_ : ranges ≠ []) : Holds ranges (restore cacheMode staged header listed) ↔ listed = .ok ranges := by
  cases listed with
  | error err =>
    constructor
    · intro holds
      exact absurd holds.2.symm some_
    · intro wrong
      cases wrong
  | ok found =>
    constructor
    · intro holds
      exact congrArg Except.ok holds.2
    · intro same
      cases same
      exact ⟨rfl,rfl⟩

theorem replayNames_holds_iff (state : State σ) (entries : List Entry) (inode : Oid) {ranges : List Range} (some_ : ranges ≠ []) :
    Holds ranges ((replayNames pool stage state entries).1.staged inode) ↔
      Handled pool stage inode ranges state.finder entries ∨
        Silent pool stage inode state.finder entries ∧ Holds ranges (state.staged inode) := by
  induction entries generalizing state with
  | nil => simp [replayNames,not_handled_nil,silent_nil]
  | cons entry rest ih =>
    obtain ⟨after,effect,continues⟩ := @replayNames_cons _ pool stage state entry rest inode
    rw [handled_cons,silent_cons]
    cases goes : next pool state.finder entry with
    | none =>
      rw [goes] at continues
      have silent : lists pool stage state.finder entry inode = none := by
        rw [Option.eq_none_iff_forall_ne_some]
        intro listed named
        obtain ⟨later,known⟩ := next_of_lists named
        cases goes.symm.trans known
      rw [silent] at effect
      rw [congrFun continues inode,show after.staged inode = state.staged inode from effect,silent]
      simp
    | some later =>
      rw [goes] at continues
      obtain ⟨finder,same⟩ := continues
      rw [same,ih after,finder]
      cases named : lists pool stage state.finder entry inode with
      | none =>
        rw [named] at effect
        rw [show after.staged inode = state.staged inode from effect]
        simp
      | some listed =>
        rw [named] at effect
        obtain ⟨header,restored⟩ := effect
        rw [restored,restore_holds_iff some_]
        simp [and_comm,or_comm]

/-- The contents of `.smoothfs` with a valid sidecar among them: alone it is restored
into an inode. -/
structure Contents (pool : Pool σ) (objects : σ) (sidecar : Entry) (inode : Oid) (ranges : List Range) where
  directory : Directory
  member : sidecar ∈ directory.entries
  collected : rangeActor sidecar.name = true
  valid : lists pool directory.stage ⟨objects,false⟩ sidecar inode = some (.ok ranges)
  sorted : Sorted ranges

theorem stagingReplay_holds_iff (pool : Pool σ) (objects : σ) (directory : Directory) (inode : Oid) {ranges : List Range}
    (some_ : ranges ≠ []) :
    Holds ranges ((stagingReplay pool objects directory).1.staged inode) ↔
      Handled pool directory.stage inode ranges ⟨objects,false⟩ directory.names := by
  have loop := @replayNames_holds_iff _ pool directory.stage (.initial objects) directory.names inode ranges some_
  refine loop.trans (or_iff_left ?_)
  intro ⟨_,holds⟩
  cases holds.1

/-- Both directories restore the shared ranges just when in both of them a sidecar that lists them
is reached and is the last one for the inode. -/
theorem shared_sidecar_restored_iff (pool : Pool σ) (objects : σ) (sidecar : Entry) (inode : Oid) (ranges : List Range)
    (first second : Contents pool objects sidecar inode ranges) :
    Holds ranges ((stagingReplay pool objects first.directory).1.staged inode) ∧
        Holds ranges ((stagingReplay pool objects second.directory).1.staged inode) ↔
      Handled pool first.directory.stage inode ranges ⟨objects,false⟩ first.directory.names ∧
        Handled pool second.directory.stage inode ranges ⟨objects,false⟩ second.directory.names :=
  and_congr (stagingReplay_holds_iff pool objects first.directory inode first.sorted.nonempty)
    (stagingReplay_holds_iff pool objects second.directory inode second.sorted.nonempty)

def goodSidecar : Entry := ⟨sidecarName '1',some (sidecarFile [⟨0,4⟩])⟩

def badSidecars : List Entry :=
  [⟨sidecarName '2',some ⟨(sidecarFile [⟨0,4⟩]).data.take 20,none⟩⟩,⟨recPrefix ++ ['x'] ++ recSuffix,some (sidecarFile [⟨0,4⟩])⟩,
    ⟨sidecarName '3',some ⟨List.replicate 64 7,none⟩⟩]

theorem bad_sidecar_hides_good :
    Run.run (Resolve.step id) (Resolve.emptyMount StagingDrain.twoTierPool 0 0) Resolve.indexed = some indexedMount ∧
      ∀ bad ∈ badSidecars, ∃ first second : Contents indexedPool indexedObjects goodSidecar 1 [⟨0,4⟩],
        first.directory.entries = [goodSidecar,bad] ∧ second.directory.entries = [bad,goodSidecar] ∧
        ((stagingReplay indexedPool indexedObjects first.directory).1.staged 1).ranges = [⟨0,4⟩] ∧
        (stagingReplay indexedPool indexedObjects second.directory).1.staged 1 = .fresh := by
  have valid : lists indexedPool (fun _ => true) ⟨indexedObjects,false⟩ goodSidecar 1 = some (.ok [⟨0,4⟩]) := by decide +kernel
  have collected : rangeActor goodSidecar.name = true := by decide +kernel
  have sorted : Sorted [⟨0,4⟩] := by decide
  have replays : ∀ bad ∈ badSidecars,
      ((stagingReplay indexedPool indexedObjects ⟨[goodSidecar,bad],fun _ => true⟩).1.staged 1).ranges = [⟨0,4⟩] ∧
        (stagingReplay indexedPool indexedObjects ⟨[bad,goodSidecar],fun _ => true⟩).1.staged 1 = .fresh := by decide +kernel
  refine ⟨rfl,?_⟩
  intro bad member
  exact ⟨⟨⟨[goodSidecar,bad],fun _ => true⟩,by simp,collected,valid,sorted⟩,
    ⟨⟨[bad,goodSidecar],fun _ => true⟩,by simp,collected,valid,sorted⟩,rfl,rfl,replays bad member⟩

end Interference

end Smoothfs.RangeReplay
