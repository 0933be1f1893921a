import Smoothfs.RangeCache
import Smoothfs.RangeRecovery
import Smoothfs.Library.Run
import Smoothfs.Library.Versions

/-! What an fsync of a file under range staging is worth after a crash. Staged
writes and drains are cut where a crash can come in: the bytes reach the stage
file before the sidecar is renamed into place, and a drain makes the base file
durable before it unlinks the two. Nothing ever syncs the stage file or the
directory that it and the sidecar stand in. -/
namespace Smoothfs.StagedFsync

open RangeStaging Content Extents Run Versions

/-- A staged write whose sidecar is not yet written, or a drain that has the base file durable, has
forgotten the ranges, or has unlinked the stage file. -/
inductive Busy
  | idle
  | persisting
  | flushed
  | cleared
  | unlinked
  deriving DecidableEq, Repr

/-- What a crash can leave: the contents of the base file since its last fsync, those of every stage
file and every sidecar that had the name, and the OID of the base file if that was `stamped` at its
last fsync. `promise` is the content at the last fsync, with the writes since then, the newest
first. -/
structure Disk (α : Type) where
  file : State α
  busy : Busy
  versions : List (List α)
  stages : List (List (List α))
  records : List Bytes
  stamped : Bool
  promise : Option (List α × List (List α))
  deriving DecidableEq

inductive Label (α : Type)
  | stage (call : WriteCall α) (answer : WriteAnswer)
  | persist (answer : WriteAnswer)
  | direct (call : WriteCall α) (pos : Nat) (answer : Except Errno Nat)
  | storeSize (size : Nat)
  | copy (budget : Nat)
  | flush
  | clear
  | unlink (failure : Option Errno)
  | retire (kept : Bool)
  | fsync
  | usage (nearFull : Bool)
  | storeDrainMask (mask : Nat)
  | flushOid

section Machine

variable {α : Type} [Zero α]

def applied (promise : Option (List α × List (List α))) (pos : Nat) (data : List α) : Option (List α × List (List α)) :=
  promise.map (fun kept => (write kept.1 pos data,kept.1::kept.2))

def Disk.withStage (disk : Disk α) (content : List α) : List (List (List α)) :=
  match disk.file.stage, disk.stages with
  | some _, current::old => (content::current)::old
  | _, old => [content,[]]::old

def stageBytes (disk : Disk α) (call : WriteCall α) (answer : WriteAnswer) : Disk α :=
  let pos := stagePos disk.file call
  match answer.stageOpen with
  | some _ => disk
  | none =>
    match accepted call.data pos answer.stage with
    | .ok (byte::rest) =>
      let staged := stagedAt (opened disk.file) pos (byte::rest)
      {disk with
        file := staged
        busy := .persisting
        stages := disk.withStage (staged.stage.getD [])
        promise := applied disk.promise pos (byte::rest)}
    | _ => {disk with file := opened disk.file, stages := disk.withStage (disk.file.stage.getD [])}

def drains (file : State α) : Bool :=
  file.rangeStaged && drainTierActive file file.sourceTier

def forgotten (file : State α) : State α :=
  {file with stagePath := false, ranges := [], rangeStaged := false, sourceTier := Namespace.maxTiers, stagingPinned := false}

def step (disk : Disk α) : Label α → Option (Disk α)
  | .stage call answer =>
    if disk.busy = .idle ∧ shouldRangeStageWrite disk.file call then some (stageBytes disk call answer) else none
  | .persist answer =>
    if disk.busy = .persisting ∧ answer.now < 256 ^ 8 then
      let recorded := (persist disk.file answer).1
      some {disk with file := recorded, busy := .idle, records := recorded.sidecar.toList ++ disk.records}
    else none
  | .direct call pos answer =>
    -- The test of `range_staged` comes before and is not made again.
    match lowerWrite disk.file pos call answer with
    | (_,.error _) => some disk
    | (written,.ok count) =>
      let place := if call.lowerAppend then disk.file.lower.length else pos
      some {disk with
        file := written
        versions := written.lower::disk.versions
        promise := applied disk.promise place (call.data.take count)}
  | .storeSize size => some {disk with file := {disk.file with size := size}}
  | .copy budget =>
    if disk.busy = .idle ∧ drains disk.file then
      let lower := (RangeStaging.drainRanges (disk.file.stage.getD []) disk.file.ranges budget disk.file.lower).2
      some {disk with file := {disk.file with lower := lower}, versions := lower::disk.versions}
    else none
  | .flush =>
    let stage := disk.file.stage.getD []
    if disk.busy = .idle ∧ drains disk.file ∧ total disk.file.ranges ≤ readable stage.length disk.file.ranges then
      let lower := (RangeStaging.drainRanges stage disk.file.ranges (readable stage.length disk.file.ranges) disk.file.lower).2
      some {disk with file := {disk.file with lower := lower}, busy := .flushed, versions := [lower], stamped := disk.file.stamped}
    else none
  | .clear => if disk.busy = .flushed then some {disk with file := forgotten disk.file, busy := .cleared} else none
  | .unlink failure =>
    if disk.busy = .cleared then
      some {disk with file := {disk.file with stage := if failure.isSome then disk.file.stage else none}, busy := .unlinked}
    else none
  | .retire kept =>
    if disk.busy = .unlinked then
      some {disk with file := {disk.file with sidecar := if kept then disk.file.sidecar else none}, busy := .idle}
    else none
  | .fsync =>
    -- A cache drains first, which waits for the lock and leaves a tier alone that is not active.
    if disk.file.pool.cacheMode → disk.busy = .idle ∧ drains disk.file = false then
      some {disk with versions := [disk.file.lower], stamped := disk.file.stamped, promise := some (view disk.file,[])}
    else none
  | .usage nearFull => some {disk with file := {disk.file with pool := {disk.file.pool with fastNearFull := nearFull}}}
  | .storeDrainMask mask => some {disk with file := {disk.file with drainMask := StagingDrain.storedMask disk.file.pool mask}}
  | .flushOid => some {disk with file := {disk.file with stamped := true}}

def settled (file : State α) : Disk α :=
  ⟨file,.idle,[file.lower],(file.stage.map (fun content => [content])).toList,file.sidecar.toList,file.stamped,none⟩

/-- A mixture of the contents of the base file, an OID that was not synced or not written perhaps
lost, and under the two names nothing or what had the name once. -/
structure Crash (disk : Disk α) (wreck : State α) : Prop where
  rest : wreck = {disk.file with lower := wreck.lower, stage := wreck.stage, sidecar := wreck.sidecar, stamped := wreck.stamped}
  base : Mixed disk.versions wreck.lower
  sidecar : ∀ bytes ∈ wreck.sidecar, bytes ∈ disk.records
  stage : ∀ bytes ∈ wreck.stage, ∃ versions ∈ disk.stages, Mixed versions bytes
  stamp : disk.stamped = true → wreck.stamped = true
  written : wreck.stamped = true → disk.file.stamped = true

def replayed (file : State α) : List Extent :=
  match file.sidecar.map (Sidecar.decode file.pool.ntiers) with
  | some (.ok record) => if file.stage.isSome then record.ranges else []
  | _ => []

/-- An fsync comes when the sidecar has just the staged ranges and these end inside the lower file,
which carries its OID, and no stage file is made under an old sidecar. -/
def orderly (disk : Disk α) : Label α → Bool
  | .fsync =>
    disk.busy = .idle ∧ replayed disk.file = disk.file.ranges ∧
      (disk.file.rangeStaged → disk.file.stamped ∧ disk.file.size = disk.file.lower.length ∧
        bound disk.file.ranges ≤ disk.file.lower.length)
  | .stage _ _ => disk.file.stage.isSome || disk.file.sidecar.isNone
  | _ => true

end Machine

section Invariant

variable {α : Type} [Zero α] {disk next : Disk α}

/-- The base file must do without the ranges: it has them, or a replay may not find it by its OID. -/
def Disk.Complete (disk : Disk α) : Prop := disk.busy = .flushed ∨ disk.stamped = false

structure Promised (disk : Disk α) (newest : List α) (older : List (List α)) : Prop where
  longest : ∀ version ∈ older, version.length ≤ newest.length
  ends : bound disk.file.ranges ≤ newest.length
  lengths : ∀ version ∈ disk.versions, version.length ≤ newest.length ∧ ∃ old ∈ newest::older, old.length ≤ version.length
  staged : ∀ index, covers disk.file.ranges index = true ∨ covers (replayed disk.file) index = true →
    Offers (newest::older) index (fetch (disk.file.stage.getD []) index)
  base : ∀ index, covers disk.file.ranges index = false ∨ covers (replayed disk.file) index = false ∨ disk.Complete →
    ∀ version ∈ disk.versions, Offers (newest::older) index (fetch version index)
  separated : Separated (replayed disk.file)
  held : bound (replayed disk.file) ≤ (disk.file.stage.getD []).length

structure Sound (disk : Disk α) : Prop where
  shape : Shape disk.file
  few : disk.file.pool.ntiers ≤ Namespace.maxTiers
  source : disk.file.rangeStaged = true → disk.file.sourceTier < disk.file.pool.ntiers
  low : bound disk.file.ranges ≤ maxBytes
  staging : disk.busy = .persisting → disk.file.rangeStaged = true ∧ disk.file.stage.isSome = true
  bare : disk.busy = .cleared ∨ disk.busy = .unlinked → disk.file.rangeStaged = false
  present : disk.file.lower ∈ disk.versions
  promised : ∀ newest older, disk.promise = some (newest,older) → Promised disk newest older

omit [Zero α] in
theorem replayed_opened {file : State α} (stands : file.stage.isSome = true ∨ file.sidecar = none) :
    replayed (opened file) = replayed file := by
  unfold replayed
  change (match file.sidecar.map (Sidecar.decode file.pool.ntiers) with
    | some (.ok record) => if (some (file.stage.getD [])).isSome then record.ranges else []
    | _ => []) = _
  obtain stands | gone := stands
  · rw [stands]
    rfl
  · rw [gone]
    rfl

omit [Zero α] in
theorem replayed_gone {file : State α} (gone : file.stage = none ∨ file.sidecar = none) : replayed file = [] := by
  unfold replayed
  obtain gone | gone := gone
  · rw [gone]
    split <;> rfl
  · rw [gone]
    rfl

omit [Zero α] in
theorem replayed_recorded {file : State α} {bytes : Bytes} {record : Sidecar} (present : file.stage.isSome = true)
    (decoded : Sidecar.decode file.pool.ntiers bytes = .ok record) : replayed (withSidecar file (some bytes)) = record.ranges := by
  have read : (withSidecar file (some bytes)).sidecar.map (Sidecar.decode (withSidecar file (some bytes)).pool.ntiers) =
      some (.ok record) := congrArg some decoded
  unfold replayed
  rw [read]
  exact if_pos present

variable {newest : List α} {older : List (List α)}

theorem Promised.aside (promised : Promised disk newest older)
    (ranges : next.file.ranges = disk.file.ranges) (stage : next.file.stage.getD [] = disk.file.stage.getD [])
    (record : replayed next.file = replayed disk.file) (versions : next.versions = disk.versions)
    (complete : next.Complete → disk.Complete) : Promised next newest older := by
  constructor
  · exact promised.longest
  · rw [ranges]
    exact promised.ends
  · rw [versions]
    exact promised.lengths
  · rw [ranges,record,stage]
    exact promised.staged
  · rw [ranges,record,versions]
    exact fun index bare => promised.base index (bare.imp_right (Or.imp_right complete))
  · rw [record]
    exact promised.separated
  · rw [record,stage]
    exact promised.held

omit [Zero α] in
theorem applied_eq_some {promise : Option (List α × List (List α))} [Zero α] {pos : Nat} {data newest : List α} {older : List (List α)}
    (some_ : applied promise pos data = some (newest,older)) :
    ∃ last rest, promise = some (last,rest) ∧ newest = write last pos data ∧ older = last::rest := by
  obtain ⟨⟨last,rest⟩,before,same⟩ := Option.map_eq_some_iff.mp some_
  cases same
  exact ⟨last,rest,before,rfl,rfl⟩

variable (promised : Promised disk newest older)
include promised

theorem Promised.longer (pos : Nat) (data : List α) :
    ∀ version ∈ newest::older, version.length ≤ (write newest pos data).length := by
  intro version member
  have grown := length_le_write newest pos data
  obtain rfl | old := List.mem_cons.mp member
  · exact grown
  · exact (promised.longest version old).trans grown

theorem Promised.stageBytes (shape : Shape disk.file)
    (stands : disk.file.stage.isSome = true ∨ disk.file.sidecar = none) {pos : Nat} {data : List α} (nonempty : data ≠ [])
    (file : next.file = stagedAt (opened disk.file) pos data) (versions : next.versions = disk.versions)
    (complete : next.Complete → disk.Complete) : Promised next (write newest pos data) (newest::older) := by
  have record : replayed next.file = replayed disk.file := by
    rw [file]
    exact replayed_opened stands
  have stage : next.file.stage.getD [] = write (disk.file.stage.getD []) pos data := by
    rw [file]
    rfl
  have covered : ∀ index, covers next.file.ranges index =
      (covers disk.file.ranges index || (Extent.mk pos (pos + data.length)).holds index) := by
    rw [file]
    exact covers_stagedAt shape.opened pos nonempty
  constructor
  · exact promised.longer pos data
  · rw [file,bound_stagedAt shape.opened pos nonempty,length_write,if_neg nonempty]
    exact max_le_max_right _ promised.ends
  · rw [versions]
    intro version member
    obtain ⟨below,old,among,above⟩ := promised.lengths version member
    exact ⟨below.trans (length_le_write newest pos data),old,List.mem_cons_of_mem _ among,above⟩
  · intro index under
    rw [stage,fetch_write]
    split
    · next inside => exact offers_write _ _ inside.1 inside.2
    · next outside =>
      rw [covered,record,Bool.or_eq_true,holds_iff] at under
      exact (promised.staged index (under.imp_left (fun here => here.resolve_right outside))).cons _
  · rw [record,versions]
    intro index bare version member
    refine (promised.base index ?_ version member).cons _
    obtain bare | bare | whole := bare
    · rw [covered,Bool.or_eq_false_iff] at bare
      exact .inl bare.1
    · exact .inr (.inl bare)
    · exact .inr (.inr (complete whole))
  · rw [record]
    exact promised.separated
  · rw [record,stage]
    exact promised.held.trans (length_le_write _ _ _)

theorem Promised.direct (present : disk.file.lower ∈ disk.versions) (pos : Nat) (data : List α)
    (file : next.file = {disk.file with lower := write disk.file.lower pos data})
    (versions : next.versions = write disk.file.lower pos data::disk.versions) (complete : next.Complete → disk.Complete) :
    Promised next (write newest pos data) (newest::older) := by
  have grown := length_le_write newest pos data
  constructor
  · exact promised.longer pos data
  · rw [file]
    exact promised.ends.trans grown
  · rw [versions]
    intro version member
    obtain rfl | member := List.mem_cons.mp member
    · obtain ⟨below,old,among,above⟩ := promised.lengths _ present
      exact ⟨length_write_mono _ _ pos data below,old,List.mem_cons_of_mem _ among,above.trans (length_le_write _ _ _)⟩
    · obtain ⟨below,old,among,above⟩ := promised.lengths version member
      exact ⟨below.trans grown,old,List.mem_cons_of_mem _ among,above⟩
  · rw [file]
    exact fun index under => (promised.staged index under).cons _
  · rw [file,versions]
    intro index bare version member
    replace bare := bare.imp_right (Or.imp_right complete)
    obtain rfl | member := List.mem_cons.mp member
    · exact (promised.base index bare _ present).written pos data
    · exact (promised.base index bare version member).cons _
  · rw [file]
    exact promised.separated
  · rw [file]
    exact promised.held

variable {lower : List α}

theorem Promised.lowered (file : next.file = {disk.file with lower := lower})
    (lengths : ∀ version ∈ next.versions, version.length ≤ newest.length ∧ ∃ old ∈ newest::older, old.length ≤ version.length)
    (base : ∀ index, covers disk.file.ranges index = false ∨ covers (replayed disk.file) index = false ∨ next.Complete →
      ∀ version ∈ next.versions, Offers (newest::older) index (fetch version index)) : Promised next newest older := by
  constructor
  · exact promised.longest
  · rw [file]
    exact promised.ends
  · exact lengths
  · rw [file]
    exact promised.staged
  · rw [file]
    exact base
  · rw [file]
    exact promised.separated
  · rw [file]
    exact promised.held

theorem Promised.copy (present : disk.file.lower ∈ disk.versions)
    (copied : Copied disk.file.ranges (disk.file.stage.getD []) disk.file.lower lower)
    (file : next.file = {disk.file with lower := lower}) (versions : next.versions = lower::disk.versions)
    (complete : next.Complete → disk.Complete) : Promised next newest older := by
  obtain ⟨below,old,among,above⟩ := promised.lengths _ present
  refine promised.lowered file ?_ ?_
  · rw [versions]
    intro version member
    obtain rfl | member := List.mem_cons.mp member
    · exact ⟨copied.limit.trans (max_le below promised.ends),old,among,above.trans copied.grown⟩
    · exact promised.lengths version member
  · rw [versions]
    intro index bare version member
    replace bare := bare.imp_right (Or.imp_right complete)
    obtain rfl | member := List.mem_cons.mp member
    · obtain same | ⟨covered,same⟩ := copied.bytes index
      · rw [same]
        exact promised.base index bare _ present
      · rw [same]
        exact promised.staged index (.inl covered)
    · exact promised.base index bare version member

theorem Promised.flush (present : disk.file.lower ∈ disk.versions)
    (all : Settled disk.file.ranges (disk.file.stage.getD []) disk.file.lower lower)
    (file : next.file = {disk.file with lower := lower}) (versions : next.versions = [lower]) : Promised next newest older := by
  obtain ⟨below,old,among,above⟩ := promised.lengths _ present
  refine promised.lowered file ?_ ?_
  · rw [versions]
    intro version member
    cases List.mem_singleton.mp member
    rw [all.size]
    exact ⟨max_le below promised.ends,old,among,above.trans (Nat.le_max_left _ _)⟩
  · rw [versions]
    intro index _ version member
    cases List.mem_singleton.mp member
    rw [all.bytes index,overlay]
    split
    · next covered => exact promised.staged index (.inl covered)
    · next bare => exact promised.base index (.inl (by simpa using bare)) _ present

theorem Promised.bare
    (alone : ∀ index, covers disk.file.ranges index = false ∨ disk.busy = .flushed) (ranges : next.file.ranges = [])
    (versions : next.versions = disk.versions)
    (record : replayed next.file = [] ∨ replayed next.file = replayed disk.file ∧ next.file.stage = disk.file.stage) :
    Promised next newest older := by
  have base : ∀ index, ∀ version ∈ disk.versions, Offers (newest::older) index (fetch version index) :=
    fun index => promised.base index ((alone index).imp_right fun flushed => .inr (.inl flushed))
  constructor
  · exact promised.longest
  · rw [ranges]
    exact Nat.zero_le _
  · rw [versions]
    exact promised.lengths
  · intro index under
    rw [ranges,covers_nil,Bool.false_eq_true,false_or] at under
    obtain gone | ⟨same,stage⟩ := record
    · rw [gone] at under
      cases under
    · rw [same] at under
      rw [stage]
      exact promised.staged index (.inr under)
  · rw [versions]
    exact fun index _ => base index
  · obtain gone | ⟨same,_⟩ := record
    · rw [gone]
      exact separated_nil
    · rw [same]
      exact promised.separated
  · obtain gone | ⟨same,stage⟩ := record
    · rw [gone]
      exact Nat.zero_le _
    · rw [same,stage]
      exact promised.held

theorem Promised.recorded (shape : Shape disk.file)
    (staged : disk.file.rangeStaged = true) (ranges : next.file.ranges = disk.file.ranges) (stage : next.file.stage = disk.file.stage)
    (record : replayed next.file = disk.file.ranges) (versions : next.versions = disk.versions)
    (complete : next.Complete → disk.Complete) : Promised next newest older := by
  constructor
  · exact promised.longest
  · rw [ranges]
    exact promised.ends
  · rw [versions]
    exact promised.lengths
  · rw [ranges,record,stage]
    exact fun index under => promised.staged index (.inl (under.elim id id))
  · rw [ranges,record,versions]
    exact fun index bare => promised.base index (bare.elim .inl fun rest => rest.elim .inl fun whole => .inr (.inr (complete whole)))
  · rw [record]
    exact shape.separated
  · rw [record,stage]
    exact (shape.staged staged).2

omit promised

theorem promised_fsync (shape : Shape disk.file) (record : replayed disk.file = disk.file.ranges)
    (inside : disk.file.rangeStaged = true → disk.file.size = disk.file.lower.length ∧ bound disk.file.ranges ≤ disk.file.lower.length)
    (file : next.file = disk.file) (versions : next.versions = [disk.file.lower]) (bared : next.Complete → disk.file.rangeStaged = false) :
    Promised next (view disk.file) [] := by
  have length : (view disk.file).length = disk.file.lower.length := by
    unfold view
    split
    · next staged => rw [length_tabulate,(inside staged).1]
    · rfl
  have ends : bound disk.file.ranges ≤ disk.file.lower.length := by
    cases staged : disk.file.rangeStaged with
    | true => exact (inside staged).2
    | false => rw [shape.unstaged staged]; exact Nat.zero_le _
  have bytes : ∀ index, index < disk.file.lower.length → fetch (view disk.file) index = merged disk.file index := by
    intro index before
    unfold view
    split
    · next staged => rw [fetch_tabulate,if_pos (by rwa [(inside staged).1])]
    · next unstaged => rw [merged,overlay,shape.unstaged (by simpa using unstaged),covers_nil,if_neg Bool.false_ne_true]
  have bare : ∀ index, covers disk.file.ranges index = false → fetch (view disk.file) index = fetch disk.file.lower index := by
    intro index bare
    by_cases before : index < disk.file.lower.length
    · rw [bytes index before,merged,overlay,bare,if_neg Bool.false_ne_true]
    · rw [fetch_ge _ _ (by omega),fetch_ge _ _ (by omega)]
  constructor
  · exact fun _ member => absurd member List.not_mem_nil
  · rw [file,length]
    exact ends
  · rw [versions]
    intro version member
    cases List.mem_singleton.mp member
    exact ⟨Nat.le_of_eq length.symm,_,List.mem_singleton_self _,Nat.le_of_eq length⟩
  · rw [file,record]
    intro index under
    have covered : covers disk.file.ranges index = true := under.elim id id
    have before := Nat.lt_of_lt_of_le (covers_lt_bound _ shape.separated _ covered) ends
    exact ⟨_,List.mem_singleton_self _,by rw [bytes index before,merged,overlay,if_pos covered]⟩
  · rw [file,record,versions]
    intro index open_ version member
    cases List.mem_singleton.mp member
    refine ⟨_,List.mem_singleton_self _,bare index (open_.elim id fun rest => rest.elim id fun whole => ?_)⟩
    rw [shape.unstaged (bared whole),covers_nil]
  · rw [file,record]
    exact shape.separated
  · rw [file,record]
    cases staged : disk.file.rangeStaged with
    | true => exact (shape.staged staged).2
    | false => rw [shape.unstaged staged]; exact Nat.zero_le _

end Invariant

section Steps

variable {α : Type} [Zero α] {disk next : Disk α}

theorem stageBytes_cases (disk : Disk α) (call : WriteCall α) (answer : WriteAnswer) :
    stageBytes disk call answer = disk ∨
      (∃ stages, stageBytes disk call answer = {disk with file := opened disk.file, stages := stages}) ∨
      ∃ pos data stages, data ≠ [] ∧ pos + data.length ≤ maxBytes ∧ stageBytes disk call answer =
        {disk with
          file := stagedAt (opened disk.file) pos data
          busy := .persisting
          stages := stages
          promise := applied disk.promise pos data} := by
  unfold stageBytes
  dsimp only
  split
  · exact .inl rfl
  split
  · next byte rest took => exact .inr (.inr ⟨_,_,_,List.cons_ne_nil _ _,(accepted_ok took).2,rfl⟩)
  · exact .inr (.inl ⟨_,rfl⟩)

variable {call : WriteCall α} {answer : WriteAnswer}

theorem Sound.stage (sound : Sound disk)
    (stages : shouldRangeStageWrite disk.file call = true) (stands : disk.file.stage.isSome = true ∨ disk.file.sidecar = none) :
    Sound (stageBytes disk call answer) := by
  obtain same | ⟨kept,same⟩ | ⟨pos,data,kept,nonempty,fits,same⟩ := stageBytes_cases disk call answer <;> rw [same]
  · exact sound
  · refine ⟨sound.shape.opened,sound.few,sound.source,sound.low,fun busy => ⟨(sound.staging busy).1,rfl⟩,sound.bare,sound.present,
      fun newest older promise => ?_⟩
    exact (sound.promised newest older promise).aside rfl rfl (replayed_opened stands) rfl id
  refine ⟨sound.shape.opened.stagedAt rfl pos data nonempty,sound.few,fun _ => ?_,?_,fun _ => ⟨rfl,rfl⟩,by simp,sound.present,
    fun newest older promise => ?_⟩
  · simp only [shouldRangeStageWrite,decide_eq_true_eq] at stages
    exact stages.2.2.2.2.1
  · rw [bound_stagedAt sound.shape.opened pos nonempty]
    exact max_le sound.low fits
  · obtain ⟨last,rest,before,rfl,rfl⟩ := applied_eq_some promise
    exact (sound.promised last rest before).stageBytes sound.shape stands nonempty rfl rfl fun whole => .inr (whole.resolve_left (by simp))

theorem Sound.persist (sound : Sound disk) (busy : disk.busy = .persisting) (clock : answer.now < 256 ^ 8)
    (records : List Bytes) : Sound {disk with file := (persist disk.file answer).1, busy := .idle, records := records} := by
  obtain ⟨staged,present⟩ := sound.staging busy
  -- A write of the sidecar that fails leaves the old one.
  have failed : Sound {disk with busy := .idle, records := records} := by
    refine ⟨sound.shape,sound.few,sound.source,sound.low,nofun,by simp,sound.present,fun newest older promise => ?_⟩
    exact (sound.promised newest older promise).aside rfl rfl rfl rfl fun whole => .inr (whole.resolve_left nofun)
  unfold RangeStaging.persist
  split
  · exact failed
  split
  · exact failed
  refine ⟨sound.shape.persisted _,sound.few,sound.source,sound.low,nofun,by simp,sound.present,fun newest older promise => ?_⟩
  refine (sound.promised newest older promise).recorded sound.shape staged rfl rfl ?_ rfl fun whole => .inr (whole.resolve_left nofun)
  exact replayed_recorded present
    (decode_recorded sound.shape sound.few (sound.source staged) clock (by omega) sound.low)

variable {file : State α}

omit [Zero α] in
theorem shape_lower (shape : Shape file) {lower : List α} : Shape {file with lower := lower} :=
  ⟨shape.separated,shape.unstaged,shape.staged,fun cache => {shape.cache cache with}⟩

variable (sound : Sound disk)
include sound

theorem Sound.direct {pos : Nat} {answer : Except Errno Nat}
    (taken : step disk (.direct call pos answer) = some next) : Sound next := by
  simp only [step,lowerWrite] at taken
  cases took : accepted call.data (if call.lowerAppend then disk.file.lower.length else pos) answer with
  | error errno =>
    simp only [took] at taken
    cases taken
    exact sound
  | ok data =>
    have first := (accepted_ok took).1
    simp only [took,← first] at taken
    cases taken
    refine ⟨shape_lower sound.shape,sound.few,sound.source,sound.low,sound.staging,sound.bare,List.mem_cons_self,
      fun newest older promise => ?_⟩
    obtain ⟨last,rest,before,rfl,rfl⟩ := applied_eq_some promise
    exact (sound.promised last rest before).direct sound.present _ data rfl rfl id

theorem Sound.copy {budget : Nat} (taken : step disk (.copy budget) = some next) : Sound next := by
  simp only [step] at taken
  split at taken
  swap
  · cases taken
  cases taken
  refine ⟨shape_lower sound.shape,sound.few,sound.source,sound.low,sound.staging,sound.bare,List.mem_cons_self,
    fun newest older promise => ?_⟩
  exact (sound.promised newest older promise).copy sound.present
    (drainRanges_copied _ _ sound.shape.separated budget disk.file.lower) rfl rfl id

theorem Sound.flush (taken : step disk .flush = some next) : Sound next := by
  simp only [step] at taken
  split at taken
  swap
  · cases taken
  next ready =>
  cases taken
  have staged : disk.file.rangeStaged = true := by
    have drains := ready.2.1
    simp only [StagedFsync.drains,Bool.and_eq_true] at drains
    exact drains.1
  refine ⟨shape_lower sound.shape,sound.few,sound.source,sound.low,nofun,by simp,List.mem_singleton_self _,
    fun newest older promise => ?_⟩
  exact (sound.promised newest older promise).flush sound.present
    (drainRanges_settled _ _ sound.shape.separated (sound.shape.staged staged).2 _ ready.2.2 disk.file.lower) rfl rfl

theorem Sound.clear (flushed : disk.busy = .flushed) : Sound {disk with file := forgotten disk.file, busy := .cleared} := by
  refine ⟨⟨separated_nil,fun _ => rfl,nofun,fun cache => ?_⟩,sound.few,nofun,Nat.zero_le _,nofun,fun _ => rfl,sound.present,
    fun newest older promise => ?_⟩
  · have based := sound.shape.cache cache
    exact ⟨based.some,based.tier,based.active,nofun⟩
  · exact (sound.promised newest older promise).bare (fun _ => .inr flushed) rfl rfl (.inr ⟨rfl,rfl⟩)

theorem Sound.gone {busy : Busy} (bare : disk.busy = .cleared ∨ disk.busy = .unlinked)
    (same : file = {disk.file with stage := file.stage, sidecar := file.sidecar})
    (record : replayed file = [] ∨ replayed file = replayed disk.file ∧ file.stage = disk.file.stage) (persists : busy ≠ .persisting) :
    Sound {disk with file := file, busy := busy} := by
  have unstaged := sound.bare bare
  have empty := sound.shape.unstaged unstaged
  have shape : Shape file := by
    rw [same]
    exact ⟨sound.shape.separated,sound.shape.unstaged,fun staged => absurd staged (by simp [unstaged]),
      fun cache => {sound.shape.cache cache with}⟩
  have kept : file.rangeStaged = false ∧ file.ranges = [] ∧ file.lower = disk.file.lower ∧ file.pool = disk.file.pool := by
    rw [same]
    exact ⟨unstaged,empty,rfl,rfl⟩
  refine ⟨shape,?_,fun staged => ?_,?_,fun busy => absurd busy persists,fun _ => kept.1,?_,fun newest older promise => ?_⟩
  · change file.pool.ntiers ≤ _
    rw [kept.2.2.2]
    exact sound.few
  · change file.rangeStaged = true at staged
    rw [kept.1] at staged
    cases staged
  · change bound file.ranges ≤ _
    rw [kept.2.1]
    exact Nat.zero_le _
  · change file.lower ∈ disk.versions
    rw [kept.2.2.1]
    exact sound.present
  · exact (sound.promised newest older promise).bare (fun index => .inl (by rw [empty,covers_nil])) kept.2.1 rfl record

theorem Sound.fsync (idle : disk.busy = .idle) (record : replayed disk.file = disk.file.ranges)
    (inside : disk.file.rangeStaged = true → disk.file.stamped = true ∧ disk.file.size = disk.file.lower.length ∧
      bound disk.file.ranges ≤ disk.file.lower.length) :
    Sound {disk with versions := [disk.file.lower], stamped := disk.file.stamped, promise := some (view disk.file,[])} := by
  refine ⟨sound.shape,sound.few,sound.source,sound.low,sound.staging,sound.bare,List.mem_singleton_self _,
    fun newest older promise => ?_⟩
  cases promise
  refine promised_fsync sound.shape record (fun staged => (inside staged).2) rfl rfl fun whole => ?_
  have unstamped : disk.file.stamped = false := whole.resolve_left (by simp [idle])
  cases staged : disk.file.rangeStaged with
  | false => rfl
  | true => exact absurd ((inside staged).1.symm.trans unstamped) nofun

theorem Sound.aside (shape : Shape file) (tiers : file.pool.ntiers = disk.file.pool.ntiers)
    (ranges : file.ranges = disk.file.ranges) (staged : file.rangeStaged = disk.file.rangeStaged)
    (source : file.sourceTier = disk.file.sourceTier) (stage : file.stage = disk.file.stage)
    (sidecar : file.sidecar = disk.file.sidecar) (lower : file.lower = disk.file.lower) : Sound {disk with file := file} := by
  refine ⟨shape,?_,?_,?_,?_,?_,?_,fun newest older promise => ?_⟩
  · exact tiers ▸ sound.few
  · dsimp only
    rw [staged,source,tiers]
    exact sound.source
  · exact ranges ▸ sound.low
  · dsimp only
    rw [staged,stage]
    exact sound.staging
  · dsimp only
    rw [staged]
    exact sound.bare
  · exact lower ▸ sound.present
  · refine (sound.promised newest older promise).aside ranges (by rw [stage]) ?_ rfl id
    dsimp only [replayed]
    rw [sidecar,stage,tiers]

theorem Sound.step {label : Label α} (guard : orderly disk label = true) (taken : step disk label = some next) : Sound next := by
  have simple : ∀ {condition : Prop} [Decidable condition] {after : Disk α},
      (if condition then some after else none) = some next → condition ∧ after = next := by
    intro condition _ after taken
    split at taken
    · next holds => exact ⟨holds,Option.some.inj taken⟩
    · cases taken
  cases label with
  | stage call answer =>
    obtain ⟨⟨_,stages⟩,rfl⟩ := simple taken
    refine sound.stage stages ?_
    simpa [orderly] using guard
  | persist answer =>
    obtain ⟨⟨busy,clock⟩,rfl⟩ := simple taken
    exact sound.persist busy clock _
  | direct call pos answer => exact sound.direct taken
  | storeSize size | usage nearFull | flushOid =>
    cases taken
    have shape := sound.shape
    exact sound.aside ⟨shape.separated,shape.unstaged,shape.staged,fun cache => {shape.cache cache with}⟩ rfl rfl rfl rfl rfl rfl rfl
  | copy budget => exact sound.copy taken
  | flush => exact sound.flush taken
  | clear =>
    obtain ⟨flushed,rfl⟩ := simple taken
    exact sound.clear flushed
  | unlink failure =>
    obtain ⟨cleared,rfl⟩ := simple taken
    refine sound.gone (.inl cleared) rfl ?_ (by simp)
    cases failure with
    | none => exact .inl (replayed_gone (.inl rfl))
    | some errno => exact .inr ⟨rfl,rfl⟩
  | retire kept =>
    obtain ⟨unlinked,rfl⟩ := simple taken
    refine sound.gone (.inr unlinked) rfl ?_ (by simp)
    cases kept with
    | false => exact .inl (replayed_gone (.inr rfl))
    | true => exact .inr ⟨rfl,rfl⟩
  | fsync =>
    obtain ⟨_,rfl⟩ := simple taken
    simp only [orderly,decide_eq_true_eq] at guard
    exact sound.fsync guard.1 guard.2.1 guard.2.2
  | storeDrainMask mask =>
    cases taken
    exact sound.aside (sound.shape.step (.storeDrainMask mask)) rfl rfl rfl rfl rfl rfl rfl

omit sound

end Steps

section Whole

variable {α : Type} [Zero α]

variable (wreck : State α)

end Whole

def stagedByte : List (Label Nat) :=
  [.stage ⟨0,[9],false,false,false,false⟩ ⟨none,.ok 1,none,0,.fine,.ok 1,.fine,none⟩,
    .persist ⟨none,.ok 1,none,0,.fine,.ok 1,.fine,none⟩]

end Smoothfs.StagedFsync
