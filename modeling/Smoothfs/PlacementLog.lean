import Mathlib.Data.List.Forall2
import Mathlib.Data.List.Induction
import Smoothfs.Placement
import Smoothfs.Library.LittleEndian
import Smoothfs.Library.Run

/-! The placement log as bytes: records are numbered when they are queued, appended
one by one by the writeback worker, which drops those that it cannot write, and
read back in frames of a fixed size by the next mount. -/
namespace Smoothfs.PlacementLog

open LittleEndian Run

def recSize : Nat := 64

def placementMagic : Nat := 0x534D46504C4F470A

structure Record where
  seq : UInt64
  oid : BitVec 128
  movementState : UInt8
  currentTier : UInt8
  intendedTier : UInt8
  pinState : UInt8
  gen : UInt32
  ts : UInt64
  deriving DecidableEq, Repr

def Record.encode (record : Record) : Bytes :=
  LittleEndian.encode 8 placementMagic ++ (LittleEndian.encode 8 record.seq.toNat ++ (LittleEndian.encode 16 record.oid.toNat ++
    ([record.movementState,record.currentTier,record.intendedTier,record.pinState] ++
      (LittleEndian.encode 4 record.gen.toNat ++ (LittleEndian.encode 8 record.ts.toNat ++ List.replicate 16 0)))))

def Record.decode (buf : Bytes) : Record where
  seq := UInt64.ofNat (field 8 8 buf)
  oid := BitVec.ofNat 128 (field 16 16 buf)
  movementState := buf.getD 32 0
  currentTier := buf.getD 33 0
  intendedTier := buf.getD 34 0
  pinState := buf.getD 35 0
  gen := UInt32.ofNat (field 36 4 buf)
  ts := UInt64.ofNat (field 40 8 buf)

structure ReplayRecord where
  seq : UInt64
  movementState : UInt8
  currentTier : UInt8
  intendedTier : UInt8
  pinState : UInt8
  gen : UInt32
  authoritativeTier : UInt8
  normalizedState : UInt8
  normalized : Bool
  deriving DecidableEq, Repr

def ReplayRecord.fresh : ReplayRecord := ⟨0,0,0,0,0,0,255,0,false⟩

def replayNormalize (record : ReplayRecord) : ReplayRecord :=
  if 1 ≤ record.movementState ∧ record.movementState ≤ 5 then
    {record with normalized := true, normalizedState := 0, authoritativeTier := record.currentTier}
  else if 6 ≤ record.movementState ∧ record.movementState ≤ 8 then
    {record with normalized := true, normalizedState := 0, authoritativeTier := record.intendedTier}
  else {record with normalized := false, normalizedState := record.movementState, authoritativeTier := record.currentTier}

abbrev Table := BitVec 128 → Option ReplayRecord

def replayed (record : Record) : ReplayRecord :=
  replayNormalize {ReplayRecord.fresh with
    seq := record.seq
    movementState := record.movementState
    currentTier := record.currentTier
    intendedTier := record.intendedTier
    pinState := record.pinState
    gen := record.gen}

def replayOne (table : Table) (record : Record) : Table := fun oid =>
  if oid = record.oid then
    let known := (table oid).getD .fresh
    if record.seq < known.seq then some known else some (replayed record)
  else table oid

/-- `fuel` bounds the number of reads. -/
def loadFrom : Nat → Bytes → Table → Except Errno Table
  | 0, _, table => .ok table
  | fuel+1, input, table =>
    let buf := input.take recSize
    if buf.length = 0 then .ok table
    else if buf.length ≠ recSize then .error .eio
    else if field 0 8 buf ≠ placementMagic then .error .einval
    else loadFrom fuel (input.drop recSize) (replayOne table (Record.decode buf))

def replayLoadLog (log : Bytes) : Except Errno Table :=
  loadFrom (log.length / recSize + 1) log (fun _ => none)

structure Recovery where
  records : Table
  scheduled : Bool

theorem length_encode (record : Record) : record.encode.length = recSize := by
  simp [Record.encode,recSize]

theorem field_magic (record : Record) : field 0 8 record.encode = placementMagic :=
  field_encode 8 _ (by decide)

theorem decode_encode (record : Record) : Record.decode record.encode = record := by
  have seq : field 8 8 record.encode = record.seq.toNat := by
    rw [Record.encode,field_append (by simp)]
    exact field_encode 8 _ record.seq.toNat_lt
  have oid : field 16 16 record.encode = record.oid.toNat := by
    rw [Record.encode,field_append (by simp),field_append (by simp)]
    exact field_encode 16 _ record.oid.isLt
  have gen : field 36 4 record.encode = record.gen.toNat := by
    rw [Record.encode,field_append (by simp),field_append (by simp),field_append (by simp),
      field_append (by simp)]
    exact field_encode 4 _ record.gen.toNat_lt
  have ts : field 40 8 record.encode = record.ts.toNat := by
    rw [Record.encode,field_append (by simp),field_append (by simp),field_append (by simp),
      field_append (by simp),field_append (by simp)]
    exact field_encode 8 _ record.ts.toNat_lt
  simp only [Record.decode,seq,oid,gen,ts,UInt64.ofNat_toNat,UInt32.ofNat_toNat,BitVec.ofNat_toNat,BitVec.setWidth_eq]
  rfl

variable (records : List Record) (rest : Bytes)

theorem loadFrom_records (short : rest.length < recSize) (fuel : Nat) (enough : records.length < fuel) (table : Table) :
    loadFrom fuel (records.flatMap Record.encode ++ rest) table =
      if rest = [] then .ok (records.foldl replayOne table) else .error .eio := by
  induction records generalizing fuel table with
  | nil =>
    cases fuel with
    | zero => exact absurd enough (Nat.not_lt_zero _)
    | succ fuel =>
      have all : rest.take recSize = rest := List.take_of_length_le (Nat.le_of_lt short)
      simp only [List.flatMap_nil,List.nil_append,loadFrom,all,List.foldl_nil,List.length_eq_zero_iff]
      split
      · rfl
      · exact if_pos (Nat.ne_of_lt short)
  | cons record later ih =>
    cases fuel with
    | zero => exact absurd enough (Nat.not_lt_zero _)
    | succ fuel =>
      have size := length_encode record
      have frame : (record.encode ++ (later.flatMap Record.encode ++ rest)).take recSize = record.encode :=
        List.take_left' size
      have behind : (record.encode ++ (later.flatMap Record.encode ++ rest)).drop recSize =
          later.flatMap Record.encode ++ rest := List.drop_left' size
      rw [List.flatMap_cons,List.append_assoc,loadFrom]
      simp only [frame,behind,size,field_magic,decode_encode]
      rw [if_neg (by decide),if_neg (by simp),if_neg (by simp)]
      exact ih fuel (by simpa using enough) _

theorem length_records : (records.flatMap Record.encode).length = records.length * recSize := by
  induction records with
  | nil => rfl
  | cons record later ih =>
    rw [List.flatMap_cons,List.length_append,ih,length_encode,List.length_cons,Nat.succ_mul,Nat.add_comm]

theorem count_records (short : rest.length < recSize) :
    (records.flatMap Record.encode ++ rest).length / recSize = records.length := by
  rw [List.length_append,length_records]
  unfold recSize at *
  omega

theorem replayLoadLog_records (short : rest.length < recSize) : replayLoadLog (records.flatMap Record.encode ++ rest) =
      if rest = [] then .ok (records.foldl replayOne fun _ => none) else .error .eio := by
  rw [replayLoadLog,count_records records rest short]
  exact loadFrom_records records rest short _ (Nat.lt_succ_self _) _

theorem take_records (kept : Nat) :
    ∃ rest, (records.flatMap Record.encode).take kept = (records.take (kept / recSize)).flatMap Record.encode ++ rest ∧
      rest.length < recSize := by
  induction records generalizing kept with
  | nil => exact ⟨[],by simp,by decide⟩
  | cons record later ih =>
    have size := length_encode record
    by_cases inside : kept < recSize
    · have none : kept / recSize = 0 := Nat.div_eq_of_lt inside
      refine ⟨record.encode.take kept,?_,?_⟩
      · rw [none,List.flatMap_cons,List.take_append_of_le_length (by omega)]
        rfl
      · rw [List.length_take,size]
        omega
    · obtain ⟨rest,cut,short⟩ := ih (kept - recSize)
      have more : kept / recSize = (kept - recSize) / recSize + 1 := by
        unfold recSize at *
        omega
      refine ⟨rest,?_,short⟩
      rw [more,List.flatMap_cons,List.take_append,size,cut,List.take_of_length_le (by omega),List.take_succ_cons,
        List.flatMap_cons,List.append_assoc]

def latest (records : List Record) : Table := fun oid => ((records.filter (·.oid = oid)).getLast?).map replayed

@[simp] theorem replayed_seq (record : Record) : (replayed record).seq = record.seq := by
  unfold replayed replayNormalize
  split
  · rfl
  · split <;> rfl

theorem foldl_replayOne (ordered : records.Pairwise (·.seq ≤ ·.seq)) :
    records.foldl replayOne (fun _ => none) = latest records := by
  induction records using List.reverseRecOn with
  | nil => rfl
  | append_singleton before record ih =>
    obtain ⟨sorted,_,behind⟩ := List.pairwise_append.mp ordered
    rw [List.foldl_append,ih sorted]
    funext oid
    by_cases same : oid = record.oid
    · have least : ¬ record.seq < ((latest before oid).getD .fresh).seq := by
        rw [UInt64.not_lt]
        cases last : (before.filter (·.oid = oid)).getLast? with
        | none =>
          rw [latest,last]
          exact UInt64.zero_le
        | some older =>
          have member : older ∈ before := List.mem_of_mem_filter (List.mem_of_getLast? last)
          rw [latest,last]
          exact (replayed_seq older).symm ▸ behind older member record (List.mem_singleton_self _)
      have latestNow : latest (before ++ [record]) oid = some (replayed record) := by
        simp [latest,List.filter_append,same]
      rw [latestNow,List.foldl_cons,List.foldl_nil,replayOne,if_pos same]
      dsimp only
      rw [if_neg least]
    · have unchanged : latest (before ++ [record]) oid = latest before oid := by
        simp [latest,List.filter_append,Ne.symm same]
      rw [unchanged,List.foldl_cons,List.foldl_nil,replayOne,if_neg same]

/-! ## Runs over several mounts -/

/-- `pending` is the queue with what the worker took from it; `appended` are the records written
whole. `dropped` says that a record of this mount was not written, `gap` that one was written after
that. -/
structure State where
  log : Bytes
  seq : UInt64
  pending : List Record
  mounted : Bool
  appended : List Record
  dropped : Bool
  gap : Bool
  deriving DecidableEq, Repr

inductive Label
  | record (oid : BitVec 128) (movementState currentTier intendedTier : UInt8) (ts : UInt64)
  | write (landed : Bool)
  | unmount
  | crash (kept : Nat)
  | mount
  deriving DecidableEq, Repr

/-- A crash loses the queue and every byte behind the first `kept`. A mount that cannot read the log
fails. -/
def step (state : State) : Label → Option State
  | .record oid movementState currentTier intendedTier ts =>
    if state.mounted then
      let seq := state.seq + 1
      some {state with seq := seq, pending := state.pending ++ [⟨seq,oid,movementState,currentTier,intendedTier,0,0,ts⟩]}
    else none
  | .write landed =>
    match state.mounted, state.pending with
    | true, record::later =>
      if landed then
        some {state with
          log := state.log ++ record.encode
          pending := later
          appended := state.appended ++ [record]
          gap := state.gap || state.dropped}
      else some {state with pending := later, dropped := true}
    | _, _ => none
  | .unmount => if state.mounted ∧ state.pending = [] then some {state with mounted := false} else none
  | .crash kept =>
    if state.mounted then
      some {state with
        log := state.log.take kept
        pending := []
        mounted := false
        appended := state.appended.take (kept / recSize)}
    else none
  | .mount =>
    if state.mounted then none
    else
      match replayLoadLog state.log with
      | .error _ => some state
      | .ok _ =>
        some {state with
          seq := UInt64.ofNat (state.log.length / recSize)
          pending := []
          mounted := true
          dropped := false}

def newPool : State := ⟨[],0,[],false,[],false,false⟩

/-- No mount follows one in which a record was written after another had been
dropped, and the counter does not wrap. -/
def Guard (state : State) : Label → Prop
  | .record _ _ _ _ _ => state.seq.toNat + 1 < 0x10000000000000000
  | .mount => state.gap = false
  | _ => True

instance decidableGuard (state : State) : (label : Label) → Decidable (Guard state label)
  | .record _ _ _ _ _ => inferInstanceAs (Decidable (_ < _))
  | .mount => inferInstanceAs (Decidable (_ = _))
  | .write _ | .unmount | .crash _ => inferInstanceAs (Decidable True)

def Numbered (records : List Record) : Prop :=
  ∀ (index : Nat) (record : Record), records[index]? = some record → record.seq.toNat = index + 1

structure Kept (state : State) : Prop where
  content : ∃ rest, state.log = state.appended.flatMap Record.encode ++ rest ∧ rest.length < recSize ∧
    (state.mounted = true → rest = [])
  ordered : (state.appended ++ state.pending).Pairwise (·.seq ≤ ·.seq)
  below : state.mounted = true → ∀ record ∈ state.appended ++ state.pending, record.seq ≤ state.seq
  queued : state.mounted = true → state.dropped = false →
    Numbered (state.appended ++ state.pending) ∧ state.seq.toNat = (state.appended ++ state.pending).length
  numbered : state.gap = false → Numbered state.appended

theorem Numbered.append {records : List Record} {record : Record} (numbered : Numbered records)
    (next : record.seq.toNat = records.length + 1) : Numbered (records ++ [record]) := by
  intro index found there
  rw [List.getElem?_append] at there
  split at there
  · exact numbered index found there
  obtain ⟨bound,same⟩ := List.getElem?_eq_some_iff.mp there
  have last : index = records.length := by
    simp only [List.length_singleton] at bound
    omega
  subst last
  rw [← same]
  simpa using next

theorem Numbered.take {records : List Record} (numbered : Numbered records) (count : Nat) : Numbered (records.take count) := by
  intro index found there
  rw [List.getElem?_take] at there
  split at there
  · exact numbered index found there
  · cases there

variable {later : List Record}

theorem Numbered.front {records : List Record} (numbered : Numbered (records ++ later)) : Numbered records := by
  intro index found there
  refine numbered index found ?_
  rw [List.getElem?_append_left (List.getElem?_eq_some_iff.mp there).1]
  exact there

theorem Numbered.length_lt {records : List Record} (numbered : Numbered records) : records.length < 0x10000000000000000 := by
  cases last : records.getLast? with
  | none =>
    rw [List.getLast?_eq_none_iff.mp last]
    decide
  | some record =>
    rw [List.getLast?_eq_getElem?] at last
    -- the number of the last record is their count
    have positive : records.length - 1 < records.length := (List.getElem?_eq_some_iff.mp last).1
    have number := numbered _ record last
    have bound := record.seq.toNat_lt
    omega

theorem Numbered.ordered {records : List Record} (numbered : Numbered records) : records.Pairwise (·.seq ≤ ·.seq) := by
  rw [List.pairwise_iff_getElem]
  intro i j left right before
  rw [UInt64.le_iff_toNat_le,numbered i _ (List.getElem?_eq_getElem left),numbered j _ (List.getElem?_eq_getElem right)]
  omega

theorem newPool_kept : Kept newPool where
  content := ⟨[],rfl,by decide,fun _ => rfl⟩
  ordered := List.Pairwise.nil
  below := fun mounted => Bool.noConfusion mounted
  queued := fun mounted => Bool.noConfusion mounted
  numbered := fun _ _ _ there => by cases there

variable {state : State}

theorem Kept.record (kept : Kept state) (fits : state.seq.toNat + 1 < 0x10000000000000000)
    (oid : BitVec 128) (movementState currentTier intendedTier : UInt8) (ts : UInt64) (mounted : state.mounted = true) :
    Kept {state with
      seq := state.seq + 1
      pending := state.pending ++ [⟨state.seq + 1,oid,movementState,currentTier,intendedTier,0,0,ts⟩]} := by
  have next : (state.seq + 1).toNat = state.seq.toNat + 1 := by
    rw [UInt64.toNat_add]
    exact Nat.mod_eq_of_lt fits
  have older : ∀ record ∈ state.appended ++ state.pending, record.seq ≤ state.seq + 1 := by
    intro record member
    have known := UInt64.le_iff_toNat_le.mp (kept.below mounted record member)
    rw [UInt64.le_iff_toNat_le,next]
    omega
  constructor
  case content => exact kept.content
  case numbered => exact kept.numbered
  all_goals dsimp only; rw [← List.append_assoc]
  case ordered =>
    refine List.pairwise_append.mpr ⟨kept.ordered,List.pairwise_singleton _ _,?_⟩
    intro record member other added
    rw [List.mem_singleton.mp added]
    exact older record member
  case below =>
    intro _ record member
    rcases List.mem_append.mp member with known | added
    · exact older record known
    · rw [List.mem_singleton.mp added]
      exact UInt64.le_refl _
  case queued =>
    intro _ undropped
    obtain ⟨numbered,count⟩ := kept.queued mounted undropped
    refine ⟨numbered.append ?_,?_⟩
    · rw [next,count]
    · rw [next,count]
      simp [Nat.add_assoc]

theorem Kept.write (kept : Kept state) {record : Record} {later : List Record} (mounted : state.mounted = true)
    (first : state.pending = record::later) :
    Kept {state with
      log := state.log ++ record.encode
      pending := later
      appended := state.appended ++ [record]
      gap := state.gap || state.dropped} := by
  have same : state.appended ++ [record] ++ later = state.appended ++ state.pending := by
    rw [first,List.append_assoc,List.singleton_append]
  constructor
  case content =>
    obtain ⟨rest,content,_,whole⟩ := kept.content
    refine ⟨[],?_,by decide,fun _ => rfl⟩
    rw [content,whole mounted,List.flatMap_append,List.flatMap_singleton,List.append_nil,List.append_nil]
  case numbered =>
    -- nothing was dropped, so the queue goes on where the log ends
    intro none
    exact (same ▸ (kept.queued mounted (Bool.or_eq_false_iff.mp none).2).1).front
  all_goals dsimp only; rw [same]
  case ordered => exact kept.ordered
  case below => exact kept.below
  case queued => exact kept.queued

theorem Kept.drop (kept : Kept state) {record : Record}
    (first : state.pending = record::later) : Kept {state with pending := later, dropped := true} := by
  have less : (state.appended ++ later).Sublist (state.appended ++ state.pending) := by
    rw [first]
    exact (List.Sublist.refl _).append (List.sublist_cons_self _ _)
  exact
    { content := kept.content
      ordered := kept.ordered.sublist less
      below := fun mounted record member => kept.below mounted record (less.subset member)
      queued := fun _ undropped => Bool.noConfusion undropped
      numbered := kept.numbered }

theorem Kept.crash (kept : Kept state) (mounted : state.mounted = true) (bytes : Nat) :
    Kept {state with
      log := state.log.take bytes
      pending := []
      mounted := false
      appended := state.appended.take (bytes / recSize)} := by
  obtain ⟨rest,content,_,whole⟩ := kept.content
  obtain ⟨torn,cut,short⟩ := take_records state.appended bytes
  rw [whole mounted,List.append_nil] at content
  exact
    { content := ⟨torn,by rw [← cut,content],short,fun still => Bool.noConfusion still⟩
      ordered := by
        rw [List.append_nil]
        exact kept.ordered.sublist ((List.take_sublist _ _).trans (List.sublist_append_left _ _))
      below := fun still => Bool.noConfusion still
      queued := fun still => Bool.noConfusion still
      numbered := fun none => (kept.numbered none).take _ }

theorem Kept.mount (kept : Kept state) (unbroken : state.gap = false) (table : Table)
    (loaded : replayLoadLog state.log = .ok table) :
    Kept {state with
      seq := UInt64.ofNat (state.log.length / recSize)
      pending := []
      mounted := true
      dropped := false} := by
  obtain ⟨rest,content,short,_⟩ := kept.content
  have numbered := kept.numbered unbroken
  have empty : rest = [] := by
    rw [content,replayLoadLog_records _ rest short] at loaded
    by_contra torn
    rw [if_neg torn] at loaded
    cases loaded
  -- the counter restarts at the number of records, which is the number of the last
  have count : (UInt64.ofNat (state.log.length / recSize)).toNat = state.appended.length := by
    rw [content,count_records _ rest short,UInt64.toNat_ofNat']
    exact Nat.mod_eq_of_lt numbered.length_lt
  constructor
  case content => exact ⟨rest,content,short,fun _ => empty⟩
  case numbered => exact fun _ => numbered
  all_goals dsimp only; rw [List.append_nil]
  case ordered => exact numbered.ordered
  case below =>
    intro _ record member
    obtain ⟨index,bound,same⟩ := List.mem_iff_getElem.mp member
    rw [UInt64.le_iff_toNat_le,count,← same,numbered index _ (List.getElem?_eq_getElem bound)]
    exact bound
  case queued => exact fun _ _ => ⟨numbered,count⟩

theorem Kept.step {next : State} {label : Label} (kept : Kept state) (met : Guard state label)
    (taken : step state label = some next) : Kept next := by
  cases label with
  | record oid movementState currentTier intendedTier ts =>
    obtain ⟨mounted,same⟩ := Option.ite_none_right_eq_some.mp taken
    cases same
    exact kept.record met oid movementState currentTier intendedTier ts mounted
  | write landed =>
    simp only [PlacementLog.step] at taken
    split at taken
    · next record later mounted first =>
      split at taken
      · cases taken
        exact kept.write mounted first
      · cases taken
        exact kept.drop first
    · cases taken
  | unmount =>
    obtain ⟨⟨mounted,flushed⟩,same⟩ := Option.ite_none_right_eq_some.mp taken
    cases same
    obtain ⟨rest,content,short,_⟩ := kept.content
    exact
      { content := ⟨rest,content,short,fun still => Bool.noConfusion still⟩
        ordered := kept.ordered
        below := fun still => Bool.noConfusion still
        queued := fun still => Bool.noConfusion still
        numbered := kept.numbered }
  | crash bytes =>
    obtain ⟨mounted,same⟩ := Option.ite_none_right_eq_some.mp taken
    cases same
    exact kept.crash mounted bytes
  | mount =>
    obtain ⟨_,taken⟩ := Option.ite_none_left_eq_some.mp taken
    cases loaded : replayLoadLog state.log with
    | error error =>
      rw [loaded] at taken
      cases taken
      exact kept
    | ok table =>
      rw [loaded] at taken
      cases taken
      exact kept.mount met table loaded

/-- Replay keeps, for every object, the record that was appended last. A log that ends
within a record cannot be read. -/
theorem replay_keeps_the_last_record (labels : List Label) (final : State) (guarded : Guarded step Guard newPool labels)
    (reached : run step newPool labels = some final) :
    replayLoadLog final.log = if final.log.length % recSize = 0 then .ok (latest final.appended) else .error .eio := by
  have kept : Kept final :=
    Run.invariant step Guard Kept (fun _ _ _ kept met taken => kept.step met taken) newPool final labels newPool_kept guarded reached
  obtain ⟨rest,content,short,_⟩ := kept.content
  have whole : final.log.length % recSize = 0 ↔ rest = [] := by
    rw [content,List.length_append,length_records,← List.length_eq_zero_iff,Nat.mul_add_mod_self_right,Nat.mod_eq_of_lt short]
  have ordered := (List.pairwise_append.mp kept.ordered).1
  simp only [whole]
  rw [content,replayLoadLog_records _ rest short,foldl_replayOne _ ordered]

theorem replay_keeps_the_last_record_after_a_drop_and_a_crash :
    ∃ labels final, Guarded step Guard newPool labels ∧ run step newPool labels = some final ∧ final.appended.length = 2 ∧
      replayLoadLog final.log = .ok (latest final.appended) := by
  let labels : List Label :=
    [.mount,.record 1 0 0 0 10,.write true,.record 2 0 0 0 11,.write false,.crash 64,.mount,.record 1 0 1 1 12,.write true]
  have guarded : Guarded step Guard newPool labels := by decide +kernel
  have computed : ∃ final, run step newPool labels = some final ∧
      final.appended.length = 2 ∧ final.log.length % recSize = 0 := reaches (by decide +kernel)
  obtain ⟨final,reached,count,whole⟩ := computed
  have replayed := replay_keeps_the_last_record labels final guarded reached
  rw [if_pos whole] at replayed
  exact ⟨labels,final,guarded,reached,count,replayed⟩

/-- Two records are dropped and a third is written with the number 3; the next mount gives the
number 2 to the latest one. -/
theorem dropped_records_hide_a_later_one :
    ∃ final, run step newPool
        [.mount,.record 2 0 0 0 10,.record 2 0 0 0 11,.record 1 0 0 0 12,.write false,.write false,.write true,.unmount,
          .mount,.record 1 0 1 1 13,.write true,.unmount] = some final ∧
      (replayLoadLog final.log).toOption.map (· 1) ≠ some (latest final.appended 1) := reaches (by decide +kernel)

/-! ## Torn logs -/

def written (writes : List (Record × Nat)) : Bytes := writes.flatMap fun write => write.1.encode.take write.2

/-- The records that stand whole in front of the cut. -/
def complete : Nat → List (Record × Nat) → List Record
  | _, [] => []
  | cut, (record,count)::later =>
    let behind := complete (cut - min count recSize) later
    if recSize ≤ count ∧ recSize ≤ cut then record::behind else behind

variable (table : Table)

def returned : Except Errno Recovery → Option Errno
  | .error error => some error
  | .ok _ => none

def code : MovementState → UInt8
  | .placed => 0
  | .planAccepted => 1
  | .destinationReserved => 2
  | .copyInProgress => 3
  | .copyComplete => 4
  | .copyVerified => 5
  | .cutoverInProgress => 6
  | .switched => 7
  | .cleanupInProgress => 8
  | .cleanupComplete => 9
  | .failed => 10
  | .stale => 11

structure Represents (record : Record) (entry : Placement.PlacementRecord) : Prop where
  oid : record.oid.toNat = entry.oid
  movementState : record.movementState = code entry.movementState
  currentTier : record.currentTier.toNat = entry.currentTier
  intendedTier : record.intendedTier.toNat = entry.intendedTier

structure Agrees (replayed : ReplayRecord) (record : Placement.ReplayRecord) : Prop where
  movementState : replayed.movementState = code record.movementState
  currentTier : replayed.currentTier.toNat = record.currentTier
  intendedTier : replayed.intendedTier.toNat = record.intendedTier
  authoritativeTier : record.authoritativeTier = some replayed.authoritativeTier.toNat
  normalizedState : replayed.normalizedState = code record.normalizedState
  normalized : replayed.normalized = record.normalized

theorem replayed_agrees {record : Record} {entry : Placement.PlacementRecord} (represents : Represents record entry) :
    Agrees (replayed record) (Placement.replayNormalize {Placement.ReplayRecord.fresh with
      logged := true
      movementState := entry.movementState
      currentTier := entry.currentTier
      intendedTier := entry.intendedTier}) := by
  have current := represents.currentTier
  have intended := represents.intendedTier
  have same := represents.movementState
  cases state : entry.movementState <;> rw [state] at same <;>
    exact
      { movementState := by simp [replayed,replayNormalize,Placement.replayNormalize,same,code]
        currentTier := by simp [replayed,replayNormalize,Placement.replayNormalize,same,code,current]
        intendedTier := by simp [replayed,replayNormalize,Placement.replayNormalize,same,code,intended]
        authoritativeTier := by simp [replayed,replayNormalize,Placement.replayNormalize,same,code,current,intended]
        normalizedState := by simp [replayed,replayNormalize,Placement.replayNormalize,same,code]
        normalized := by simp [replayed,replayNormalize,Placement.replayNormalize,same,code] }

/-- While the numbers never decrease, replay finds of the bytes what `Placement` says of
the records. -/
theorem replayLoadLog_refines (entries : List Placement.PlacementRecord)
    (represents : List.Forall₂ Represents records entries) (ordered : records.Pairwise (·.seq ≤ ·.seq)) (oid : BitVec 128) :
    ∃ table, replayLoadLog (records.flatMap Record.encode) = .ok table ∧
      Option.Rel Agrees (table oid) (Placement.replayLoadLog entries oid.toNat) := by
  have loaded := replayLoadLog_records records [] (by decide)
  rw [List.append_nil,if_pos rfl,foldl_replayOne records ordered] at loaded
  refine ⟨_,loaded,?_⟩
  have own : ∀ record entry, Represents record entry →
      (decide (record.oid = oid) = true ↔ decide (entry.oid = oid.toNat) = true) := by
    intro record entry same
    simp only [decide_eq_true_eq]
    rw [← same.oid,BitVec.toNat_inj]
  have filtered : List.Forall₂ Represents (records.filter (·.oid = oid)) (entries.filter (·.oid = oid.toNat)) :=
    List.rel_filter (fun {record entry} same => own record entry same) represents
  have last := List.rel_reverse filtered
  unfold latest Placement.replayLoadLog
  rw [List.getLast?_eq_head?_reverse,List.getLast?_eq_head?_reverse]
  generalize (records.filter (·.oid = oid)).reverse = backwards at last ⊢
  generalize (entries.filter (·.oid = oid.toNat)).reverse = others at last ⊢
  cases last with
  | nil => exact .none
  | cons same _ => exact .some (replayed_agrees same)

theorem switched_record_refined : ∃ table, replayLoadLog ([⟨1,7,7,0,1,0,0,0⟩].flatMap Record.encode) = .ok table ∧
    Option.Rel Agrees (table 7) (Placement.replayLoadLog [⟨7,.switched,0,1⟩] 7) :=
  replayLoadLog_refines _ _ (.cons ⟨rfl,rfl,rfl,rfl⟩ .nil) (List.pairwise_singleton _ _) 7

end Smoothfs.PlacementLog
