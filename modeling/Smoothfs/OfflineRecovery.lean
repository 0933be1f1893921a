import Smoothfs.Recovery
import Smoothfs.Library.Run

/-! `Recover` without a kernel client: rows of interrupted movements are settled in the
database, and recorded LUN pins are written to the files again. -/
namespace Smoothfs.OfflineRecovery

open Worker (GoError)
open Run

structure Object where
  row : Row
  failureReason : String
  deriving DecidableEq, Repr

/-- `order` is the order in which a query returns the rows, `backing` leads from a namespace and a
tier to its directory, and `pinned` are the paths to which the pin was written. -/
structure Database where
  rows : Oid → Option Object
  order : List Oid
  listed : ∀ oid, (rows oid).isSome → oid ∈ order
  distinct : order.Nodup
  backing : String → String → Option String
  pinned : List (String × RelPath)

inductive Answer
  | ok
  | failed (err : Errno)
  | lost (err : Errno)
  deriving DecidableEq, Repr

def Answer.executes : Answer → Bool
  | .failed _ => false
  | _ => true

def Answer.error : Answer → Option Errno
  | .ok => none
  | .failed err | .lost err => some err

structure Answers where
  update : Answer
  backing : Answer
  pin : Answer
  deriving DecidableEq, Repr

/-- `scan` is the error of the query. -/
structure Attempt where
  scan : Option Errno
  answers : Oid → Answers

def Database.update (db : Database) (oid : Oid) (change : Object → Object) : Database where
  rows := Function.update db.rows oid ((db.rows oid).map change)
  order := db.order
  listed other found := by
    by_cases same : other = oid
    · subst same
      rw [Function.update_self,Option.isSome_map] at found
      exact db.listed other found
    · rw [Function.update_of_ne same] at found
      exact db.listed other found
  distinct := db.distinct
  backing := db.backing
  pinned := db.pinned

inductive Repair
  | skip
  | keep
  | update (text tier : String) (change : Object → Object)

def destination (p : Object) : String := p.row.intendedTierID.getD ""

def repair (p : Object) : Repair :=
  match p.row.movementState with
  | .failed =>
    if p.row.pinState = .lun ∧ destination p ≠ "" then
      .update "preserve failed lun" (destination p) fun object =>
        {object with row := {object.row with currentTierID := destination p, intendedTierID := none}}
    else .keep
  | .planAccepted | .destinationReserved | .copyInProgress | .copyComplete | .copyVerified =>
    .update "rollback" p.row.currentTierID fun object =>
      {row := {object.row with movementState := .placed, intendedTierID := none}
       failureReason := "recovered: rolled back from " ++ Recovery.stateName p.row.movementState}
  | .cutoverInProgress | .switched | .cleanupInProgress =>
    if destination p = "" then .skip
    else
      .update "forward" (destination p) fun object =>
        {row := {object.row with
           currentTierID := destination p
           intendedTierID := none
           movementState := .placed
           lastCommittedCutoverGen := object.row.lastCommittedCutoverGen + 1}
         failureReason := "recovered: forwarded from " ++ Recovery.stateName p.row.movementState}
  | .placed | .cleanupComplete | .stale => .keep

def setLUNPin (db : Database) (lower : String) (rel : RelPath) (answer : Answer) : Database × Option GoError :=
  (if answer.executes then {db with pinned := db.pinned ++ [(lower,rel)]} else db,
    answer.error.map fun err => .wrap "set trusted.smoothfs.lun" (.errno err))

def restoreLUNPin (db : Database) (namespaceID tierID : String) (rel : RelPath) (answers : Answers) : Database × Option GoError :=
  match answers.backing.error with
  | some err => (db,some (.wrap "recover pin: resolve backing path" (.errno err)))
  | none =>
    match db.backing namespaceID tierID with
    | none => (db,some (.wrap "recover pin: resolve backing path" (.new "sql: no rows in result set")))
    | some lower =>
      if lower = "" then (db,some (.new "recover pin: resolve backing path: missing backing_ref"))
      else setLUNPin db lower rel answers.pin

def repin (db : Database) (p : Object) (tier : String) (answers : Answers) : Database × Option GoError :=
  if p.row.pinState ≠ .lun ∨ p.row.relPath = [] then (db,none)
  else if tier = "" then (db,some (.new "missing tier id for pin repair"))
  else restoreLUNPin db p.row.namespaceID tier p.row.relPath answers

def recoverOne (db : Database) (oid : Oid) (p : Object) (answers : Answers) : Database × Option GoError :=
  match repair p with
  | .skip => (db,none)
  | .keep => repin db p p.row.currentTierID answers
  | .update text tier change =>
    let updated := if answers.update.executes then db.update oid change else db
    match answers.update.error with
    | some err => (updated,some (.wrap text (.errno err)))
    | none => repin updated p tier answers

def recoverAll (answers : Oid → Answers) : Database → List (Oid × Object) → Database × Option GoError
  | db, [] => (db,none)
  | db, (oid,p)::rest =>
    match recoverOne db oid p (answers oid) with
    | (db,some err) => (db,some err)
    | (db,none) => recoverAll answers db rest

def interrupted (p : Object) : Bool :=
  p.row.movementState ≠ .placed ∧ p.row.movementState ≠ .cleanupComplete ∧ p.row.movementState ≠ .stale

def selected (db : Database) : List (Oid × Object) :=
  db.order.filterMap fun oid => ((db.rows oid).filter interrupted).map (oid,·)

def recover (db : Database) (attempt : Attempt) : Database × Option GoError :=
  match attempt.scan with
  | some err => (db,some (.wrap "scan in-flight movements" (.errno err)))
  | none => recoverAll attempt.answers db (selected db)

/-- The tier on which a row is to end, if its movement was before the cutover, or
behind it with a destination. -/
def finalTier (p : Object) : Option String :=
  if p.row.movementState.preCutover then some p.row.currentTierID
  else if (p.row.movementState = .cutoverInProgress ∨ p.row.movementState = .switched ∨ p.row.movementState = .cleanupInProgress) ∧
      destination p ≠ "" then some (destination p)
  else none

/-- The row is placed on the tier, and a LUN's pin was written to its file there. -/
def Settled (db : Database) (oid : Oid) (p : Object) (tier : String) : Prop :=
  (∃ object, db.rows oid = some object ∧ object.row.movementState = .placed ∧ object.row.currentTierID = tier) ∧
    (p.row.pinState = .lun → ∃ lower, db.backing p.row.namespaceID tier = some lower ∧ (lower,p.row.relPath) ∈ db.pinned)

structure PinFollows (db : Database) (p : Object) (tier : String) (answers : Answers) : Prop where
  reported : answers.update = .ok
  path : p.row.relPath ≠ []
  named : tier ≠ ""
  backed : ∃ lower, db.backing p.row.namespaceID tier = some lower ∧ lower ≠ ""
  found : answers.backing = .ok
  written : answers.pin.executes = true

/-- In a run of `Recover` an UPDATE of the row, if it is a LUN's, that takes effect is followed by
its pin. -/
def PinsFollow (oid : Oid) (db : Database) (attempt : Attempt) : Prop :=
  ∀ p tier, db.rows oid = some p → finalTier p = some tier → p.row.pinState = .lun → (attempt.answers oid).update.executes = true →
    PinFollows db p tier (attempt.answers oid)

def step (db : Database) (attempt : Attempt) : Option Database := some (recover db attempt).1

structure Frame (oid : Oid) (db after : Database) : Prop where
  rows : ∀ other, other ≠ oid → after.rows other = db.rows other
  backing : after.backing = db.backing
  pinned : ∀ path ∈ db.pinned, path ∈ after.pinned

variable (oid : Oid) (db : Database)

theorem Frame.refl : Frame oid db db := ⟨fun _ _ => rfl,rfl,fun _ => id⟩

theorem Frame.trans {oid : Oid} {db middle after : Database} (first : Frame oid db middle) (second : Frame oid middle after) :
    Frame oid db after :=
  ⟨fun other different => (second.rows other different).trans (first.rows other different),second.backing.trans first.backing,
    fun path member => second.pinned path (first.pinned path member)⟩

theorem Frame.update (oid : Oid) (change : Object → Object) : Frame oid db (db.update oid change) :=
  ⟨fun _ different => Function.update_of_ne different _ _,rfl,fun _ => id⟩

theorem setLUNPin_frame {lower : String} {rel : RelPath} {answer : Answer} :
    Frame oid db (setLUNPin db lower rel answer).1 ∧ (setLUNPin db lower rel answer).1.rows = db.rows := by
  unfold setLUNPin
  split
  · exact ⟨⟨fun _ _ => rfl,rfl,fun path member => List.mem_append_left _ member⟩,rfl⟩
  · exact ⟨.refl oid db,rfl⟩

theorem repin_frame (p : Object) (tier : String) (answers : Answers) :
    Frame oid db (repin db p tier answers).1 ∧ (repin db p tier answers).1.rows = db.rows := by
  have same : Frame oid db db ∧ db.rows = db.rows := ⟨.refl oid db,rfl⟩
  unfold repin
  split
  · exact same
  split
  · exact same
  unfold restoreLUNPin
  split
  · exact same
  split
  · exact same
  · split
    · exact same
    · exact setLUNPin_frame oid db

theorem recoverOne_frame (oid : Oid) (p : Object) (answers : Answers) : Frame oid db (recoverOne db oid p answers).1 := by
  unfold recoverOne
  cases repair p with
  | skip => exact .refl oid db
  | keep => exact (repin_frame oid db p _ answers).1
  | update text tier change =>
    have updated : Frame oid db (if answers.update.executes then db.update oid change else db) := by
      split
      · exact .update db oid change
      · exact .refl oid db
    cases answers.update.error with
    | some err => exact updated
    | none => exact updated.trans (repin_frame oid _ p tier answers).1

variable {p : Object} {tier : String}

theorem repair_of_finalTier (ends : finalTier p = some tier) :
    ∃ text change, repair p = .update text tier change ∧ (change p).row.movementState = .placed ∧ (change p).row.currentTierID = tier := by
  unfold finalTier destination at ends
  unfold repair destination
  cases state : p.row.movementState <;> simp [state,MovementState.preCutover] at ends ⊢
  all_goals first | exact ends | (obtain ⟨there,rfl⟩ := ends; simp [there])

theorem repin_pins {p : Object} {tier lower : String} {answers : Answers} (path : p.row.relPath ≠ []) (placed : tier ≠ "")
    (lun : p.row.pinState = .lun) (leads : db.backing p.row.namespaceID tier = some lower) (there : lower ≠ "")
    (found : answers.backing = .ok) (written : answers.pin.executes = true) :
    (lower,p.row.relPath) ∈ (repin db p tier answers).1.pinned := by
  have goes : repin db p tier answers = setLUNPin db lower p.row.relPath answers.pin := by
    simp [repin,restoreLUNPin,lun,path,placed,leads,there,found,Answer.error]
  rw [goes,setLUNPin,if_pos written]
  exact List.mem_append_right _ List.mem_cons_self

theorem recoverOne_settles {db : Database} {oid : Oid} {answers : Answers} (there : db.rows oid = some p)
    (ends : finalTier p = some tier)
    (follows : p.row.pinState = .lun → answers.update.executes = true → PinFollows db p tier answers) :
    ((recoverOne db oid p answers).1.rows oid = some p ∧ (recoverOne db oid p answers).2 ≠ none) ∨
      Settled (recoverOne db oid p answers).1 oid p tier := by
  obtain ⟨text,change,update,placed,moved⟩ := repair_of_finalTier ends
  unfold recoverOne
  rw [update]
  dsimp only
  cases executes : answers.update.executes with
  | false =>
    refine .inl ?_
    cases answer : answers.update with
    | ok | lost err => simp [answer,Answer.executes] at executes
    | failed err => exact ⟨there,by simp [Answer.error]⟩
  | true =>
    refine .inr ?_
    have row : (db.update oid change).rows oid = some (change p) := by
      simp [Database.update,there]
    by_cases lun : p.row.pinState = .lun
    · obtain ⟨ok,path,named,⟨lower,leads,real⟩,found,written⟩ := follows lun executes
      rw [ok]
      obtain ⟨frame,rows⟩ := repin_frame oid (db.update oid change) p tier answers
      refine ⟨⟨change p,?_,placed,moved⟩,fun _ => ⟨lower,?_,?_⟩⟩
      · exact (congrFun rows oid).trans row
      · exact (congrFun (congrFun frame.backing _) _).trans leads
      · exact repin_pins (db.update oid change) path named lun leads real found written
    · refine ⟨⟨change p,?_,placed,moved⟩,fun wrong => absurd wrong lun⟩
      cases answers.update.error with
      | some err => exact row
      | none => exact (congrFun (repin_frame oid (db.update oid change) p tier answers).2 oid).trans row

theorem Settled.frame {db after : Database} {oid other : Oid} (settled : Settled db oid p tier)
    (frame : Frame other db after) (different : oid ≠ other) : Settled after oid p tier := by
  obtain ⟨⟨object,there,placed,moved⟩,pins⟩ := settled
  refine ⟨⟨object,(frame.rows oid different).trans there,placed,moved⟩,?_⟩
  intro lun
  obtain ⟨lower,leads,member⟩ := pins lun
  exact ⟨lower,by rw [frame.backing]; exact leads,frame.pinned _ member⟩

theorem recoverAll_frame (answers : Oid → Answers) (db : Database) {todo : List (Oid × Object)} {oid : Oid}
    (absent : ∀ entry ∈ todo, entry.1 ≠ oid) :
    (recoverAll answers db todo).1.rows oid = db.rows oid ∧ (recoverAll answers db todo).1.backing = db.backing ∧
      ∀ p tier, Settled db oid p tier → Settled (recoverAll answers db todo).1 oid p tier := by
  induction todo generalizing db with
  | nil => exact ⟨rfl,rfl,fun _ _ => id⟩
  | cons entry rest ih =>
    obtain ⟨other,object⟩ := entry
    have different : oid ≠ other := (absent (other,object) List.mem_cons_self).symm
    have frame := recoverOne_frame db other object (answers other)
    unfold recoverAll
    generalize recoverOne db other object (answers other) = result at frame ⊢
    obtain ⟨middle,failed⟩ := result
    cases failed with
    | some err => exact ⟨frame.rows oid different,frame.backing,fun p tier settled => settled.frame frame different⟩
    | none =>
      obtain ⟨rows,backing,keeps⟩ := ih middle fun entry member => absent entry (List.mem_cons_of_mem _ member)
      exact ⟨rows.trans (frame.rows oid different),backing.trans frame.backing,
        fun p tier settled => keeps p tier (settled.frame frame different)⟩

theorem recoverAll_settles {answers : Oid → Answers} {db : Database} {todo : List (Oid × Object)} {oid : Oid}
    (distinct : (todo.map Prod.fst).Nodup) (member : (oid,p) ∈ todo) (there : db.rows oid = some p) (ends : finalTier p = some tier)
    (follows : p.row.pinState = .lun → (answers oid).update.executes = true → PinFollows db p tier (answers oid)) :
    ((recoverAll answers db todo).1.rows oid = some p ∧ (recoverAll answers db todo).2 ≠ none) ∨
      Settled (recoverAll answers db todo).1 oid p tier := by
  induction todo generalizing db with
  | nil => exact absurd member List.not_mem_nil
  | cons entry rest ih =>
    obtain ⟨other,object⟩ := entry
    obtain ⟨fresh,distinct⟩ := List.nodup_cons.mp distinct
    have frame := recoverOne_frame db other object (answers other)
    unfold recoverAll
    rcases List.mem_cons.mp member with first | later
    · cases first
      have settles := recoverOne_settles there ends follows
      generalize recoverOne db oid p (answers oid) = result at settles ⊢
      obtain ⟨middle,failed⟩ := result
      cases failed with
      | some err => exact settles
      | none =>
        have settled := settles.resolve_left fun stays => stays.2 rfl
        refine .inr ((recoverAll_frame answers middle ?_).2.2 p tier settled)
        intro entry inside same
        exact fresh (List.mem_map.mpr ⟨entry,inside,same⟩)
    · have different : oid ≠ other := by
        intro same
        exact fresh (List.mem_map.mpr ⟨(oid,p),later,same⟩)
      generalize recoverOne db other object (answers other) = result at frame ⊢
      obtain ⟨middle,failed⟩ := result
      have kept : middle.rows oid = some p := (frame.rows oid different).trans there
      cases failed with
      | some err => exact .inl ⟨kept,by simp⟩
      | none =>
        refine ih distinct later kept ?_
        intro lun executes
        have follows := follows lun executes
        exact ⟨follows.reported,follows.path,follows.named,by rw [frame.backing]; exact follows.backed,follows.found,follows.written⟩

theorem selected_distinct : ((selected db).map Prod.fst).Nodup := by
  have sub : ((selected db).map Prod.fst).Sublist db.order := by
    unfold selected
    generalize db.order = order
    induction order with
    | nil => exact List.Sublist.refl _
    | cons oid rest ih =>
      rw [List.filterMap_cons]
      cases (db.rows oid).filter interrupted with
      | none => exact ih.cons oid
      | some p => exact ih.cons_cons oid
  exact sub.nodup db.distinct

theorem mem_selected {db : Database} {oid : Oid} : (oid,p) ∈ selected db ↔ db.rows oid = some p ∧ interrupted p = true := by
  unfold selected
  rw [List.mem_filterMap]
  constructor
  · rintro ⟨other,_,found⟩
    obtain ⟨object,kept,same⟩ := Option.map_eq_some_iff.mp found
    cases same
    exact Option.filter_eq_some_iff.mp kept
  · intro found
    refine ⟨oid,db.listed oid (by simp [found.1]),?_⟩
    rw [Option.map_eq_some_iff]
    exact ⟨p,Option.filter_eq_some_iff.mpr found,rfl⟩

theorem interrupted_of_finalTier (ends : finalTier p = some tier) : interrupted p = true := by
  unfold finalTier at ends
  cases state : p.row.movementState <;> simp [state,MovementState.preCutover,interrupted] at ends ⊢

def Pending (oid : Oid) (p : Object) (tier : String) (db : Database) : Prop :=
  db.rows oid = some p ∨ Settled db oid p tier

theorem recover_settles {db : Database} {attempt : Attempt} {oid : Oid} (ends : finalTier p = some tier)
    (pending : Pending oid p tier db) (follows : PinsFollow oid db attempt) :
    Pending oid p tier (recover db attempt).1 ∧ ((recover db attempt).2 = none → Settled (recover db attempt).1 oid p tier) := by
  unfold recover
  cases attempt.scan with
  | some err => exact ⟨pending,fun done => absurd done (by simp)⟩
  | none =>
    cases pending with
    | inl there =>
      have member := mem_selected.mpr ⟨there,interrupted_of_finalTier ends⟩
      cases recoverAll_settles (selected_distinct db) member there ends (follows p tier there ends) with
      | inl stays => exact ⟨.inl stays.1,fun done => absurd done stays.2⟩
      | inr settled => exact ⟨.inr settled,fun _ => settled⟩
    | inr settled =>
      -- A settled row is `placed` and is not selected again.
      have absent : ∀ entry ∈ selected db, entry.1 ≠ oid := by
        rintro ⟨other,object⟩ member rfl
        obtain ⟨there,inflight⟩ := mem_selected.mp member
        obtain ⟨⟨placed,found,state,_⟩,_⟩ := settled
        cases found.symm.trans there
        simp [interrupted,state] at inflight
      have after := (recoverAll_frame attempt.answers db absent).2.2 p tier settled
      exact ⟨.inr after,fun _ => after⟩

/-- However many runs there are and whatever fails in them, a row without an interrupted
movement stays as it is. -/
theorem recovery_spares_settled (db : Database) (attempts : List Attempt) (oid : Oid) :
    (attempts.foldl (fun db attempt => (recover db attempt).1) db).rows oid = db.rows oid ∨ ∃ p ∈ db.rows oid, interrupted p = true := by
  by_cases moving : ∃ p ∈ db.rows oid, interrupted p = true
  · exact .inr moving
  left
  induction attempts generalizing db with
  | nil => rfl
  | cons attempt rest ih =>
    have kept : (recover db attempt).1.rows oid = db.rows oid := by
      unfold recover
      split
      · rfl
      · refine (recoverAll_frame attempt.answers db fun entry member same => moving ⟨entry.2,?_⟩).1
        exact same ▸ mem_selected.mp member
    exact (ih _ (by rwa [kept])).trans kept

/-- An interrupted row that is not updated without its pin being written, if it is a LUN's, ends placed
and pinned. -/
theorem recovery_retried_settles (db before : Database) (attempts : List Attempt) (last : Attempt) (oid : Oid)
    (follow : Guarded step (PinsFollow oid) db attempts) (reached : run step db attempts = some before)
    (follows : PinsFollow oid before last) (succeeds : (recover before last).2 = none) (p : Object) (tier : String)
    (there : db.rows oid = some p) (ends : finalTier p = some tier) : Settled (recover before last).1 oid p tier := by
  have pending : Pending oid p tier before := by
    refine invariant step (PinsFollow oid) (Pending oid p tier) ?_ db before attempts (.inl there) follow reached
    intro start attempt next pending follows taken
    cases taken
    exact (recover_settles ends pending follows).1
  exact (recover_settles ends pending follows).2 succeeds

def copiedLUN : Object := ⟨⟨"ns","fast",some "slow",.copyComplete,.lun,1,["lun"],0⟩,""⟩

def lunDatabase : Database where
  rows oid := if oid = 1 then some copiedLUN else none
  order := [1]
  listed oid found := by
    by_cases same : oid = 1
    · exact List.mem_singleton.mpr same
    · rw [if_neg same] at found
      cases found
  distinct := by simp
  backing _ tier := if tier = "fast" then some "/fast" else none
  pinned := []

def attemptWith (update backing pin : Answer) : Attempt := ⟨none,fun _ => ⟨update,backing,pin⟩⟩

theorem lunDatabase_pinsFollow {update : Answer} (sound : update.executes = true → update = .ok) :
    PinsFollow 1 lunDatabase (attemptWith update .ok .ok) := by
  intro p tier there ends _ executes
  cases there
  cases ends
  exact ⟨sound executes,by decide,by decide,⟨"/fast",rfl,by decide⟩,rfl,rfl⟩

theorem failed_update_retried :
    (recover lunDatabase (attemptWith (.failed .eio) .ok .ok)).2 = some (.wrap "rollback" (.errno .eio)) ∧
      Settled (recover lunDatabase (attemptWith .ok .ok .ok)).1 1 copiedLUN "fast" := by
  have first : Guarded step (PinsFollow 1) lunDatabase [attemptWith (.failed .eio) .ok .ok] :=
    ⟨lunDatabase_pinsFollow fun wrong => absurd wrong (by decide),fun _ _ => trivial⟩
  have second := lunDatabase_pinsFollow fun _ => rfl
  exact ⟨by decide +kernel,recovery_retried_settles lunDatabase lunDatabase [attemptWith (.failed .eio) .ok .ok] _ 1 first rfl
    second (by decide +kernel) copiedLUN "fast" rfl rfl⟩

/-- The next run does not see the row any more and returns nil. -/
theorem failed_pin_forgotten :
    (recover lunDatabase (attemptWith .ok .ok (.failed .eio))).2 = some (.wrap "set trusted.smoothfs.lun" (.errno .eio)) ∧
      (recover (recover lunDatabase (attemptWith .ok .ok (.failed .eio))).1 (attemptWith .ok .ok .ok)).2 = none ∧
      (recover (recover lunDatabase (attemptWith .ok .ok (.failed .eio))).1 (attemptWith .ok .ok .ok)).1.pinned = [] ∧
      ¬ Settled (recover (recover lunDatabase (attemptWith .ok .ok (.failed .eio))).1 (attemptWith .ok .ok .ok)).1 1 copiedLUN "fast" := by
  have unpinned : (recover (recover lunDatabase (attemptWith .ok .ok (.failed .eio))).1 (attemptWith .ok .ok .ok)).1.pinned = [] := by
    decide +kernel
  refine ⟨by decide +kernel,by decide +kernel,unpinned,?_⟩
  intro settled
  obtain ⟨lower,_,member⟩ := settled.2 rfl
  rw [unpinned] at member
  exact absurd member List.not_mem_nil

end Smoothfs.OfflineRecovery
