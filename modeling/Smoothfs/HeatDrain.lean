import Mathlib.Logic.Function.Basic
import Smoothfs.World
import Smoothfs.Library.Run

/-! The heat samples of a pool. Every inode counts opens and bytes, and a drain sends
the difference to what it has sent before. The memory of an inode comes from a
slab, which does not clear it. -/
namespace Smoothfs.HeatDrain

open Run Function

inductive Kind
  | opens | readBytes | writeBytes
  deriving DecidableEq, Repr

def Kind.modulus : Kind → Nat
  | .opens => 0x100000000
  | .readBytes | .writeBytes => 0x10000000000000000

structure Counters where
  opens : Nat
  readBytes : Nat
  writeBytes : Nat
  deriving DecidableEq, Repr

def Counters.get (counters : Counters) : Kind → Nat
  | .opens => counters.opens
  | .readBytes => counters.readBytes
  | .writeBytes => counters.writeBytes

def Counters.tabulate (value : Kind → Nat) : Counters := ⟨value .opens,value .readBytes,value .writeBytes⟩

@[simp] theorem Counters.get_tabulate (value : Kind → Nat) (kind : Kind) : (Counters.tabulate value).get kind = value kind := by
  cases kind <;> rfl

def Counters.plus (counters : Counters) (moved : Kind) (amount : Nat) : Counters :=
  .tabulate fun kind => if kind = moved then counters.get kind + amount else counters.get kind

def Counters.advance (counters : Counters) (moved : Kind) (amount : Nat) : Counters :=
  .tabulate fun kind => if kind = moved then (counters.get kind + amount) % kind.modulus else counters.get kind

def Counters.minus (counters before : Counters) : Counters :=
  .tabulate fun kind => (counters.get kind + (kind.modulus - before.get kind % kind.modulus)) % kind.modulus

/-- `files` are the files that are open on the inode, and `released` says that one was closed. -/
structure Inode where
  oid : Oid
  dir : Bool
  files : Nat
  counters : Counters
  drained : Counters
  lastAccessNs : Nat
  lastDrainNs : Nat
  released : Bool
  deriving DecidableEq, Repr

structure Record where
  oid : Oid
  delta : Counters
  lastAccessNs : Nat
  sampleWindowNs : Nat
  deriving DecidableEq, Repr

/-- `total` is what was done on an object, `atDrain` what was when its last record was made. -/
structure State where
  inodes : List Inode
  freed : List Inode
  emitted : List Record
  total : Oid → Counters
  atDrain : Oid → Counters

inductive Memory
  | unused (drained : Counters) (lastDrainNs : Nat)
  | freed (index : Nat)
  deriving DecidableEq, Repr

inductive Label
  | alloc (oid : Oid) (dir : Bool) (memory : Memory)
  | opens (oid : Oid)
  | closes (oid : Oid)
  | reads (oid : Oid) (count now : Nat)
  | writes (oid : Oid) (count now : Nat)
  | evict (oid : Oid)
  | drain (now : Nat)
  deriving DecidableEq, Repr

def heatBatchMax : Nat := 256

def State.contents (state : State) : Memory → Option (Counters × Nat)
  | .unused drained lastDrainNs => some (drained,lastDrainNs)
  | .freed index => state.freed[index]?.map fun old => (old.drained,old.lastDrainNs)

def State.remaining (state : State) : Memory → List Inode
  | .unused _ _ => state.freed
  | .freed index => state.freed.eraseIdx index

/-- The counters are cleared, the snapshots are not. -/
def allocInode (oid : Oid) (dir : Bool) (drained : Counters) (lastDrainNs : Nat) : Inode :=
  ⟨oid,dir,0,⟨0,0,0⟩,drained,0,lastDrainNs,false⟩

def State.modify (state : State) (oid : Oid) (change : Inode → Inode) : State :=
  {state with inodes := state.inodes.map fun inode => if inode.oid = oid then change inode else inode}

def Inode.count (moved : Kind) (amount files : Nat) (access : Option Nat) (inode : Inode) : Inode :=
  {inode with
    files := inode.files + files
    counters := inode.counters.advance moved amount
    lastAccessNs := access.getD inode.lastAccessNs}

def State.use (state : State) (oid : Oid) (moved : Kind) (amount files : Nat) (access : Option Nat) : Option State :=
  if oid ∈ state.inodes.map (·.oid) then
    some {state.modify oid (Inode.count moved amount files access) with
      total := update state.total oid ((state.total oid).plus moved amount)}
  else none

def Inode.changed (inode : Inode) : Bool := inode.counters ≠ inode.drained

def Inode.sample (now : Nat) (inode : Inode) : Record :=
  ⟨inode.oid,inode.counters.minus inode.drained,inode.lastAccessNs,(now + 0x10000000000000000 - inode.lastDrainNs % 0x10000000000000000) %
    0x10000000000000000⟩

def Inode.snapshot (now : Nat) (inode : Inode) : Inode := {inode with drained := inode.counters, lastDrainNs := now}

def heatCollect (now : Nat) : Nat → List Inode → List Inode × List Record
  | 0, inodes => (inodes,[])
  | _, [] => ([],[])
  | max+1, inode::rest =>
    if inode.changed then
      let (inodes,records) := heatCollect now max rest
      (inode.snapshot now::inodes,inode.sample now::records)
    else
      let (inodes,records) := heatCollect now (max + 1) rest
      (inode::inodes,records)

def State.drainedAt (state : State) (records : List Record) (oid : Oid) : Counters :=
  if oid ∈ records.map (·.oid) then state.total oid else state.atDrain oid

def Inode.release (inode : Inode) : Inode :=
  if inode.dir then {inode with files := inode.files - 1}
  else {inode with files := inode.files - 1, released := true, counters := inode.counters.advance .opens (Kind.opens.modulus - 1)}

def step (state : State) : Label → Option State
  | .alloc oid dir memory =>
    if oid ∈ state.inodes.map (·.oid) then none
    else (state.contents memory).map fun contents => {state with
      inodes := allocInode oid dir contents.1 contents.2::state.inodes
      freed := state.remaining memory}
  | .opens oid => state.use oid .opens 1 1 none
  | .closes oid => if state.inodes.any fun inode => inode.oid = oid ∧ 0 < inode.files then some (state.modify oid Inode.release) else none
  | .reads oid count now => state.use oid .readBytes count 0 (if count = 0 then none else some now)
  | .writes oid count now => state.use oid .writeBytes count 0 (if count = 0 then none else some now)
  | .evict oid =>
    if state.inodes.any fun inode => inode.oid = oid ∧ inode.files = 0 then
      some {state with
        inodes := state.inodes.filter (·.oid ≠ oid)
        freed := state.inodes.filter (·.oid = oid) ++ state.freed}
    else none
  | .drain now =>
    let (inodes,records) := heatCollect now heatBatchMax state.inodes
    some {state with
      inodes := inodes
      emitted := state.emitted ++ records
      atDrain := state.drainedAt records}

def emittedFor (records : List Record) (oid : Oid) (kind : Kind) : Nat :=
  ((records.filter (·.oid = oid)).map (·.delta.get kind)).foldr (· + ·) 0

def State.Fits (kind : Kind) (state : State) (oid : Oid) (moved : Kind) (amount : Nat) : Prop :=
  kind = moved → ∀ inode ∈ state.inodes, inode.oid = oid → inode.counters.get kind + amount < kind.modulus

/-- Memory for an inode comes with a snapshot of zero, no counter overflows, an inode is evicted
only when all of its heat is in a record, and none with opens to report was closed. -/
def Sound (kind : Kind) (state : State) : Label → Prop
  | .alloc _ _ memory => (state.contents memory).all (fun contents => contents.1.get kind = 0) = true
  | .opens oid => state.Fits kind oid .opens 1
  | .closes _ => True
  | .reads oid count _ => state.Fits kind oid .readBytes count
  | .writes oid count _ => state.Fits kind oid .writeBytes count
  | .evict oid => (state.total oid).get kind = (state.atDrain oid).get kind
  | .drain _ => kind = .opens → ∀ inode ∈ state.inodes, inode.changed = true → inode.released = false

instance (kind : Kind) (state : State) (oid : Oid) (moved : Kind) (amount : Nat) : Decidable (state.Fits kind oid moved amount) :=
  inferInstanceAs (Decidable (kind = moved → ∀ inode ∈ state.inodes, inode.oid = oid → inode.counters.get kind + amount < kind.modulus))

instance (kind : Kind) (state : State) : (label : Label) → Decidable (Sound kind state label)
  | .alloc _ _ memory => inferInstanceAs (Decidable ((state.contents memory).all (fun contents => contents.1.get kind = 0) = true))
  | .opens oid => inferInstanceAs (Decidable (state.Fits kind oid .opens 1))
  | .closes _ => isTrue trivial
  | .reads oid count _ => inferInstanceAs (Decidable (state.Fits kind oid .readBytes count))
  | .writes oid count _ => inferInstanceAs (Decidable (state.Fits kind oid .writeBytes count))
  | .evict oid => inferInstanceAs (Decidable ((state.total oid).get kind = (state.atDrain oid).get kind))
  | .drain _ => inferInstanceAs (Decidable (kind = .opens → ∀ inode ∈ state.inodes, inode.changed = true → inode.released = false))

def Accounted (kind : Kind) (total atDrain : Counters) (inode : Inode) : Prop :=
  (kind = .opens → inode.released = false) →
    inode.drained.get kind ≤ inode.counters.get kind ∧ inode.counters.get kind < kind.modulus ∧
      total.get kind + inode.drained.get kind = atDrain.get kind + inode.counters.get kind

structure Conserved (kind : Kind) (state : State) : Prop where
  sums : ∀ oid, emittedFor state.emitted oid kind = (state.atDrain oid).get kind
  distinct : (state.inodes.map (·.oid)).Nodup
  inside : ∀ inode ∈ state.inodes, Accounted kind (state.total inode.oid) (state.atDrain inode.oid) inode
  outside : ∀ oid, oid ∉ state.inodes.map (·.oid) → (state.total oid).get kind = (state.atDrain oid).get kind

theorem Kind.modulus_pos (kind : Kind) : 0 < kind.modulus := by
  cases kind <;> decide

theorem Counters.get_minus_of_le (counters before : Counters) (kind : Kind) (ordered : before.get kind ≤ counters.get kind)
    (small : counters.get kind < kind.modulus) : (counters.minus before).get kind = counters.get kind - before.get kind := by
  have reduced : before.get kind % kind.modulus = before.get kind := Nat.mod_eq_of_lt (by omega)
  rw [Counters.minus,Counters.get_tabulate,reduced,
    show counters.get kind + (kind.modulus - before.get kind) = counters.get kind - before.get kind + kind.modulus by omega,
    Nat.add_mod_right,Nat.mod_eq_of_lt (by omega)]

section Modify

variable {state : State} {oid : Oid} {change : Inode → Inode}

theorem modify_oids (keeps : ∀ inode, (change inode).oid = inode.oid) :
    (state.modify oid change).inodes.map (·.oid) = state.inodes.map (·.oid) := by
  rw [State.modify,List.map_map]
  apply List.map_congr_left
  intro inode _
  dsimp only [comp]
  split
  · exact keeps inode
  · rfl

theorem mem_modify {inode : Inode} (member : inode ∈ (state.modify oid change).inodes) :
    (∃ before ∈ state.inodes, before.oid = oid ∧ inode = change before) ∨ inode ∈ state.inodes ∧ inode.oid ≠ oid := by
  obtain ⟨before,there,same⟩ := List.mem_map.mp member
  split at same
  · next named => exact .inl ⟨before,there,named,same.symm⟩
  · next other =>
    subst same
    exact .inr ⟨there,other⟩

end Modify

variable {kind : Kind}

theorem Conserved.use {moved : Kind} {state after : State} {oid : Oid} {amount files : Nat} {access : Option Nat}
    (conserved : Conserved kind state) (fits : state.Fits kind oid moved amount)
    (used : state.use oid moved amount files access = some after) :
    Conserved kind after := by
  unfold State.use at used
  split at used
  swap
  · cases used
  next present =>
  cases used
  have oids : (state.modify oid (Inode.count moved amount files access)).inodes.map (·.oid) = state.inodes.map (·.oid) :=
    modify_oids fun _ => rfl
  refine ⟨conserved.sums,by rw [oids]; exact conserved.distinct,?_,?_⟩
  · intro inode member
    dsimp only
    rcases mem_modify member with ⟨before,there,named,rfl⟩ | ⟨there,other⟩
    · subst named
      have known := conserved.inside before there
      have room : kind = moved → before.counters.get kind + amount < kind.modulus := fun same => fits same before there rfl
      intro unreleased
      obtain ⟨ordered,small,balance⟩ := known unreleased
      rw [show (before.count moved amount files access).oid = before.oid from rfl,update_self]
      simp only [State.modify,Inode.count,Counters.plus,Counters.advance,Counters.get_tabulate]
      by_cases same : kind = moved
      · have small := room same
        simp only [if_pos same,Nat.mod_eq_of_lt small]
        omega
      · simp only [if_neg same]
        exact ⟨ordered,small,balance⟩
    · rw [update_of_ne other]
      exact conserved.inside inode there
  · intro other absent
    rw [oids] at absent
    have different : other ≠ oid := by
      rintro rfl
      exact absent present
    dsimp only
    rw [update_of_ne different]
    exact conserved.outside other absent

theorem Conserved.alloc {state : State} (conserved : Conserved kind state) (oid : Oid) (dir : Bool) (contents : Counters × Nat)
    (freed : List Inode) (absent : oid ∉ state.inodes.map (·.oid)) (clear : contents.1.get kind = 0) :
    Conserved kind {state with inodes := allocInode oid dir contents.1 contents.2::state.inodes, freed := freed} := by
  refine ⟨conserved.sums,List.nodup_cons.mpr ⟨absent,conserved.distinct⟩,?_,?_⟩
  · intro inode member
    rcases List.mem_cons.mp member with rfl | there
    · intro _
      have zero : (⟨0,0,0⟩ : Counters).get kind = 0 := by cases kind <;> rfl
      have balance := conserved.outside oid absent
      have positive := kind.modulus_pos
      simp only [allocInode]
      omega
    · exact conserved.inside inode there
  · intro other elsewhere
    exact conserved.outside other fun there => elsewhere (List.mem_cons_of_mem _ there)

theorem Conserved.close {state : State} (conserved : Conserved kind state) (oid : Oid) :
    Conserved kind (state.modify oid Inode.release) := by
  have keeps : ∀ inode : Inode, inode.release.oid = inode.oid := by
    intro inode
    unfold Inode.release
    split <;> rfl
  refine ⟨conserved.sums,by rw [modify_oids keeps]; exact conserved.distinct,?_,fun other absent => conserved.outside other ?_⟩
  · intro inode member
    rcases mem_modify member with ⟨before,there,_,rfl⟩ | ⟨there,_⟩
    · have known := conserved.inside before there
      change Accounted kind (state.total before.release.oid) (state.atDrain before.release.oid) before.release
      unfold Inode.release
      split
      · exact known
      intro unreleased
      have bytes : kind ≠ .opens := fun same => absurd (unreleased same) (by simp)
      simp only [Counters.advance,Counters.get_tabulate,if_neg bytes]
      exact known fun same => absurd same bytes
    · exact conserved.inside inode there
  · rwa [modify_oids keeps] at absent

theorem Conserved.evict {state : State} (conserved : Conserved kind state) (oid : Oid) (freed : List Inode)
    (settled : (state.total oid).get kind = (state.atDrain oid).get kind) :
    Conserved kind {state with inodes := state.inodes.filter (·.oid ≠ oid), freed := freed} := by
  refine ⟨conserved.sums,conserved.distinct.sublist (List.filter_sublist.map _),?_,?_⟩
  · intro inode member
    exact conserved.inside inode (List.mem_of_mem_filter member)
  · intro other absent
    by_cases same : other = oid
    · subst same
      exact settled
    refine conserved.outside other ?_
    intro there
    obtain ⟨inode,member,rfl⟩ := List.mem_map.mp there
    exact absent (List.mem_map.mpr ⟨inode,List.mem_filter.mpr ⟨member,by simpa using same⟩,rfl⟩)

variable {records : List Record}

section Collect

variable (now : Nat)

theorem heatCollect_oids (max : Nat) (inodes : List Inode) : (heatCollect now max inodes).1.map (·.oid) = inodes.map (·.oid) := by
  induction inodes generalizing max with
  | nil => cases max <;> rfl
  | cons inode rest ih =>
    cases max with
    | zero => rfl
    | succ max =>
      unfold heatCollect
      split
      · exact congrArg (inode.oid::·) (ih max)
      · exact congrArg (inode.oid::·) (ih (max + 1))

theorem heatCollect_records (max : Nat) (inodes : List Inode) (record : Record) (member : record ∈ (heatCollect now max inodes).2) :
    record.oid ∈ inodes.map (·.oid) := by
  induction inodes generalizing max with
  | nil => cases max <;> exact absurd member List.not_mem_nil
  | cons inode rest ih =>
    cases max with
    | zero => exact absurd member List.not_mem_nil
    | succ max =>
      unfold heatCollect at member
      split at member
      · rcases List.mem_cons.mp member with rfl | later
        · exact List.mem_cons_self
        · exact List.mem_cons_of_mem _ (ih max later)
      · exact List.mem_cons_of_mem _ (ih (max + 1) member)

inductive Visited (inodes : List Inode) (records : List Record) (after : Inode) : Prop
  | alone (there : after ∈ inodes) (silent : records.filter (·.oid = after.oid) = [])
  | drained (inode : Inode) (there : inode ∈ inodes) (changed : inode.changed = true) (same : after = inode.snapshot now)
      (single : records.filter (·.oid = inode.oid) = [inode.sample now])

theorem filter_records_of_absent {max : Nat} {inodes : List Inode} {oid : Oid} (absent : oid ∉ inodes.map (·.oid)) :
    (heatCollect now max inodes).2.filter (·.oid = oid) = [] := by
  rw [List.filter_eq_nil_iff]
  intro record member named
  have same : record.oid = oid := of_decide_eq_true named
  exact absent (same ▸ heatCollect_records now max inodes record member)

theorem filter_sample_cons {inode : Inode} {rest : List Inode} {oid : Oid} (fresh : inode.oid ∉ rest.map (·.oid))
    (later : oid ∈ rest.map (·.oid)) :
    (inode.sample now::records).filter (·.oid = oid) = records.filter (·.oid = oid) := by
  apply List.filter_cons_of_neg
  intro named
  have same : inode.oid = oid := of_decide_eq_true named
  rw [same] at fresh
  exact fresh later

theorem heatCollect_visited {max : Nat} {inodes : List Inode} (distinct : (inodes.map (·.oid)).Nodup) (after : Inode)
    (member : after ∈ (heatCollect now max inodes).1) : Visited now inodes (heatCollect now max inodes).2 after := by
  induction inodes generalizing max with
  | nil => cases max <;> exact absurd member List.not_mem_nil
  | cons inode rest ih =>
    obtain ⟨fresh,distinct⟩ := List.nodup_cons.mp distinct
    cases max with
    | zero => exact .alone member rfl
    | succ max =>
      unfold heatCollect at member ⊢
      by_cases moved : inode.changed = true
      · rw [if_pos moved] at member ⊢
        rcases List.mem_cons.mp member with rfl | later
        · refine .drained inode List.mem_cons_self moved rfl ?_
          rw [List.filter_cons_of_pos (by simp [Inode.sample]),filter_records_of_absent now fresh]
        cases ih distinct later with
        | alone there silent =>
          exact .alone (List.mem_cons_of_mem _ there) ((filter_sample_cons now fresh (List.mem_map_of_mem there)).trans silent)
        | drained source there changed same single =>
          exact .drained source (List.mem_cons_of_mem _ there) changed same
            ((filter_sample_cons now fresh (List.mem_map_of_mem there)).trans single)
      · rw [if_neg moved] at member ⊢
        rcases List.mem_cons.mp member with rfl | later
        · exact .alone List.mem_cons_self (filter_records_of_absent now fresh)
        · cases ih distinct later with
          | alone there silent => exact .alone (List.mem_cons_of_mem _ there) silent
          | drained source there changed same single => exact .drained source (List.mem_cons_of_mem _ there) changed same single

end Collect

theorem emittedFor_append (first second : List Record) (oid : Oid) (kind : Kind) :
    emittedFor (first ++ second) oid kind = emittedFor first oid kind + emittedFor second oid kind := by
  unfold emittedFor
  rw [List.filter_append,List.map_append]
  induction (first.filter (·.oid = oid)).map (·.delta.get kind) with
  | nil => simp
  | cons delta rest ih =>
    simp only [List.cons_append,List.foldr_cons]
    omega

theorem mem_oids_iff (records : List Record) (oid : Oid) : oid ∈ records.map (·.oid) ↔ records.filter (·.oid = oid) ≠ [] := by
  rw [Ne,List.filter_eq_nil_iff]
  constructor
  · intro member silent
    obtain ⟨record,there,rfl⟩ := List.mem_map.mp member
    exact silent record there (by simp)
  · intro found
    simp only [decide_eq_true_eq,not_forall,not_not] at found
    obtain ⟨record,there,same⟩ := found
    exact List.mem_map.mpr ⟨record,there,same⟩

theorem drainedAt_of_silent (state : State) {oid : Oid} (silent : records.filter (·.oid = oid) = []) :
    state.drainedAt records oid = state.atDrain oid :=
  if_neg fun there => (mem_oids_iff records oid).mp there silent

theorem drainedAt_of_single (state : State) {oid : Oid} {record : Record}
    (single : records.filter (·.oid = oid) = [record]) : state.drainedAt records oid = state.total oid :=
  if_pos ((mem_oids_iff records oid).mpr (by simp [single]))

theorem Conserved.drain {state : State} (conserved : Conserved kind state) (now : Nat)
    (unreleased : kind = .opens → ∀ inode ∈ state.inodes, inode.changed = true → inode.released = false) :
    Conserved kind {state with
      inodes := (heatCollect now heatBatchMax state.inodes).1
      emitted := state.emitted ++ (heatCollect now heatBatchMax state.inodes).2
      atDrain := state.drainedAt (heatCollect now heatBatchMax state.inodes).2} := by
  have oids := heatCollect_oids now heatBatchMax state.inodes
  have visited := @heatCollect_visited now heatBatchMax state.inodes conserved.distinct
  have absent := @filter_records_of_absent now heatBatchMax state.inodes
  generalize heatCollect now heatBatchMax state.inodes = result at oids visited absent ⊢
  have silent : ∀ oid, result.2.filter (·.oid = oid) = [] →
      emittedFor (state.emitted ++ result.2) oid kind = (state.drainedAt result.2 oid).get kind := by
    intro oid none_
    rw [emittedFor_append,conserved.sums oid,drainedAt_of_silent state none_,emittedFor,none_]
    rfl
  refine ⟨?_,by rw [oids]; exact conserved.distinct,?_,?_⟩
  · intro oid
    by_cases there : oid ∈ state.inodes.map (·.oid)
    · rw [← oids] at there
      obtain ⟨after,member,rfl⟩ := List.mem_map.mp there
      cases visited after member with
      | alone _ none_ => exact silent _ none_
      | drained inode known changed same single =>
        subst same
        obtain ⟨ordered,small,balance⟩ := conserved.inside inode known fun opens => unreleased opens inode known changed
        have delta : emittedFor result.2 inode.oid kind = inode.counters.get kind - inode.drained.get kind := by
          rw [emittedFor,single]
          exact Counters.get_minus_of_le _ _ _ ordered small
        change emittedFor (state.emitted ++ result.2) inode.oid kind = (state.drainedAt result.2 inode.oid).get kind
        rw [emittedFor_append,conserved.sums,drainedAt_of_single state single]
        omega
    · exact silent oid (absent there)
  · intro after member
    dsimp only
    cases visited after member with
    | alone there none_ =>
      rw [drainedAt_of_silent state none_]
      exact conserved.inside after there
    | drained inode known changed same single =>
      subst same
      rw [show (inode.snapshot now).oid = inode.oid from rfl,drainedAt_of_single state single]
      intro free
      exact ⟨Nat.le_refl _,(conserved.inside inode known free).2.1,rfl⟩
  · intro oid elsewhere
    rw [oids] at elsewhere
    dsimp only
    rw [drainedAt_of_silent state (absent elsewhere)]
    exact conserved.outside oid elsewhere

theorem Conserved.step {state after : State} {label : Label} (conserved : Conserved kind state) (sound : Sound kind state label)
    (taken : step state label = some after) : Conserved kind after := by
  cases label with
  | alloc oid dir memory =>
    rw [HeatDrain.step] at taken
    split at taken
    · cases taken
    next absent =>
    obtain ⟨contents,known,rfl⟩ := Option.map_eq_some_iff.mp taken
    simp only [Sound,known,Option.all_some,decide_eq_true_eq] at sound
    exact conserved.alloc oid dir contents _ absent sound
  | opens oid | reads oid count now | writes oid count now => exact conserved.use sound taken
  | closes oid =>
    rw [HeatDrain.step] at taken
    split at taken
    · cases taken
      exact conserved.close oid
    · cases taken
  | evict oid =>
    rw [HeatDrain.step] at taken
    split at taken
    · cases taken
      exact conserved.evict oid _ sound
    · cases taken
  | drain now =>
    cases taken
    exact conserved.drain now sound

def emptyPool : State := ⟨[],[],[],fun _ => ⟨0,0,0⟩,fun _ => ⟨0,0,0⟩⟩

theorem emptyPool_conserved (kind : Kind) : Conserved kind emptyPool :=
  ⟨fun _ => by cases kind <;> rfl,List.nodup_nil,fun _ member => absurd member List.not_mem_nil,fun _ _ => rfl⟩

/-- The deltas of an object add up to what was done on it when its last record was made. -/
theorem heat_conserved (kind : Kind) (labels : List Label) (state : State) (sound : Guarded step (Sound kind) emptyPool labels)
    (reached : run step emptyPool labels = some state) (oid : Oid) :
    emittedFor state.emitted oid kind = (state.atDrain oid).get kind := by
  have conserved : Conserved kind state :=
    invariant step (Sound kind) (Conserved kind) (fun _ _ _ conserved sound taken => conserved.step sound taken) emptyPool state labels
      (emptyPool_conserved kind) sound reached
  exact conserved.sums oid

def reported : List Label :=
  [.alloc 1 false (.unused ⟨0,0,0⟩ 0),.opens 1,.reads 1 100 5,.drain 10,.closes 1,.evict 1,.alloc 1 false (.unused ⟨0,0,0⟩ 0),.opens 1,
    .writes 1 7 15,.drain 20]

theorem reported_conserved : ∃ state, run step emptyPool reported = some state ∧ (state.atDrain 1) = ⟨2,100,7⟩ ∧
    ∀ kind, emittedFor state.emitted 1 kind = (state.atDrain 1).get kind := by
  obtain ⟨state,reached,known⟩ : ∃ state, run step emptyPool reported = some state ∧ state.atDrain 1 = ⟨2,100,7⟩ :=
    reaches (by decide +kernel)
  have sound : ∀ kind, Guarded step (Sound kind) emptyPool reported := by
    intro kind
    cases kind <;> decide +kernel
  exact ⟨state,reached,known,fun kind => heat_conserved kind reported state (sound kind) reached 1⟩

/-- The memory of a drained object is given to another one; and a file is closed between two drains.
-/
theorem heat_not_conserved :
    (∃ state, run step emptyPool [.alloc 1 false (.unused ⟨0,0,0⟩ 0),.opens 1,.reads 1 100 5,.drain 10,.closes 1,.evict 1,
        .alloc 2 false (.freed 0),.drain 20] = some state ∧ state.atDrain 2 = ⟨0,0,0⟩ ∧
      emittedFor state.emitted 2 .opens = 0xffffffff ∧ emittedFor state.emitted 2 .readBytes = 0x10000000000000000 - 100) ∧
    ∃ state, run step emptyPool [.alloc 1 false (.unused ⟨0,0,0⟩ 0),.opens 1,.drain 10,.closes 1,.drain 20] = some state ∧
      state.atDrain 1 = ⟨1,0,0⟩ ∧ emittedFor state.emitted 1 .opens = 0x100000000 :=
  ⟨reaches (by decide +kernel),reaches (by decide +kernel)⟩

end Smoothfs.HeatDrain
