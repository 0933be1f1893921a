import Mathlib.Tactic.Ring
import Smoothfs.Library.Content

/-! Lists of half-open ranges that neither overlap nor touch, and the content
that they lay over another one. -/
namespace Smoothfs.Extents

open Content

structure Extent where
  start : Nat
  stop : Nat
  deriving DecidableEq, Repr

def Extent.holds (extent : Extent) (index : Nat) : Bool :=
  extent.start ≤ index ∧ index < extent.stop

def covers (extents : List Extent) (index : Nat) : Bool :=
  extents.any (·.holds index)

def bound (extents : List Extent) : Nat :=
  (extents.getLast?.map Extent.stop).getD 0

def total (extents : List Extent) : Nat :=
  (extents.map (fun extent => extent.stop - extent.start)).sum

/-- Adds a range; those that overlap or touch it are merged into it. -/
def add (start stop : Nat) : List Extent → List Extent
  | [] => [⟨start,stop⟩]
  | extent::rest =>
    if stop < extent.start then ⟨start,stop⟩::extent::rest
    else if extent.stop < start then extent::add start stop rest
    else add (min start extent.start) (max stop extent.stop) rest

/-- Ascending, with a gap between any two, and none of them empty. -/
structure Separated (extents : List Extent) : Prop where
  ordered : extents.Pairwise (fun first second => first.stop < second.start)
  proper : ∀ extent ∈ extents, extent.start < extent.stop

variable (extent : Extent) (index : Nat)

theorem holds_iff : extent.holds index = true ↔ extent.start ≤ index ∧ index < extent.stop := by
  simp [Extent.holds]

variable (extents : List Extent)

theorem covers_iff (index : Nat) :
    covers extents index = true ↔ ∃ extent ∈ extents, extent.start ≤ index ∧ index < extent.stop := by
  simp [covers,holds_iff]

@[simp] theorem covers_nil : covers [] index = false := rfl

variable (rest : List Extent)

theorem covers_cons (index : Nat) : covers (extent::rest) index = (extent.holds index || covers rest index) := rfl

theorem separated_nil : Separated [] :=
  ⟨List.Pairwise.nil,by simp⟩

theorem separated_cons : Separated (extent::rest) ↔
      extent.start < extent.stop ∧ (∀ other ∈ rest, extent.stop < other.start) ∧ Separated rest := by
  constructor
  · intro separated
    obtain ⟨gap,ordered⟩ := List.pairwise_cons.mp separated.ordered
    exact ⟨separated.proper extent List.mem_cons_self,gap,ordered,
      fun other member => separated.proper other (List.mem_cons_of_mem _ member)⟩
  · rintro ⟨proper,gap,separated⟩
    refine ⟨List.pairwise_cons.mpr ⟨gap,separated.ordered⟩,?_⟩
    intro other member
    rcases List.mem_cons.mp member with rfl | member
    · exact proper
    · exact separated.proper other member

theorem covers_add (proper : ∀ extent ∈ extents, extent.start < extent.stop) (start stop index : Nat)
    (nonempty : start < stop) :
    covers (add start stop extents) index = (covers extents index || (Extent.mk start stop).holds index) := by
  induction extents generalizing start stop with
  | nil => simp [add,covers]
  | cons extent rest ih =>
    have later := ih fun other member => proper other (List.mem_cons_of_mem _ member)
    unfold add
    split
    · rw [covers_cons,Bool.or_comm]
    split
    · rw [covers_cons,covers_cons,later start stop nonempty,Bool.or_assoc]
    rw [later _ _ (by omega),covers_cons]
    -- the ranges touch, so what lies between the smaller start and the larger stop is in one of the two
    have merged : (Extent.mk (min start extent.start) (max stop extent.stop)).holds index =
        (extent.holds index || (Extent.mk start stop).holds index) := by
      rw [Bool.eq_iff_iff,Bool.or_eq_true,holds_iff,holds_iff,holds_iff]
      dsimp only
      omega
    rw [merged,Bool.or_comm (covers rest index),Bool.or_assoc,Bool.or_assoc,
      Bool.or_comm (covers rest index)]

theorem before_add (limit start stop : Nat) (gap : ∀ extent ∈ extents, limit < extent.start)
    (behind : limit < start) : ∀ extent ∈ add start stop extents, limit < extent.start := by
  induction extents generalizing start stop with
  | nil => simpa [add] using behind
  | cons extent rest ih =>
    have own := gap extent List.mem_cons_self
    have later := fun start stop => ih start stop (fun other member => gap other (List.mem_cons_of_mem _ member))
    unfold add
    split
    · intro other member
      rcases List.mem_cons.mp member with rfl | member
      · exact behind
      · exact gap other member
    · split
      · intro other member
        rcases List.mem_cons.mp member with rfl | member
        · exact own
        · exact later start stop behind other member
      · exact later _ _ (by omega)

theorem separated_add (separated : Separated extents) (start stop : Nat) (nonempty : start < stop) :
    Separated (add start stop extents) := by
  induction extents generalizing start stop with
  | nil => exact (separated_cons _ _).mpr ⟨nonempty,by simp,separated_nil⟩
  | cons extent rest ih =>
    obtain ⟨proper,gap,later⟩ := (separated_cons _ _).mp separated
    unfold add
    split
    · next ahead =>
      refine (separated_cons _ _).mpr ⟨nonempty,?_,separated⟩
      intro other member
      rcases List.mem_cons.mp member with rfl | member
      · exact ahead
      · have := gap other member
        dsimp only
        omega
    · split
      · next behind =>
        exact (separated_cons _ _).mpr ⟨proper,before_add rest _ _ _ gap behind,ih later start stop nonempty⟩
      · exact ih later _ _ (by omega)

theorem bound_cons (separated : Separated (extent::rest)) : bound (extent::rest) = max extent.stop (bound rest) := by
  obtain ⟨_,gap,later⟩ := (separated_cons _ _).mp separated
  unfold bound
  rw [List.getLast?_cons]
  cases last : rest.getLast? with
  | none => simp
  | some final =>
    have member := List.mem_of_getLast? last
    have ahead := gap final member
    have proper := later.proper final member
    simp
    omega

theorem bound_add (separated : Separated extents) (start stop : Nat) (nonempty : start < stop) :
    bound (add start stop extents) = max (bound extents) stop := by
  induction extents generalizing start stop with
  | nil => simp [add,bound]
  | cons extent rest ih =>
    obtain ⟨proper,gap,later⟩ := (separated_cons _ _).mp separated
    have whole := bound_cons extent rest separated
    have grown := separated_add (extent::rest) separated start stop nonempty
    unfold add at grown ⊢
    split
    · next ahead =>
      rw [if_pos ahead] at grown
      rw [bound_cons _ _ grown,Nat.max_comm]
    next reached =>
    rw [if_neg reached] at grown
    split
    · next behind =>
      rw [if_pos behind] at grown
      rw [bound_cons _ _ grown,ih later start stop nonempty]
      omega
    · rw [ih later _ _ (by omega)]
      omega

theorem covers_lt_bound (separated : Separated extents) (index : Nat)
    (covered : covers extents index = true) : index < bound extents := by
  induction extents with
  | nil => simp at covered
  | cons extent rest ih =>
    rw [bound_cons extent rest separated]
    rw [covers_cons,Bool.or_eq_true] at covered
    rcases covered with own | later
    · have := (holds_iff _ _).mp own
      omega
    · have := ih ((separated_cons _ _).mp separated).2.2 later
      omega

theorem covers_past {extent : Extent} (separated : Separated (extent::rest)) {limit index : Nat}
    (past : limit ≤ extent.start) (before : index < limit) : covers (extent::rest) index = false := by
  obtain ⟨proper,gap,_⟩ := (separated_cons _ _).mp separated
  rw [← Bool.not_eq_true,covers_iff]
  rintro ⟨other,member,behind,_⟩
  rcases List.mem_cons.mp member with rfl | later
  · omega
  · have := gap other later
    omega

theorem total_cons : total (extent::rest) = extent.stop - extent.start + total rest := by
  simp [total]

section Overlay

variable {α : Type} [Zero α]

def overlay (extents : List Extent) (upper base : List α) (index : Nat) : α :=
  if covers extents index then fetch upper index else fetch base index

structure Copied (extents : List Extent) (upper base after : List α) : Prop where
  grown : base.length ≤ after.length
  limit : after.length ≤ max base.length (bound extents)
  bytes : ∀ index, fetch after index = fetch base index ∨ covers extents index = true ∧ fetch after index = fetch upper index

structure Settled (extents : List Extent) (upper base after : List α) : Prop where
  size : after.length = max base.length (bound extents)
  bytes : ∀ index, fetch after index = overlay extents upper base index

theorem Copied.overlay {extents : List Extent} {upper base after : List α} (copied : Copied extents upper base after) (index : Nat) :
    overlay extents upper after index = overlay extents upper base index := by
  unfold Extents.overlay
  split
  · rfl
  next outside =>
  rcases copied.bytes index with same | ⟨inside,_⟩
  · exact same
  · exact absurd inside outside

theorem overlay_write {extents : List Extent} (proper : ∀ extent ∈ extents, extent.start < extent.stop) (upper base : List α)
    (pos : Nat) {data : List α} (nonempty : data ≠ []) (index : Nat) :
    overlay (add pos (pos + data.length) extents) (write upper pos data) base index =
      if pos ≤ index ∧ index < pos + data.length then fetch data (index - pos) else overlay extents upper base index := by
  have length := List.length_pos_iff.mpr nonempty
  unfold overlay
  rw [covers_add extents proper pos (pos + data.length) index (by omega),fetch_write]
  by_cases inside : pos ≤ index ∧ index < pos + data.length
  · have held := (holds_iff ⟨pos,pos + data.length⟩ index).mpr inside
    rw [held,Bool.or_true,if_pos rfl,if_pos inside,if_pos inside]
  have apart : (Extent.mk pos (pos + data.length)).holds index = false := by
    rw [← Bool.not_eq_true,holds_iff]
    exact inside
  rw [apart,Bool.or_false,if_neg inside,if_neg inside]

end Overlay

end Smoothfs.Extents
