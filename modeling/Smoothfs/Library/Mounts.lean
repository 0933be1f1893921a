import Mathlib.Logic.Relation
import Smoothfs.Library.Tree

/-! File systems mounted on one another, and the two ways a name crosses them: a walk
down from a starting place, and the name a place gets by climbing from it to a root.
Mounts of every namespace stand in one table; a task is in the namespace its root
is in. -/
namespace Smoothfs

namespace Mounts

structure Place (κ : Type) where
  mount : Nat
  path : List κ
  deriving DecidableEq, Repr

/-- What is mounted (a directory of a file system) and where; the first mount of a
namespace is mounted nowhere. -/
structure Mount (κ : Type) where
  volume : Nat
  root : List κ
  parent : Option (Place κ)
  deriving DecidableEq, Repr

structure Context (κ : Type) where
  root : Place κ
  cwd : Place κ
  deriving DecidableEq, Repr

inductive Walk (κ : Type) where
  | reached (place : Place κ)
  | link (dir : Place κ) (absolute : Bool) (target rest : List (Option κ))
  | failed (error : Tree.Error)

end Mounts

structure Mounts (κ α : Type) where
  volumes : Nat → Tree κ α
  table : List (Mounts.Mount κ)

namespace Mounts

variable {κ α : Type} [DecidableEq κ]

def tree (mounts : Mounts κ α) (mount : Nat) : Tree κ α :=
  match mounts.table[mount]? with
  | some shown => mounts.volumes shown.volume
  | none => .empty

def isDir (mounts : Mounts κ α) (place : Place κ) : Bool :=
  (mounts.tree place.mount).isDir place.path

def mountedOn (mounts : Mounts κ α) (place : Place κ) : Option Nat :=
  (List.range mounts.table.length).find? fun mount => (mounts.table[mount]?).any (·.parent = some place)

/-- Through the mounts that stand on a place, at most `fuel` of them. -/
def crossing (mounts : Mounts κ α) : Nat → Place κ → Place κ
  | 0, place => place
  | fuel+1, place =>
    match mounts.mountedOn place with
    | none => place
    | some mount => mounts.crossing fuel ⟨mount,((mounts.table[mount]?).map (·.root)).getD []⟩

def cross (mounts : Mounts κ α) (place : Place κ) : Place κ :=
  mounts.crossing mounts.table.length place

def climbing (mounts : Mounts κ α) (root : Place κ) : Nat → Place κ → Place κ
  | 0, place => place
  | fuel+1, place =>
    if place = root then place
    else
      match mounts.table[place.mount]? with
      | some ⟨_,top,some parent⟩ => if place.path = top then mounts.climbing root fuel parent else place
      | _ => place

def climb (mounts : Mounts κ α) (root place : Place κ) : Place κ :=
  mounts.climbing root mounts.table.length place

/-- The directory a place stands in; `none` at the root, and at the top of a namespace
or of a file system. -/
def above (mounts : Mounts κ α) (root place : Place κ) : Option (κ × Place κ) :=
  let base := mounts.climb root place
  if base = root ∨ (mounts.table[base.mount]?).any (·.root = base.path) then none
  else
    match base.path with
    | [] => none
    | name::up => some (name,⟨base.mount,up⟩)

def descend (mounts : Mounts κ α) (root : Place κ) : Place κ → List (Option κ) → Walk κ
  | place, [] => .reached place
  | place, none::rest =>
    match mounts.above root place with
    | none => mounts.descend root (mounts.cross place) rest
    | some (_,up) => mounts.descend root (mounts.cross up) rest
  | place, some name::rest =>
    match (mounts.tree place.mount).get (name::place.path) with
    | none => .failed (if mounts.isDir place then .missing else .notDirectory)
    | some entry =>
      match entry.kind with
      | .dir => mounts.descend root (mounts.cross ⟨place.mount,name::place.path⟩) rest
      | .symlink absolute target => .link place absolute target rest
      | .leaf =>
        if rest.isEmpty then .reached (mounts.cross ⟨place.mount,name::place.path⟩) else .failed .notDirectory

def follow (mounts : Mounts κ α) (root : Place κ) : Nat → Place κ → List (Option κ) → Except Tree.Error (Place κ)
  | links, place, path =>
    match mounts.descend root place path with
    | .reached found => .ok found
    | .failed error => .error error
    | .link here absolute target rest =>
      match links with
      | 0 => .error .loop
      | fewer+1 => mounts.follow root fewer (if absolute then root else here) (target ++ rest)

/-- The name of a place, climbing to the root or as far as that leads; `none` when it
has more than `fuel` components. -/
def nameOf (mounts : Mounts κ α) (root : Place κ) : Nat → Place κ → Option (List κ)
  | 0, _ => none
  | fuel+1, place =>
    match mounts.above root place with
    | none => some []
    | some (name,up) => (mounts.nameOf root fuel up).map (· ++ [name])

/-- Down through directories. -/
def into (mounts : Mounts κ α) : Place κ → List κ → Option (Place κ)
  | place, [] => some place
  | place, name::rest =>
    if ((mounts.tree place.mount).get (name::place.path)).any Tree.Entry.isDir then
      mounts.into (mounts.cross ⟨place.mount,name::place.path⟩) rest
    else none

def Walk.isLink : Walk κ → Bool
  | .link _ _ _ _ => true
  | _ => false

variable {names : List κ} {up : Place κ}

section Walking

variable {mounts : Mounts κ α} {root other place found : Place κ}

theorem descend_dir {name : κ} (directory : ((mounts.tree up.mount).get (name::up.path)).any Tree.Entry.isDir = true)
    (rest : List (Option κ)) :
    mounts.descend root up (some name::rest) = mounts.descend root (mounts.cross ⟨up.mount,name::up.path⟩) rest := by
  obtain ⟨entry,there,directory⟩ := (Option.any_eq_true _ _).mp directory
  have kind : entry.kind = .dir := by
    unfold Tree.Entry.isDir at directory
    split at directory
    · assumption
    · cases directory
  rw [descend,there]
  simp only [kind]

theorem descend_into (down : mounts.into place names = some found) (rest : List (Option κ)) :
    mounts.descend root place (names.map some ++ rest) = mounts.descend root found rest := by
  induction names generalizing place with
  | nil =>
    cases down
    rfl
  | cons name names ih =>
    unfold into at down
    split at down
    · next directory => exact (descend_dir directory _).trans (ih down)
    · cases down

theorem into_of_reached {below : List κ} (proper : below ≠ [])
    (reached : mounts.descend root place ((names ++ below).map some) = .reached found) :
    ∃ here, mounts.into place names = some here ∧ mounts.descend root here (below.map some) = .reached found := by
  induction names generalizing place with
  | nil => exact ⟨place,rfl,reached⟩
  | cons name names ih =>
    rw [List.cons_append,List.map_cons,descend] at reached
    cases there : (mounts.tree place.mount).get (name::place.path) with
    | none =>
      rw [there] at reached
      cases reached
    | some entry =>
      rw [there] at reached
      dsimp only at reached
      cases kind : entry.kind with
      | dir =>
        rw [kind] at reached
        have directory : ((mounts.tree place.mount).get (name::place.path)).any Tree.Entry.isDir = true := by
          simp [there,Tree.Entry.isDir,kind]
        rw [into,if_pos directory]
        exact ih reached
      | symlink absolute target =>
        rw [kind] at reached
        cases reached
      | leaf =>
        rw [kind] at reached
        simp [proper] at reached

theorem descend_root (names : List κ) :
    mounts.descend root place (names.map some) = mounts.descend other place (names.map some) := by
  induction names generalizing place with
  | nil => rfl
  | cons name rest ih => simp only [List.map_cons,descend,ih]

end Walking

/-- A place of a mount is at the directory that is mounted or below it. -/
def Inside (mounts : Mounts κ α) (place : Place κ) : Prop :=
  ∃ shown, mounts.table[place.mount]? = some shown ∧ shown.root <:+ place.path

def Stands (mounts : Mounts κ α) (place : Place κ) : Prop :=
  place.path = [] ∨ ∃ entry, (mounts.tree place.mount).get place.path = some entry ∧
    ∀ absolute target, entry.kind ≠ .symlink absolute target

/-- Every mount stands on a place of an earlier one, and there is something there that is no link. -/
def Formed (mounts : Mounts κ α) : Prop :=
  ∀ mount shown, mounts.table[mount]? = some shown → ∀ parent, shown.parent = some parent →
    mounts.Inside parent ∧ mounts.Stands parent ∧ parent.mount < mount

def Under (root place : Place κ) : Prop := place.mount = root.mount ∧ root.path <:+ place.path

def Walk.Ends (holds : Place κ → Prop) : Walk κ → Prop
  | .reached place => holds place
  | .link dir _ _ _ => holds dir
  | .failed _ => True

section Staying

variable {mounts : Mounts κ α} {root other place found : Place κ}

variable {holds : Place κ → Prop}

theorem descend_ends (start : holds place) (stay : ∀ place, holds place → holds (mounts.cross place))
    (up : ∀ place name up, holds place → mounts.above root place = some (name,up) → holds (mounts.cross up))
    (down : ∀ place name, holds place → holds (mounts.cross ⟨place.mount,name::place.path⟩)) (path : List (Option κ)) :
    (mounts.descend root place path).Ends holds := by
  induction path generalizing place with
  | nil => exact start
  | cons step rest ih =>
    cases step with
    | none =>
      rw [descend]
      cases above : mounts.above root place with
      | none => exact ih (stay place start)
      | some parent => exact ih (up place parent.1 parent.2 start above)
    | some name =>
      rw [descend]
      cases (mounts.tree place.mount).get (name::place.path) with
      | none => trivial
      | some entry =>
        dsimp only
        cases entry.kind with
        | dir => exact ih (down place name start)
        | symlink absolute target => exact start
        | leaf =>
          cases rest with
          | nil => exact down place name start
          | cons next rest => trivial

variable {links : Nat} {path : List (Option κ)}

theorem follow_ends (top : holds root) (start : holds place) (stay : ∀ place, holds place → holds (mounts.cross place))
    (up : ∀ place name up, holds place → mounts.above root place = some (name,up) → holds (mounts.cross up))
    (down : ∀ place name, holds place → holds (mounts.cross ⟨place.mount,name::place.path⟩))
    (reached : mounts.follow root links place path = .ok found) : holds found := by
  induction links using Nat.strong_induction_on generalizing place path with
  | h links ih =>
    have ends := descend_ends start stay up down path
    unfold follow at reached
    cases walk : mounts.descend root place path with
    | reached ended =>
      rw [walk] at ends reached
      cases reached
      exact ends
    | failed error => rw [walk] at reached; cases reached
    | link here absolute target rest =>
      rw [walk] at ends reached
      cases links with
      | zero => cases reached
      | succ fewer =>
        refine ih fewer (Nat.lt_succ_self _) ?_ reached
        cases absolute with
        | true => exact top
        | false => exact ends

theorem mountedOn_shown {mount : Nat} (on : mounts.mountedOn place = some mount) :
    ∃ shown, mounts.table[mount]? = some shown ∧ shown.parent = some place := by
  have met := List.find?_some on
  obtain ⟨shown,there,same⟩ := (Option.any_eq_true _ _).mp met
  exact ⟨shown,there,of_decide_eq_true same⟩

theorem cross_inside (inside : mounts.Inside place) : mounts.Inside (mounts.cross place) := by
  unfold cross
  generalize mounts.table.length = fuel
  induction fuel generalizing place with
  | zero => exact inside
  | succ fuel ih =>
    rw [crossing]
    cases on : mounts.mountedOn place with
    | none => exact inside
    | some mount =>
      obtain ⟨shown,there,_⟩ := mountedOn_shown on
      apply ih
      rw [there]
      exact ⟨shown,there,List.suffix_refl _⟩

theorem Inside.down (inside : mounts.Inside place) (name : κ) : mounts.Inside (mounts.cross ⟨place.mount,name::place.path⟩) := by
  obtain ⟨shown,there,below⟩ := inside
  exact cross_inside ⟨shown,there,below.trans (List.suffix_cons _ _)⟩

theorem into_inside (inside : mounts.Inside place) (down : mounts.into place names = some found) :
    mounts.Inside found := by
  induction names generalizing place with
  | nil =>
    cases down
    exact inside
  | cons name names ih =>
    unfold into at down
    split at down
    · exact ih (inside.down name) down
    · cases down

theorem climb_inside (formed : mounts.Formed) (root : Place κ) (inside : mounts.Inside place) :
    mounts.Inside (mounts.climb root place) := by
  unfold climb
  generalize mounts.table.length = fuel
  induction fuel generalizing place with
  | zero => exact inside
  | succ fuel ih =>
    rw [climbing]
    split
    · exact inside
    split
    · next shown top parent there =>
      split
      · exact ih (formed _ _ there parent rfl).1
      · exact inside
    · exact inside

variable {name : κ}

theorem above_spec (above : mounts.above root place = some (name,up)) :
    mounts.climb root place = ⟨up.mount,name::up.path⟩ ∧ mounts.climb root place ≠ root ∧
      ∀ shown, mounts.table[up.mount]? = some shown → shown.root ≠ name::up.path := by
  unfold Mounts.above at above
  dsimp only at above
  split at above
  · cases above
  next lower =>
  rw [not_or] at lower
  split at above
  · cases above
  next first rest base =>
  have same : mounts.climb root place = ⟨(mounts.climb root place).mount,first::rest⟩ := by rw [← base]
  cases above
  refine ⟨same,lower.1,fun shown there top => lower.2 ?_⟩
  rw [there,base]
  exact decide_eq_true top

theorem above_inside (formed : mounts.Formed) (inside : mounts.Inside place)
    (above : mounts.above root place = some (name,up)) : mounts.Inside up := by
  obtain ⟨base,_,lower⟩ := above_spec above
  obtain ⟨shown,there,below⟩ := climb_inside formed root inside
  rw [base] at there below
  rcases List.suffix_cons_iff.mp below with top | below
  · exact absurd top (lower shown there)
  · exact ⟨shown,there,below⟩

theorem follow_inside (formed : mounts.Formed) (top : mounts.Inside root) (start : mounts.Inside place)
    (reached : mounts.follow root links place path = .ok found) : mounts.Inside found := by
  refine follow_ends top start (fun _ => cross_inside) (fun place name up inside above => ?_) (fun place name inside => ?_) reached
  · exact cross_inside (above_inside formed inside above)
  · exact inside.down name

theorem cross_bare (bare : mounts.mountedOn place = none) : mounts.cross place = place := by
  unfold cross
  cases mounts.table.length with
  | zero => rfl
  | succ fuel => rw [crossing,bare]

theorem climb_under (inside : mounts.Inside root) (under : Under root place) : mounts.climb root place = place := by
  unfold climb
  cases mounts.table.length with
  | zero => rfl
  | succ fuel =>
    rw [climbing]
    split
    · rfl
    next lower =>
    split
    · next shown top parent there =>
      refine if_neg fun same => lower ?_
      obtain ⟨known,found,below⟩ := inside
      rw [← under.1,there] at found
      cases found
      rw [← same] at below
      have one := under.2.eq_of_length (Nat.le_antisymm under.2.length_le below.length_le)
      cases place
      cases root
      simp_all [Under]
    · rfl

theorem follow_under (inside : mounts.Inside root) (bare : ∀ place, Under root place → mounts.mountedOn place = none)
    (reached : mounts.follow root links root path = .ok found) : Under root found := by
  have top : Under root root := ⟨rfl,List.suffix_refl _⟩
  refine follow_ends top top (fun place under => by rwa [cross_bare (bare place under)])
    (fun place name up under above => ?_) (fun place name under => ?_) reached
  · obtain ⟨base,lower,_⟩ := above_spec above
    rw [climb_under inside under] at base lower
    rw [base] at under lower
    have higher : Under root up := by
      refine ⟨under.1,?_⟩
      rcases List.suffix_cons_iff.mp under.2 with same | below
      · refine absurd ?_ lower
        cases root
        simp_all [Under]
      · exact below
    rw [cross_bare (bare up higher)]
    exact higher
  · have lower : Under root ⟨place.mount,name::place.path⟩ := ⟨under.1,under.2.trans (List.suffix_cons _ _)⟩
    rw [cross_bare (bare _ lower)]
    exact lower

theorem mountedOn_later (formed : mounts.Formed) {mount : Nat} (on : mounts.mountedOn place = some mount) : place.mount < mount := by
  obtain ⟨shown,there,parent⟩ := mountedOn_shown on
  exact (formed mount shown there place parent).2.2

theorem crossing_later (formed : mounts.Formed) (fuel : Nat) : place.mount ≤ (mounts.crossing fuel place).mount := by
  induction fuel generalizing place with
  | zero => exact Nat.le_refl _
  | succ fuel ih =>
    rw [crossing]
    cases on : mounts.mountedOn place with
    | none => exact Nat.le_refl _
    | some mount =>
      dsimp only
      exact Nat.le_trans (Nat.le_of_lt (mountedOn_later formed on)) (@ih ⟨mount,_⟩)

theorem cross_stays_iff (formed : mounts.Formed) : (mounts.cross place).mount = place.mount ↔ mounts.mountedOn place = none := by
  constructor
  · intro stays
    cases on : mounts.mountedOn place with
    | none => rfl
    | some mount =>
      obtain ⟨shown,there,_⟩ := mountedOn_shown on
      have later := mountedOn_later formed on
      unfold cross at stays
      cases size : mounts.table.length with
      | zero => simp [List.length_eq_zero_iff.mp size] at there
      | succ fuel =>
        rw [size,crossing,on] at stays
        dsimp only at stays
        have above := @crossing_later _ _ _ mounts ⟨mount,((mounts.table[mount]?).map (·.root)).getD []⟩ formed fuel
        rw [stays] at above
        exact absurd above (Nat.not_le.mpr later)
  · exact fun bare => by rw [cross_bare bare]

section Injective

/-- What a walk that comes to a place goes on to. -/
def Shows (mounts : Mounts κ α) (place shown : Place κ) : Prop :=
  ∃ mount, mounts.mountedOn place = some mount ∧ shown = ⟨mount,((mounts.table[mount]?).map (·.root)).getD []⟩

def BelowTop (mounts : Mounts κ α) (place : Place κ) : Prop :=
  ∀ shown, mounts.table[place.mount]? = some shown → shown.root ≠ place.path

theorem Shows.parent {shown : Place κ} (shows : mounts.Shows place shown) :
    ¬ mounts.BelowTop shown ∧ (mounts.table[shown.mount]?).bind (·.parent) = some place := by
  obtain ⟨mount,on,rfl⟩ := shows
  obtain ⟨known,there,parent⟩ := mountedOn_shown on
  exact ⟨fun below => below known there (by simp [there]),by simp [there,parent]⟩

theorem crossing_shows (fuel : Nat) : Relation.ReflTransGen mounts.Shows place (mounts.crossing fuel place) := by
  induction fuel generalizing place with
  | zero => exact .refl
  | succ fuel ih =>
    rw [crossing]
    cases on : mounts.mountedOn place with
    | none => exact .refl
    | some mount => exact .head ⟨mount,on,rfl⟩ ih

theorem shows_injective {one two ended : Place κ} (below : mounts.BelowTop one) (lower : mounts.BelowTop two)
    (first : Relation.ReflTransGen mounts.Shows one ended) (second : Relation.ReflTransGen mounts.Shows two ended) : one = two := by
  induction first with
  | refl =>
    rcases Relation.ReflTransGen.cases_tail second with same | ⟨_,_,last⟩
    · exact same
    · exact absurd below last.parent.1
  | tail _ step ih =>
    rcases Relation.ReflTransGen.cases_tail second with same | ⟨_,before,last⟩
    · rw [same] at step
      exact absurd lower step.parent.1
    · have same := step.parent.2.symm.trans last.parent.2
      cases same
      exact ih before

theorem cross_injective {one two : Place κ} (below : mounts.BelowTop one) (lower : mounts.BelowTop two)
    (same : mounts.cross one = mounts.cross two) : one = two := by
  refine shows_injective below lower (crossing_shows mounts.table.length) ?_
  have second := @crossing_shows _ _ _ mounts two mounts.table.length
  rwa [show mounts.crossing mounts.table.length two = mounts.crossing mounts.table.length one from same.symm] at second

omit [DecidableEq κ] in
theorem Inside.belowTop (inside : mounts.Inside place) (name : κ) : mounts.BelowTop ⟨place.mount,name::place.path⟩ := by
  intro shown there top
  obtain ⟨known,found,suffix⟩ := inside
  cases there.symm.trans found
  have long := suffix.length_le
  rw [top] at long
  exact absurd long (by simp)

theorem descend_step {name : κ} {rest : List κ} (reached : mounts.descend root place ((name::rest).map some) = .reached found) :
    ∃ entry, (mounts.tree place.mount).get (name::place.path) = some entry ∧
      mounts.descend root (mounts.cross ⟨place.mount,name::place.path⟩) (rest.map some) = .reached found := by
  rw [List.map_cons,descend] at reached
  cases there : (mounts.tree place.mount).get (name::place.path) with
  | none =>
    rw [there] at reached
    cases reached
  | some entry =>
    refine ⟨entry,rfl,?_⟩
    rw [there] at reached
    dsimp only at reached
    cases kind : entry.kind with
    | dir =>
      rw [kind] at reached
      exact reached
    | symlink absolute target =>
      rw [kind] at reached
      cases reached
    | leaf =>
      rw [kind] at reached
      cases rest with
      | nil => exact reached
      | cons next rest => cases reached

/-- Two walks along the same names that end at one place begin at one. -/
theorem descend_injective {one two : Place κ} (first : mounts.Inside one) (second : mounts.Inside two)
    (reached : mounts.descend root one (names.map some) = .reached found)
    (again : mounts.descend other two (names.map some) = .reached found) : one = two := by
  induction names generalizing one two with
  | nil =>
    cases reached
    cases again
    rfl
  | cons name rest ih =>
    obtain ⟨_,_,ahead⟩ := descend_step reached
    obtain ⟨_,_,beside⟩ := descend_step again
    have same := cross_injective (first.belowTop name) (second.belowTop name) (ih (first.down name) (second.down name) ahead beside)
    obtain ⟨mount,path⟩ := one
    obtain ⟨_,_⟩ := two
    cases same
    rfl

end Injective

section Leaving

variable (formed : mounts.Formed) (stays : ∀ path found, mounts.descend root root path = .reached found → found.mount = root.mount)

include formed stays

theorem descend_below (names : List κ) (directory : (mounts.tree root.mount).isDir (names ++ root.path) = true) (rest : List (Option κ)) :
    mounts.descend root root (names.reverse.map some ++ rest) = mounts.descend root ⟨root.mount,names ++ root.path⟩ rest := by
  induction names generalizing rest with
  | nil => rfl
  | cons name names ih =>
    obtain ⟨entry,there,inside⟩ := (Tree.isDir_iff.mp directory).resolve_left nofun
    have walk (rest : List (Option κ)) : mounts.descend root root ((name::names).reverse.map some ++ rest) =
        mounts.descend root (mounts.cross ⟨root.mount,name::(names ++ root.path)⟩) rest := by
      rw [List.reverse_cons,List.map_append,List.append_assoc,ih (Tree.isDir_of_get there)]
      exact descend_dir ((Option.any_eq_true _ _).mpr ⟨entry,there,inside⟩) rest
    have bare : mounts.mountedOn ⟨root.mount,name::(names ++ root.path)⟩ = none :=
      (cross_stays_iff formed).mp (stays ((name::names).reverse.map some ++ []) _ (walk []))
    rw [walk,cross_bare bare]
    rfl

/-- Where every walk from a root ends on its mount, nothing is mounted on the root or below. -/
theorem bare_below (under : Under root place) : mounts.mountedOn place = none := by
  obtain ⟨mount,path⟩ := place
  obtain ⟨rfl,names,rfl⟩ := under
  refine (cross_stays_iff formed).mp ?_
  cases names with
  | nil =>
    refine stays [none] _ ?_
    have top : mounts.above root root = none := by
      have here : mounts.climb root root = root := by
        unfold climb
        cases mounts.table.length with
        | zero => rfl
        | succ fuel => rw [climbing,if_pos rfl]
      unfold Mounts.above
      rw [here]
      exact if_pos (.inl rfl)
    rw [descend,top]
    rfl
  | cons name names =>
    cases on : mounts.mountedOn ⟨root.mount,(name::names) ++ root.path⟩ with
    | none => rw [cross_bare on]
    | some mount =>
      obtain ⟨shown,there,parent⟩ := mountedOn_shown on
      obtain ⟨entry,found,direct⟩ := (formed mount shown there _ parent).2.1.resolve_left nofun
      refine stays ((name::names).reverse.map some) _ ?_
      rw [List.reverse_cons,List.map_append,descend_below formed stays names (Tree.isDir_of_get found)]
      have found : (mounts.tree root.mount).get (name::(names ++ root.path)) = some entry := found
      rw [List.map_singleton,descend,found]
      dsimp only
      cases kind : entry.kind with
      | dir => rfl
      | leaf => rfl
      | symlink absolute target => exact absurd kind (direct absolute target)

end Leaving

end Staying

end Mounts
end Smoothfs
