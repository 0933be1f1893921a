import Mathlib.Data.List.Sort
import Smoothfs.Library.Tree

/-! A walk over a tree with a callback, directories before what is in them and the
entries of a directory in the order of their names. The callback may end the walk with
an error or keep it out of a directory. -/
namespace Smoothfs.Tree

variable {κ α ε : Type} [DecidableEq κ]

/-- The callback returns `true` to skip a directory; links are not followed. -/
def walk (tree : Tree κ α) (order : κ → κ → Prop) [DecidableRel order] (visit : List κ → Entry κ α → Except ε Bool) :
    Nat → List κ → Entry κ α → Except ε Unit
  | 0, _, _ => .ok ()
  | fuel+1, path, entry =>
    match visit path entry with
    | .error error => .error error
    | .ok skipped =>
      if entry.isDir = true ∧ skipped = false then
        forM ((tree.children path).insertionSort fun left right => order left.1 right.1) fun item =>
          tree.walk order visit fuel (item.1::path) item.2
      else .ok ()

def walkDir (tree : Tree κ α) (order : κ → κ → Prop) [DecidableRel order] (visit : List κ → Entry κ α → Except ε Bool)
    (root : Entry κ α) : Except ε Unit :=
  tree.walk order visit (tree.entries.length + 1) [] root

inductive Reaches (tree : Tree κ α) (visit : List κ → Entry κ α → Except ε Bool) (top : List κ) (first : Entry κ α) :
    List κ → Entry κ α → Prop
  | here : Reaches tree visit top first top first
  | inside {path : List κ} {entry : Entry κ α} {name : κ} {child : Entry κ α} (above : Reaches tree visit top first path entry)
      (directory : entry.isDir = true) (entered : visit path entry = .ok false) (found : tree.get (name::path) = some child) :
      Reaches tree visit top first (name::path) child

variable {tree : Tree κ α} {visit : List κ → Entry κ α → Except ε Bool} {top path : List κ} {first entry : Entry κ α}

theorem Reaches.head {name : κ} {child : Entry κ α} (directory : first.isDir = true) (entered : visit top first = .ok false)
    (found : tree.get (name::top) = some child) (later : Reaches tree visit (name::top) child path entry) :
    Reaches tree visit top first path entry := by
  induction later with
  | here => exact .inside .here directory entered found
  | inside _ inside opened there ih => exact .inside ih inside opened there

theorem Reaches.get (reaches : Reaches tree visit top first path entry) :
    path = top ∧ entry = first ∨ tree.get path = some entry := by
  cases reaches with
  | here => exact .inl ⟨rfl,rfl⟩
  | inside _ _ _ found => exact .inr found

theorem Reaches.front (reaches : Reaches tree visit top first path entry) :
    path = top ∧ entry = first ∨ first.isDir = true := by
  induction reaches with
  | here => exact .inl ⟨rfl,rfl⟩
  | inside _ directory _ _ ih =>
    rcases ih with here | inside
    · exact .inr (here.2 ▸ directory)
    · exact .inr inside

theorem forM_ok {β : Type} (items : List β) (act : β → Except ε Unit) :
    forM items act = .ok () ↔ ∀ item ∈ items, act item = .ok () := by
  induction items with
  | nil => exact ⟨fun _ _ member => (List.not_mem_nil member).elim,fun _ => rfl⟩
  | cons item rest ih =>
    cases taken : act item with
    | error error =>
      constructor
      · intro ended
        simp only [List.forM_cons,taken] at ended
        cases ended
      · intro all
        rw [all item List.mem_cons_self] at taken
        cases taken
    | ok done =>
      simp only [List.forM_cons,taken,bind,Except.bind]
      rw [ih]
      simp [taken]

theorem walk_succ (order : κ → κ → Prop) [DecidableRel order] (fuel : Nat) :
    tree.walk order visit (fuel + 1) path entry = .ok () ↔ ∃ skipped, visit path entry = .ok skipped ∧
      (entry.isDir = true → skipped = false → ∀ name child, tree.get (name::path) = some child →
        tree.walk order visit fuel (name::path) child = .ok ()) := by
  rw [walk]
  cases seen : visit path entry with
  | error error => simp
  | ok skipped =>
    dsimp only
    split
    · next entered =>
      rw [forM_ok]
      constructor
      · intro all
        refine ⟨skipped,rfl,fun _ _ name child found => all (name,child) ?_⟩
        exact (List.mem_insertionSort _).mpr (mem_children.mpr found)
      · rintro ⟨_,same,all⟩ item member
        cases same
        exact all entered.1 entered.2 item.1 item.2 (mem_children.mp ((List.mem_insertionSort _).mp member))
    · next kept =>
      constructor
      · exact fun _ => ⟨skipped,rfl,fun directory entered => absurd ⟨directory,entered⟩ kept⟩
      · exact fun _ => rfl

theorem visit_of_walk {order : κ → κ → Prop} [DecidableRel order] {fuel : Nat}
    (deep : ∀ path entry, Reaches tree visit top first path entry → path.length < fuel + top.length)
    (walked : tree.walk order visit fuel top first = .ok ()) (reaches : Reaches tree visit top first path entry) :
    ∃ skipped, visit path entry = .ok skipped := by
  -- Along the way down, the fuel that is left and the length of the path add up to the same.
  have left : ∃ left, left + 1 + path.length = fuel + top.length ∧ tree.walk order visit (left + 1) path entry = .ok () := by
    induction reaches with
    | here =>
      have bound := deep top first .here
      exact ⟨fuel - 1,by omega,by rw [Nat.sub_add_cancel (by omega)]; exact walked⟩
    | inside above directory entered found ih =>
      obtain ⟨left,sum,inside⟩ := ih
      have bound := deep _ _ (.inside above directory entered found)
      rw [List.length_cons] at bound ⊢
      obtain ⟨skipped,same,all⟩ := (walk_succ order left).mp inside
      cases entered.symm.trans same
      refine ⟨left - 1,by omega,?_⟩
      rw [Nat.sub_add_cancel (by omega)]
      exact all directory rfl _ _ found
  obtain ⟨left,_,walked⟩ := left
  obtain ⟨skipped,seen,_⟩ := (walk_succ order left).mp walked
  exact ⟨skipped,seen⟩

theorem walk_of_visit (order : κ → κ → Prop) [DecidableRel order] {fuel : Nat}
    (quiet : ∀ path entry, Reaches tree visit top first path entry → ∃ skipped, visit path entry = .ok skipped) :
    tree.walk order visit fuel top first = .ok () := by
  induction fuel generalizing top first with
  | zero => rfl
  | succ fuel ih =>
    obtain ⟨skipped,seen⟩ := quiet top first .here
    refine (walk_succ order fuel).mpr ⟨skipped,seen,?_⟩
    rintro directory rfl name child found
    exact ih fun path entry later => quiet path entry (later.head directory seen found)

omit [DecidableEq κ] in
theorem nodup_tails (path : List κ) : path.tails.Nodup := by
  induction path with
  | nil => exact List.nodup_singleton _
  | cons name up ih =>
    rw [List.tails_cons,List.nodup_cons]
    refine ⟨fun member => ?_,ih⟩
    have shorter := ((List.mem_tails _ _).mp member).length_le
    exact Nat.not_succ_le_self _ shorter

theorem length_le_entries (found : tree.get path = some entry) : path.length ≤ tree.entries.length := by
  have listed : path.tails ⊆ []::tree.entries.map Prod.fst := by
    intro part member
    rcases eq_or_ne part [] with rfl | proper
    · exact List.mem_cons_self
    have above : part <:+ path := (List.mem_tails _ _).mp member
    have there : ∃ value, tree.get part = some value := by
      obtain ⟨rest,rfl⟩ := above
      cases rest with
      | nil => exact ⟨entry,found⟩
      | cons name rest =>
        rcases isDir_iff.mp (isDir_above (List.cons_ne_nil _ _) (by rw [found]; exact Option.some_ne_none _)) with
          root | ⟨value,there,_⟩
        · exact absurd root proper
        · exact ⟨value,there⟩
    obtain ⟨value,there⟩ := there
    exact List.mem_cons_of_mem _ (List.mem_map.mpr ⟨_,get_eq_some.mp there,rfl⟩)
  have count := (List.subperm_of_subset (nodup_tails path) listed).length_le
  rw [List.length_tails,List.length_cons,List.length_map] at count
  omega

theorem walkDir_ok_iff (order : κ → κ → Prop) [DecidableRel order] (root : Entry κ α) :
    tree.walkDir order visit root = .ok () ↔
      ∀ path entry, Reaches tree visit [] root path entry → ∃ skipped, visit path entry = .ok skipped := by
  constructor
  · intro walked path entry reaches
    refine visit_of_walk (fun path entry reaches => ?_) walked reaches
    rcases reaches.get with ⟨rfl,_⟩ | found
    · exact Nat.succ_pos _
    · exact Nat.lt_succ_of_le (length_le_entries found)
  · exact walk_of_visit order

end Smoothfs.Tree
