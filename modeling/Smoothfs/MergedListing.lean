import Mathlib.Algebra.Ring.Nat
import Smoothfs.Types

/-! Listing a directory: its copies are collected into one array when the first
call gets past the dots, and the calls after it go on by position. -/
namespace Smoothfs.MergedListing

structure Entry where
  name : String
  ino : Nat
  dtype : Nat
  deriving DecidableEq, Repr

abbrev Reading := Except Errno (List Entry)

/-- `lower` is the copy behind `lower_path`; those in `copies` are found by path
and are `none` on ENOENT and ENOTDIR and where something else stands. -/
structure Directory where
  cacheMode : Bool
  fastestTier : Nat
  currentTier : Nat
  lower : Reading
  active : List Bool
  copies : Nat → Option Reading
  dots : Entry × Entry

def Directory.ntiers (dir : Directory) : Nat := dir.active.length

def Directory.canonicalTier (dir : Directory) : Nat :=
  if dir.ntiers ≤ dir.currentTier then dir.fastestTier else dir.currentTier

def dot (name : String) : Bool := name = "." || name = ".."

def dirCacheAdd (cache : List Entry) (entry : Entry) : List Entry :=
  if dot entry.name || entry.name ∈ cache.map Entry.name then cache else cache ++ [entry]

def collectOneDir (cache : List Entry) (copy : Reading) : Reading := copy.map (List.foldl dirCacheAdd cache)

def collectTiers (dir : Directory) : List Nat → List Entry → Reading
  | [], cache => .ok cache
  | tier::rest, cache =>
    if tier = dir.canonicalTier then collectTiers dir rest cache
    else match dir.copies tier with
      | none => collectTiers dir rest cache
      | some copy => (collectOneDir cache copy).bind (collectTiers dir rest)

def activeTiers (dir : Directory) : List Nat :=
  if dir.cacheMode then [] else (List.range dir.ntiers).filter fun tier => dir.active.getD tier false

def buildDirCache (dir : Directory) : Reading :=
  (collectOneDir [] dir.lower).bind (collectTiers dir (activeTiers dir))

/-- `smoothfs_file_info`: `smoothfs_open_lower` leaves in `dir_cache` what the
memory had there. -/
structure OpenDir where
  dirCache : Option (List Entry)
  pos : Nat

def openLower (memory : Option (List Entry)) : OpenDir := ⟨memory,0⟩

def iterateShared (dir : Directory) (file : OpenDir) (room : Nat) : Except Errno (List Entry × OpenDir) :=
  let dots := ([dir.dots.1,dir.dots.2].drop file.pos).take room
  if file.pos + dots.length < 2 then .ok (dots,{file with pos := file.pos + dots.length})
  else (file.dirCache.elim (buildDirCache dir) .ok).map fun cache =>
    let entries := (cache.drop (file.pos + dots.length - 2)).take (room - dots.length)
    (dots ++ entries,⟨some cache,file.pos + dots.length + entries.length⟩)

def serve (dir : Directory) : OpenDir → List Nat → Reading
  | _, [] => .ok []
  | file, room::rooms => (iterateShared dir file room).bind fun (entries,next) => (serve dir next rooms).map (entries ++ ·)

def gather : List Reading → Reading
  | [] => .ok []
  | copy::rest => copy.bind fun entries => (gather rest).map (entries ++ ·)

def Directory.sources (dir : Directory) : List Reading := dir.lower::(activeTiers dir).filterMap dir.copies

/-- Every name but the dots once, with the number and type of its first occurrence. -/
structure Merged (all listing : List Entry) : Prop where
  once : (listing.map Entry.name).Nodup
  proper : ∀ entry ∈ listing, dot entry.name = false
  first : ∀ name, dot name = false → listing.find? (·.name = name) = all.find? (·.name = name)

/-- The copies that are read: the tier that `current_tier` names is passed over. -/
def Directory.read (dir : Directory) : List Reading :=
  dir.lower::((activeTiers dir).filter (· ≠ dir.canonicalTier)).filterMap dir.copies

/-- Behind `before`, the same error, or for each name the same first entry. -/
def Agree (before : List Entry) (one two : Reading) : Prop :=
  match one, two with
  | .ok some_, .ok all => ∀ name, dot name = false → (before ++ some_).find? (·.name = name) = (before ++ all).find? (·.name = name)
  | .error errno, .error other => errno = other
  | _, _ => False

/-- The copy that is passed over makes no difference to the merge. -/
def Directory.Covered (dir : Directory) : Prop := Agree [] (gather dir.read) (gather dir.sources)

/-- The tier that is passed over is the one that `lower_path` is on. -/
def Directory.InStep (dir : Directory) : Prop := dir.copies dir.canonicalTier = some dir.lower

variable {dir : Directory} {before cache entries : List Entry}

theorem Merged.add (merged : Merged before cache) (entry : Entry) : Merged (before ++ [entry]) (dirCacheAdd cache entry) := by
  unfold dirCacheAdd
  split_ifs with skipped
  · refine ⟨merged.once,merged.proper,fun name plain => ?_⟩
    rw [merged.first name plain,List.find?_append]
    cases found : before.find? (·.name = name) with
    | some head => rfl
    | none =>
      have different : entry.name ≠ name := by
        rintro rfl
        obtain ⟨head,there,same⟩ : ∃ head ∈ cache, head.name = entry.name := by simpa [plain] using skipped
        rw [← merged.first _ plain,List.find?_eq_none] at found
        simpa [same] using found head there
      simp [different]
  · simp only [Bool.or_eq_true,not_or] at skipped
    refine ⟨?_,?_,fun name plain => by rw [List.find?_append,List.find?_append,merged.first name plain]⟩
    · simpa [List.nodup_append,merged.once] using skipped.2
    · simpa [or_imp,forall_and,skipped.1] using merged.proper

theorem Merged.collect (merged : Merged before cache) (entries : List Entry) :
    Merged (before ++ entries) (entries.foldl dirCacheAdd cache) := by
  induction entries generalizing before cache with
  | nil => simpa using merged
  | cons entry rest ih => simpa using ih (merged.add entry)

/-- The error of the copies, or the merge of what they have behind `before`. -/
def Merges (before : List Entry) (copies result : Reading) : Prop :=
  match copies with
  | .ok rest => ∃ listing, result = .ok listing ∧ Merged (before ++ rest) listing
  | .error errno => result = .error errno

theorem Merges.behind {copies result : Reading} (merges : Merges (before ++ entries) copies result) :
    Merges before (copies.map (entries ++ ·)) result := by
  cases copies with
  | error errno => exact merges
  | ok rest => simpa [Merges,Except.map] using merges

theorem collectTiers_merges (merged : Merged before cache) (tiers : List Nat) :
    Merges before (gather ((tiers.filter (· ≠ dir.canonicalTier)).filterMap dir.copies)) (collectTiers dir tiers cache) := by
  induction tiers generalizing before cache with
  | nil => exact ⟨cache,rfl,by simpa using merged⟩
  | cons tier rest ih =>
    by_cases skipped : tier = dir.canonicalTier
    · rw [collectTiers,if_pos skipped,List.filter_cons_of_neg (by simpa using skipped)]
      exact ih merged
    rw [collectTiers,if_neg skipped,List.filter_cons_of_pos (by simpa using skipped)]
    cases copied : dir.copies tier with
    | none => simpa [copied] using ih merged
    | some copy =>
      rw [List.filterMap_cons_some copied,gather]
      cases copy with
      | error errno => exact rfl
      | ok entries => exact (ih (merged.collect entries)).behind

theorem buildDirCache_merges (dir : Directory) : Merges [] (gather dir.read) (buildDirCache dir) := by
  rw [Directory.read,buildDirCache]
  cases dir.lower with
  | error errno => exact rfl
  | ok own =>
    have empty : Merged [] [] := ⟨List.nodup_nil,by simp,by simp⟩
    exact (collectTiers_merges (empty.collect own) (activeTiers dir)).behind

theorem Agree.behind {one two : Reading} (agree : Agree (before ++ entries) one two) :
    Agree before (one.map (entries ++ ·)) (two.map (entries ++ ·)) := by
  cases one with
  | error errno => cases two <;> exact agree
  | ok part =>
    cases two with
    | error errno => exact agree
    | ok all => simpa [Agree,Except.map] using agree

theorem Agree.again {one two : Reading} (agree : Agree before one two)
    (known : ∀ entry ∈ entries, entry.name ∈ before.map Entry.name) : Agree before one (two.map (entries ++ ·)) := by
  cases one with
  | error errno => cases two <;> exact agree
  | ok part =>
    cases two with
    | error errno => exact agree
    | ok all =>
      intro name plain
      rw [agree name plain,List.find?_append,List.find?_append,List.find?_append]
      cases found : before.find? (·.name = name) with
      | some head => rfl
      | none =>
        have missing : entries.find? (·.name = name) = none := by
          rw [List.find?_eq_none]
          intro entry member same
          obtain ⟨head,there,equal⟩ := List.mem_map.mp (known entry member)
          exact List.find?_eq_none.mp found head there (by simpa [equal] using same)
        rw [missing,Option.none_or,Option.none_or]

theorem agree_tiers {own : List Entry} (canonical : dir.copies dir.canonicalTier = some (.ok own))
    (known : ∀ entry ∈ own, entry.name ∈ before.map Entry.name) (tiers : List Nat) :
    Agree before (gather ((tiers.filter (· ≠ dir.canonicalTier)).filterMap dir.copies)) (gather (tiers.filterMap dir.copies)) := by
  induction tiers generalizing before with
  | nil => exact fun _ _ => rfl
  | cons tier rest ih =>
    by_cases skipped : tier = dir.canonicalTier
    · rw [List.filter_cons_of_neg (by simpa using skipped),List.filterMap_cons_some (skipped ▸ canonical)]
      exact (ih known).again known
    rw [List.filter_cons_of_pos (by simpa using skipped)]
    cases copied : dir.copies tier with
    | none => simpa [copied] using ih known
    | some copy =>
      rw [List.filterMap_cons_some copied,List.filterMap_cons_some copied]
      cases copy with
      | error errno => exact rfl
      | ok entries =>
        refine Agree.behind (ih fun entry member => ?_)
        rw [List.map_append]
        exact List.mem_append_left _ (known entry member)

theorem covered_of_inStep (dir : Directory) (inStep : dir.cacheMode = true ∨ dir.InStep) : dir.Covered := by
  unfold Directory.Covered Directory.read Directory.sources
  rcases inStep with cache | inStep
  · simp only [activeTiers,cache,if_true,List.filter_nil]
    cases gather (dir.lower::List.filterMap dir.copies []) <;> simp [Agree]
  cases lower : dir.lower with
  | error errno => exact rfl
  | ok own =>
    have canonical : dir.copies dir.canonicalTier = some (.ok own) := by rw [inStep,lower]
    exact Agree.behind (agree_tiers canonical (fun entry member => List.mem_map_of_mem member) (activeTiers dir))

def stream (dir : Directory) (cache : List Entry) : List Entry := dir.dots.1::dir.dots.2::cache

variable {file : OpenDir}

theorem iterateShared_spec (built : file.dirCache.elim (buildDirCache dir) .ok = .ok cache) (room : Nat) :
    ∃ next, iterateShared dir file room = .ok (((stream dir cache).drop file.pos).take room,next) ∧
      next.pos = file.pos + (((stream dir cache).drop file.pos).take room).length ∧
      next.dirCache.elim (buildDirCache dir) .ok = .ok cache := by
  obtain ⟨memory,pos⟩ := file
  obtain _ | _ | pos := pos
  · obtain _ | _ | room := room <;> simp [iterateShared,stream,built,Except.map]
    omega
  · obtain _ | room := room <;> simp [iterateShared,stream,built,Except.map]
    omega
  · simp [iterateShared,stream,built,Except.map,show ¬ pos + 2 < 2 by omega]

/-- However the listing is split, it goes on where it was. -/
theorem serve_spec (built : file.dirCache.elim (buildDirCache dir) .ok = .ok cache) (rooms : List Nat) :
    serve dir file rooms = .ok (((stream dir cache).drop file.pos).take rooms.sum) := by
  induction rooms generalizing file with
  | nil => simp [serve]
  | cons room rooms ih =>
    obtain ⟨next,called,moved,kept⟩ := iterateShared_spec built room
    have onward : (stream dir cache).drop next.pos = (stream dir cache).drop (file.pos + room) := by
      rw [moved,List.drop_eq_drop_iff,List.length_take,List.length_drop]
      omega
    rw [serve,called,List.sum_cons,List.take_add,List.drop_drop,← onward]
    simp only [Except.bind,ih kept,Except.map]

theorem serve_error {errno : Errno} (failed : buildDirCache dir = .error errno) (pos : Nat) (early : pos < 2) (rooms : List Nat)
    (past : 2 ≤ pos + rooms.sum) : serve dir ⟨none,pos⟩ rooms = .error errno := by
  induction rooms generalizing pos with
  | nil =>
    simp at past
    omega
  | cons room rooms ih =>
    have dots : (([dir.dots.1,dir.dots.2].drop pos).take room).length = min room (2 - pos) := by simp
    rw [List.sum_cons] at past
    rw [serve,iterateShared,dots]
    split_ifs with short
    · simp only at short
      have next : pos + min room (2 - pos) = pos + room := by omega
      simp only [Except.bind,next,ih (pos + room) (by omega) (by omega),Except.map]
    · simp [failed,Except.map,Except.bind]

/-- Every listing, from an open that found its memory cleared, is a prefix of one merged listing, and
a copy that cannot be read fails every listing that gets past the dots. -/
def Directory.Exact (dir : Directory) : Prop :=
  match gather dir.sources with
  | .ok all => ∃ listing, Merged all listing ∧ ∀ rooms, serve dir (openLower none) rooms = .ok ((stream dir listing).take rooms.sum)
  | .error errno => ∀ rooms, 2 ≤ rooms.sum → serve dir (openLower none) rooms = .error errno

theorem stream_injective {one two : List Entry}
    (same : ∀ rooms : List Nat, (stream dir one).take rooms.sum = (stream dir two).take rooms.sum) : one = two := by
  have whole := same [(stream dir one).length + (stream dir two).length]
  rw [List.sum_singleton,List.take_of_length_le (Nat.le_add_right _ _),List.take_of_length_le (Nat.le_add_left _ _)] at whole
  simpa [stream] using whole

/-- The listing is exact just when the copy that is passed over makes no difference, as in a cache or
with `lower_path` on the tier that is passed over. -/
theorem listing_exact (dir : Directory) : (dir.Exact ↔ dir.Covered) ∧ (dir.cacheMode = true ∨ dir.InStep → dir.Exact) := by
  have exact_iff : dir.Exact ↔ dir.Covered := by
    have merges := buildDirCache_merges dir
    unfold Directory.Exact Directory.Covered
    cases read : gather dir.read with
    | ok part =>
      rw [read] at merges
      obtain ⟨listing,built,merged⟩ := merges
      have cleared : (openLower none).dirCache.elim (buildDirCache dir) .ok = .ok listing := built
      have served := serve_spec cleared
      cases gather dir.sources with
      | ok all =>
        constructor
        · rintro ⟨other,whole,listed⟩ name plain
          have same : other = listing := stream_injective fun rooms => Except.ok.inj ((listed rooms).symm.trans (served rooms))
          subst same
          exact (merged.first name plain).symm.trans (whole.first name plain)
        · intro agree
          exact ⟨listing,⟨merged.once,merged.proper,fun name plain => (merged.first name plain).trans (agree name plain)⟩,served⟩
      | error errno =>
        refine ⟨fun fails => ?_,False.elim⟩
        cases (served [2]).symm.trans (fails [2] (by simp))
    | error errno =>
      rw [read] at merges
      have fails (rooms : List Nat) (past : 2 ≤ rooms.sum) : serve dir (openLower none) rooms = .error errno :=
        serve_error merges 0 (by decide) rooms (by simpa using past)
      cases gather dir.sources with
      | ok all =>
        refine ⟨fun ⟨listing,_,listed⟩ => ?_,False.elim⟩
        cases (fails [2] (by simp)).symm.trans (listed [2])
      | error other =>
        constructor
        · intro also
          exact Except.error.inj ((fails [2] (by simp)).symm.trans (also [2] (by simp)))
        · rintro rfl
          exact fails
  exact ⟨exact_iff,fun inStep => exact_iff.mpr (covered_of_inStep dir inStep)⟩

def single (lower : Reading) : Directory := ⟨false,0,0,lower,[true],fun _ => some lower,(⟨".",1,4⟩,⟨"..",1,4⟩)⟩

theorem single_listed : ∃ listing, Merged [⟨"a",2,8⟩,⟨"a",2,8⟩] listing ∧ ∀ rooms,
    serve (single (.ok [⟨"a",2,8⟩])) (openLower none) rooms = .ok ((stream (single (.ok [⟨"a",2,8⟩])) listing).take rooms.sum) :=
  (listing_exact (single (.ok [⟨"a",2,8⟩]))).2 (.inr rfl)

/-- What the memory had is listed; and the copy on `current_tier` is passed over. -/
theorem stale_and_passed_over :
    serve (single (.ok [⟨"a",2,8⟩])) (openLower (some [⟨"gone",9,8⟩])) [3] = .ok [⟨".",1,4⟩,⟨"..",1,4⟩,⟨"gone",9,8⟩] ∧
    serve {single (.ok []) with
      active := [true,true], currentTier := 1, copies := fun tier => some (.ok (if tier = 0 then [] else [⟨"a",2,8⟩]))}
      (openLower none) [3] = .ok [⟨".",1,4⟩,⟨"..",1,4⟩] := by
  constructor <;> rfl

end Smoothfs.MergedListing
