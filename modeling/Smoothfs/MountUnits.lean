import Mathlib.Data.UInt
import Smoothfs.Types

/-! `UnitFilenameFor`: the name of the unit file of a mount point. -/
namespace Smoothfs.MountUnits

def slash : UInt8 := 47

def dash : UInt8 := 45

def dot : UInt8 := 46

def backslash : UInt8 := 92

def cleanStep (rooted : Bool) (stack : List Bytes) (part : Bytes) : List Bytes :=
  if part = [] ∨ part = [dot] then stack
  else if part = [dot,dot] then
    match stack with
    | [] => if rooted then [] else [part]
    | top::rest => if top = part then part::stack else rest
  else part::stack

/-- `filepath.Clean`. -/
def clean (path : Bytes) : Bytes :=
  let rooted := path.head? = some slash
  let parts := ((path.splitOn slash).foldl (cleanStep rooted) []).reverse
  if rooted then slash::[slash].intercalate parts
  else if parts = [] then [dot]
  else [slash].intercalate parts

def hexDigit (digit : UInt8) : UInt8 := if digit < 10 then 48 + digit else 87 + digit

def plain (ch : UInt8) : Bool :=
  ch = dot ∨ ch = 95 ∨ ch = 58 ∨ (48 ≤ ch ∧ ch ≤ 57) ∨ (65 ≤ ch ∧ ch ≤ 90) ∨ (97 ≤ ch ∧ ch ≤ 122)

def escape (ch : UInt8) : Bytes :=
  if ch = slash then [dash] else if plain ch then [ch] else [backslash,120,hexDigit (ch / 16),hexDigit (ch % 16)]

def suffix : Bytes := [46,109,111,117,110,116]

def trimPrefix (path : Bytes) : Bytes := if path.head? = some slash then path.tail else path

def unitFilenameFor (mountpoint : Bytes) : Bytes :=
  let path := clean mountpoint
  if path = [slash] then dash::suffix else (trimPrefix path).flatMap escape ++ suffix

def hexValue (digit : UInt8) : UInt8 := if digit < 58 then digit - 48 else digit - 87

/-- Reads a unit name back. -/
def unescape : Bytes → Bytes
  | [] => []
  | ch::rest =>
    if ch = dash then slash::unescape rest
    else if ch = backslash then
      match rest with
      | _::high::low::rest => (hexValue high * 16 + hexValue low)::unescape rest
      | _ => []
    else ch::unescape rest

theorem hex_value (ch : UInt8) : hexValue (hexDigit (ch / 16)) * 16 + hexValue (hexDigit (ch % 16)) = ch := by
  obtain ⟨⟨code⟩⟩ := ch
  revert code
  decide +kernel

theorem plain_ne {ch : UInt8} (kept : plain ch = true) : ch ≠ dash ∧ ch ≠ backslash := by
  constructor <;> rintro rfl <;> exact absurd kept (by decide)

theorem unescape_escape (ch : UInt8) (rest : Bytes) : unescape (escape ch ++ rest) = ch::unescape rest := by
  unfold escape
  split_ifs with separator kept
  · rw [unescape.eq_def,separator]
    rfl
  · obtain ⟨other,unescaped⟩ := plain_ne kept
    rw [unescape.eq_def]
    simp [other,unescaped]
  · rw [unescape.eq_def]
    simp [hex_value,show backslash ≠ dash by decide]

theorem unescape_flatMap (path : Bytes) : unescape (path.flatMap escape) = path := by
  induction path with
  | nil => rfl
  | cons ch rest ih => rw [List.flatMap_cons,unescape_escape,ih]

theorem slash_not_mem_split {path part : Bytes} (member : part ∈ path.splitOn slash) : slash ∉ part := by
  induction path generalizing part with
  | nil =>
    cases List.mem_singleton.mp member
    exact List.not_mem_nil
  | cons ch rest ih =>
    rw [List.splitOn_cons_eq_if_modifyHead] at member
    split at member
    · rcases List.mem_cons.mp member with rfl | later
      · exact List.not_mem_nil
      · exact ih later
    next other =>
    cases parts : rest.splitOn slash with
    | nil => exact absurd parts (List.splitOn_ne_nil _ _)
    | cons first others =>
      rw [parts] at member
      rcases List.mem_cons.mp member with rfl | later
      · have clear := ih (parts ▸ List.mem_cons_self)
        intro inside
        rcases List.mem_cons.mp inside with same | inside
        · exact other (beq_iff_eq.mpr same.symm)
        · exact clear inside
      · exact ih (parts ▸ List.mem_cons_of_mem _ later)

theorem cleanStep_mem {rooted : Bool} {stack : List Bytes} {part kept : Bytes} (member : kept ∈ cleanStep rooted stack part) :
    kept ∈ stack ∨ (kept = part ∧ part ≠ []) := by
  have added (filled : ¬ (part = [] ∨ part = [dot])) (inside : kept ∈ part::stack) : kept ∈ stack ∨ (kept = part ∧ part ≠ []) := by
    rcases List.mem_cons.mp inside with rfl | old
    · exact .inr ⟨rfl,fun empty => filled (.inl empty)⟩
    · exact .inl old
  unfold cleanStep at member
  split at member
  · exact .inl member
  next filled =>
  split at member
  · split at member
    · split at member
      · exact .inl member
      · exact added filled member
    · split at member
      · exact added filled member
      · exact .inl (List.mem_cons_of_mem _ member)
  · exact added filled member

theorem foldl_cleanStep_mem {rooted : Bool} {parts stack : List Bytes} {kept : Bytes}
    (member : kept ∈ parts.foldl (cleanStep rooted) stack) : kept ∈ stack ∨ (kept ∈ parts ∧ kept ≠ []) := by
  induction parts generalizing stack with
  | nil => exact .inl member
  | cons part rest ih =>
    rcases ih member with earlier | ⟨later,filled⟩
    · rcases cleanStep_mem earlier with old | ⟨rfl,filled⟩
      · exact .inl old
      · exact .inr ⟨List.mem_cons_self,filled⟩
    · exact .inr ⟨List.mem_cons_of_mem _ later,filled⟩

/-- A clean absolute path has one slash at its front. -/
theorem clean_absolute {path : Bytes} (absolute : path.head? = some slash) :
    ∃ rest, clean path = slash::rest ∧ rest ≠ [slash] := by
  have rooted : clean path = slash::[slash].intercalate ((path.splitOn slash).foldl (cleanStep true) []).reverse := by
    simp [clean,absolute]
  refine ⟨_,rooted,fun double => ?_⟩
  generalize joined : ((path.splitOn slash).foldl (cleanStep true) []).reverse = parts at double
  rcases parts with _ | ⟨part,more⟩
  · cases double
  have member : part ∈ (path.splitOn slash).foldl (cleanStep true) [] :=
    List.mem_reverse.mp (joined ▸ List.mem_cons_self)
  rcases foldl_cleanStep_mem member with none | ⟨split,filled⟩
  · cases none
  obtain ⟨ch,tail,rfl⟩ := List.exists_cons_of_ne_nil filled
  have first : ch = slash := by
    cases more with
    | nil | cons next others => simpa using congrArg List.head? double
  exact slash_not_mem_split split (first ▸ List.mem_cons_self)

/-- Two absolute paths with one unit name are the same path. -/
theorem unitFilenameFor_clean {p q : Bytes} (absoluteP : p.head? = some slash) (absoluteQ : q.head? = some slash)
    (same : unitFilenameFor p = unitFilenameFor q) : clean p = clean q := by
  -- a name decodes to what stands after the slash, and the name of the root to a second slash
  have decoded {path rest : Bytes} (rooted : clean path = slash::rest) :
      unitFilenameFor path = (if rest = [] then [slash] else rest).flatMap escape ++ suffix := by
    by_cases top : rest = []
    · simp [unitFilenameFor,rooted,top,escape]
    · simp [unitFilenameFor,rooted,top,trimPrefix]
  obtain ⟨left,leftClean,leftSingle⟩ := clean_absolute absoluteP
  obtain ⟨right,rightClean,rightSingle⟩ := clean_absolute absoluteQ
  rw [decoded leftClean,decoded rightClean] at same
  have paths := congrArg unescape (List.append_cancel_right same)
  rw [unescape_flatMap,unescape_flatMap] at paths
  rw [leftClean,rightClean]
  split_ifs at paths with leftTop rightTop rightTop
  · rw [leftTop,rightTop]
  · exact absurd paths.symm rightSingle
  · exact absurd paths leftSingle
  · rw [paths]

theorem dotted_path_has_its_name : clean [47,97,47,46,46,47,98] = clean [47,47,98,47] :=
  unitFilenameFor_clean (by decide) (by decide) (by decide +kernel)

end Smoothfs.MountUnits
