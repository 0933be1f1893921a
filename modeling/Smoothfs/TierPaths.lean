import Mathlib.Data.List.Forall2
import Smoothfs.Library.Mounts

/-! The tiers of a pool from the text that names them: what the control plane accepts,
the directories that the kernel resolves it to, and the tier that the kernel derives
from a mount. -/
namespace Smoothfs.TierPaths
open Mounts (Place Context)

abbrev Text := List Char

abbrev Vfs := Mounts Text Unit

structure Machine where
  vfs : Vfs
  formed : vfs.Formed

structure Task (machine : Machine) where
  context : Context Text
  root : machine.vfs.Inside context.root
  cwd : machine.vfs.Inside context.cwd

inductive Failure where
  | walk (error : Tree.Error)
  | nameTooLong
  deriving DecidableEq, Repr

def pathMax : Nat := 4096

def maxLinks : Nat := 40

def isAbs (text : Text) : Bool := text.head? = some '/'

def components (text : Text) : List (Option Text) :=
  ((text.splitOn '/').filter fun part => part ≠ [] ∧ part ≠ ['.']).map fun part => if part = ['.','.'] then none else some part

def size (text : Text) : Nat := text.foldr (fun char size => char.utf8Size + size) 0

def lookup (vfs : Vfs) (task : Context Text) (text : Text) : Except Failure (Place Text) :=
  if pathMax ≤ size text then .error .nameTooLong
  else (vfs.follow task.root maxLinks (if isAbs text then task.root else task.cwd) (components text)).mapError .walk

inductive Refusal where
  | noTiers
  | notAbsolute (tier : Text)
  | forbidden (tier : Text)
  | notFound (tier : Text) (error : Failure)
  | notDirectory (tier : Text)
  | duplicate (tier : Text)
  deriving DecidableEq, Repr

def forbidden : List Char := ['\n','\x00',',',':']

def validateFrom (vfs : Vfs) (task : Context Text) (seen : List Text) : List Text → Except Refusal Unit
  | [] => .ok ()
  | tier::rest =>
    if isAbs tier = false then .error (.notAbsolute tier)
    else if tier.any (· ∈ forbidden) then .error (.forbidden tier)
    else
      match lookup vfs task tier with
      | .error error => .error (.notFound tier error)
      | .ok place =>
        if vfs.isDir place = false then .error (.notDirectory tier)
        else if tier ∈ seen then .error (.duplicate tier)
        else validateFrom vfs task (tier::seen) rest

def validateTiers (vfs : Vfs) (task : Context Text) (tiers : List Text) : Except Refusal Unit :=
  if tiers = [] then .error .noTiers else validateFrom vfs task [] tiers

def tiersOption (tiers : List Text) : Text := [':'].intercalate tiers

inductive MountError where
  | invalid
  | tooMany
  | lookup (error : Failure)
  | notDirectory
  | probe
  deriving DecidableEq, Repr

def maxTiers : Nat := 8

/-- The loop of `smoothfs_resolve_tiers`; `capable` is what the probe says of a directory. -/
def resolveFrom (vfs : Vfs) (task : Context Text) (capable : Place Text → Bool) (rank : Nat) :
    List Text → Except MountError (List (Place Text))
  | [] => .ok []
  | part::rest =>
    if part = [] then resolveFrom vfs task capable rank rest
    else if maxTiers ≤ rank then .error .tooMany
    else
      match lookup vfs task part with
      | .error error => .error (.lookup error)
      | .ok place =>
        if vfs.isDir place = false then .error .notDirectory
        else if capable place = false then .error .probe
        else (resolveFrom vfs task capable (rank + 1) rest).map (place::·)

def resolveTiers (vfs : Vfs) (task : Context Text) (capable : Place Text → Bool) (option : Text) :
    Except MountError (List (Place Text)) :=
  match resolveFrom vfs task capable 0 (option.splitOn ':') with
  | .error error => .error error
  | .ok [] => .error .invalid
  | .ok tiers => .ok tiers

def tierOf (tiers : List (Place Text)) (mount : Nat) : Nat := (tiers.findIdx? (·.mount = mount)).getD maxTiers

def volumeOf (vfs : Vfs) (place : Place Text) : Option Nat := (vfs.table[place.mount]?).map (·.volume)

/-- Two places are one directory when they are one path of one file system, whatever
the mounts through which it is seen. -/
def SameDirectory (vfs : Vfs) (one two : Place Text) : Prop := volumeOf vfs one = volumeOf vfs two ∧ one.path = two.path

instance (vfs : Vfs) (one two : Place Text) : Decidable (SameDirectory vfs one two) :=
  inferInstanceAs (Decidable (_ ∧ _))

variable {vfs : Vfs} {task : Context Text}

theorem validateFrom_text {seen tiers : List Text}
    (accepted : validateFrom vfs task seen tiers = .ok ()) : ∀ tier ∈ tiers, tier ≠ [] ∧ ':' ∉ tier := by
  induction tiers generalizing seen with
  | nil => exact fun _ member => (List.not_mem_nil member).elim
  | cons tier rest ih =>
    rw [validateFrom] at accepted
    split at accepted
    · cases accepted
    next absolute =>
    split at accepted
    · cases accepted
    next allowed =>
    split at accepted
    · cases accepted
    split at accepted
    · cases accepted
    split at accepted
    · cases accepted
    intro other member
    rcases List.mem_cons.mp member with rfl | later
    · constructor
      · rintro rfl
        exact absolute rfl
      · intro colon
        exact allowed (List.any_eq_true.mpr ⟨':',colon,by decide⟩)
    · exact ih accepted other later

variable {capable : Place Text → Bool} {tiers : List (Place Text)}

/-- An empty part is passed over, any other is looked up while there is room for a tier. -/
theorem resolveFrom_cons {rank : Nat} {part : Text} {rest : List Text}
    (resolved : resolveFrom vfs task capable rank (part::rest) = .ok tiers) :
    part = [] ∧ resolveFrom vfs task capable rank rest = .ok tiers ∨
      rank < maxTiers ∧ ∃ place others, lookup vfs task part = .ok place ∧
        resolveFrom vfs task capable (rank + 1) rest = .ok others ∧ tiers = place::others := by
  rw [resolveFrom] at resolved
  split at resolved
  next empty => exact .inl ⟨empty,resolved⟩
  split at resolved
  · cases resolved
  next room =>
  split at resolved
  · cases resolved
  next place there =>
  split at resolved
  · cases resolved
  split at resolved
  · cases resolved
  cases later : resolveFrom vfs task capable (rank + 1) rest with
  | error error => rw [later] at resolved; cases resolved
  | ok others =>
    rw [later] at resolved
    cases resolved
    exact .inr ⟨Nat.lt_of_not_le room,place,others,there,rfl,rfl⟩

theorem resolveFrom_places {rank : Nat} {parts : List Text} (resolved : resolveFrom vfs task capable rank parts = .ok tiers)
    (named : ∀ part ∈ parts, part ≠ []) : List.Forall₂ (fun part tier => lookup vfs task part = .ok tier) parts tiers := by
  induction parts generalizing rank tiers with
  | nil => cases resolved; exact .nil
  | cons part rest ih =>
    obtain ⟨empty,_⟩ | ⟨_,place,others,there,later,rfl⟩ := resolveFrom_cons resolved
    · exact absurd empty (named part List.mem_cons_self)
    · exact .cons there (ih later fun other member => named other (List.mem_cons_of_mem _ member))

variable {texts : List Text}

theorem resolveTiers_places {daemon : Context Text} (accepted : validateTiers vfs daemon texts = .ok ())
    (resolved : resolveTiers vfs task capable (tiersOption texts) = .ok tiers) :
    List.Forall₂ (fun text tier => lookup vfs task text = .ok tier) texts tiers := by
  unfold validateTiers at accepted
  split at accepted
  · cases accepted
  next some =>
  have text := validateFrom_text accepted
  unfold resolveTiers tiersOption at resolved
  rw [List.splitOn_intercalate ':' (fun tier member => (text tier member).2) some] at resolved
  split at resolved
  · cases resolved
  · cases resolved
  · next found steps =>
    cases resolved
    exact resolveFrom_places steps fun tier member => (text tier member).1

variable {machine : Machine}

theorem lookup_inside {task : Task machine} {text : Text} {place : Place Text}
    (found : lookup machine.vfs task.context text = .ok place) : machine.vfs.Inside place := by
  unfold lookup at found
  split at found
  · cases found
  cases walked : machine.vfs.follow task.context.root maxLinks
      (if isAbs text then task.context.root else task.context.cwd) (components text) with
  | error error => rw [walked] at found; cases found
  | ok reached =>
    rw [walked] at found
    cases found
    refine Mounts.follow_inside machine.formed task.root ?_ walked
    split
    · exact task.root
    · exact task.cwd

theorem places_inside {task : Task machine}
    (places : List.Forall₂ (fun text tier => lookup machine.vfs task.context text = .ok tier) texts tiers) :
    ∀ tier ∈ tiers, machine.vfs.Inside tier := by
  induction places with
  | nil => exact fun _ member => (List.not_mem_nil member).elim
  | cons found _ ih =>
    intro tier member
    rcases List.mem_cons.mp member with rfl | later
    · exact lookup_inside found
    · exact ih tier later

theorem resolveFrom_bounded {rank : Nat} {parts : List Text} (within : rank ≤ maxTiers)
    (resolved : resolveFrom vfs task capable rank parts = .ok tiers) : rank + tiers.length ≤ maxTiers := by
  induction parts generalizing rank tiers with
  | nil => cases resolved; exact within
  | cons part rest ih =>
    obtain ⟨_,later⟩ | ⟨room,place,others,_,later,rfl⟩ := resolveFrom_cons resolved
    · exact ih within later
    · have bound := ih room later
      rw [List.length_cons]
      omega

theorem tierOf_eq (apart : (tiers.map (·.mount)).Nodup) {index : Nat} {tier : Place Text}
    (there : tiers[index]? = some tier) : tierOf tiers tier.mount = index := by
  obtain ⟨bound,same⟩ := List.getElem?_eq_some_iff.mp there
  have first : tiers.findIdx? (·.mount = tier.mount) = some index := by
    rw [List.findIdx?_eq_some_iff_getElem]
    refine ⟨bound,by rw [same]; exact decide_eq_true rfl,fun earlier before => ?_⟩
    rw [decide_eq_true_eq,← same]
    exact List.pairwise_iff_getElem.mp (List.pairwise_map.mp apart) earlier index (Nat.lt_trans before bound) bound before
  rw [tierOf,first]
  rfl

theorem tierOf_found (bounded : tiers.length ≤ maxTiers) {index mount : Nat} (bound : index < tiers.length)
    (told : tierOf tiers mount = index) : tiers.findIdx? (·.mount = mount) = some index := by
  unfold tierOf at told
  cases found : tiers.findIdx? (·.mount = mount) with
  | none =>
    rw [found,Option.getD_none] at told
    omega
  | some first => rw [found] at told; exact congrArg some told

/-- No two tiers are one directory, and the mount of whatever is reached under a tier tells which
it is. -/
structure ToldApart (vfs : Vfs) (tiers : List (Place Text)) : Prop where
  distinct : tiers.Pairwise fun one two => ¬SameDirectory vfs one two
  told : ∀ (i : Nat) (tier : Place Text) (links : Nat) (path : List (Option Text)) (found : Place Text), tiers[i]? = some tier →
    vfs.follow tier links tier path = .ok found → tierOf tiers found.mount = i

structure Separate (vfs : Vfs) (tiers : List (Place Text)) : Prop where
  directories : tiers.Pairwise fun one two => ¬SameDirectory vfs one two
  mounts : (tiers.map (·.mount)).Nodup
  bare : ∀ tier ∈ tiers, ∀ place, Mounts.Under tier place → vfs.mountedOn place = none

theorem separate_told (inside : ∀ tier ∈ tiers, vfs.Inside tier) (separate : Separate vfs tiers) : ToldApart vfs tiers := by
  refine ⟨separate.directories,fun i tier links path found there reached => ?_⟩
  have member : tier ∈ tiers := List.mem_of_getElem? there
  have under := Mounts.follow_under (inside tier member) (separate.bare tier member) reached
  rw [under.1]
  exact tierOf_eq separate.mounts there

theorem told_separate (formed : vfs.Formed) (bounded : tiers.length ≤ maxTiers) (apart : ToldApart vfs tiers) : Separate vfs tiers := by
  refine ⟨apart.distinct,List.pairwise_map.mpr (List.pairwise_iff_getElem.mpr fun i j first second less same => ?_),
    fun tier member place under => ?_⟩
  · have told := apart.told j tiers[j] 0 [] tiers[j] (List.getElem?_eq_getElem second) rfl
    obtain ⟨_,_,none⟩ := List.findIdx?_eq_some_iff_getElem.mp (tierOf_found bounded second told)
    exact none i less (decide_eq_true same)
  · obtain ⟨i,bound,rfl⟩ := List.mem_iff_getElem.mp member
    refine Mounts.bare_below formed (fun path found reached => ?_) under
    have told := apart.told i tiers[i] 0 path found (List.getElem?_eq_getElem bound) (by rw [Mounts.follow,reached])
    obtain ⟨_,same,_⟩ := List.findIdx?_eq_some_iff_getElem.mp (tierOf_found bounded bound told)
    exact (of_decide_eq_true same).symm

/-- The tiers of an accepted list are told apart just when they are different directories of
different mounts with nothing mounted on or below them. -/
theorem tiers_told_apart (machine : Machine) (daemon : Context Text) (task : Task machine) (capable : Place Text → Bool)
    (texts : List Text) (tiers : List (Place Text)) (accepted : validateTiers machine.vfs daemon texts = .ok ())
    (resolved : resolveTiers machine.vfs task.context capable (tiersOption texts) = .ok tiers) :
    ToldApart machine.vfs tiers ↔ Separate machine.vfs tiers := by
  have bounded : tiers.length ≤ maxTiers := by
    unfold resolveTiers at resolved
    split at resolved
    · cases resolved
    · cases resolved
    · next found steps =>
      cases resolved
      exact (Nat.zero_add _).symm.trans_le (resolveFrom_bounded (Nat.zero_le _) steps)
  exact ⟨told_separate machine.formed bounded,separate_told (places_inside (resolveTiers_places accepted resolved))⟩

def shelf : Tree Text Unit where
  entries := [(["a".toList],⟨.dir,()⟩),(["b".toList],⟨.dir,()⟩),(["l".toList],⟨.symlink false [some "a".toList],()⟩)]
  distinct := by decide
  rooted := by decide
  closed := by decide

def twoDisks : Machine where
  vfs := ⟨fun volume => if volume = 0 then shelf else .empty,[⟨0,[],none⟩,⟨1,[],some ⟨0,["a".toList]⟩⟩,⟨2,[],some ⟨0,["b".toList]⟩⟩]⟩
  formed := by
    intro mount shown there parent on
    have listed := List.getElem?_eq_some_iff.mp there
    obtain ⟨bound,same⟩ := listed
    match mount, bound with
    | 0, _ => cases same; cases on
    | 1, _ => cases same; cases on; exact ⟨⟨_,rfl,List.nil_suffix⟩,.inr ⟨⟨.dir,()⟩,rfl,nofun⟩,by decide⟩
    | 2, _ => cases same; cases on; exact ⟨⟨_,rfl,List.nil_suffix⟩,.inr ⟨⟨.dir,()⟩,rfl,nofun⟩,by decide⟩

def oneDisk : Machine where
  vfs := ⟨fun _ => shelf,[⟨0,[],none⟩]⟩
  formed := by
    intro mount shown there parent on
    cases List.mem_singleton.mp (List.mem_of_getElem? there)
    cases on

def atRoot : Context Text := ⟨⟨0,[]⟩,⟨0,[]⟩⟩

theorem two_disks_told_apart :
    validateTiers twoDisks.vfs atRoot ["/a".toList,"/b/.".toList] = .ok () ∧
      resolveTiers twoDisks.vfs atRoot (fun _ => true) (tiersOption ["/a".toList,"/b/.".toList]) = .ok [⟨1,[]⟩,⟨2,[]⟩] ∧
      ToldApart twoDisks.vfs [⟨1,[]⟩,⟨2,[]⟩] := by
  have accepted : validateTiers twoDisks.vfs atRoot ["/a".toList,"/b/.".toList] = .ok () := by decide +kernel
  have resolved : resolveTiers twoDisks.vfs atRoot (fun _ => true) (tiersOption ["/a".toList,"/b/.".toList]) =
      .ok [⟨1,[]⟩,⟨2,[]⟩] := by decide +kernel
  have inside : twoDisks.vfs.Inside ⟨0,[]⟩ := ⟨⟨0,[],none⟩,rfl,List.nil_suffix⟩
  have bare : ∀ tier ∈ [(⟨1,[]⟩ : Place Text),⟨2,[]⟩], ∀ place, Mounts.Under tier place → twoDisks.vfs.mountedOn place = none := by
    intro tier member place under
    cases on : twoDisks.vfs.mountedOn place with
    | none => rfl
    | some mount =>
      -- Both disks stand on the first mount, and no tier is of that.
      obtain ⟨shown,there,parent⟩ := Mounts.mountedOn_shown on
      have listed := List.mem_of_getElem? there
      have mountIs := under.1
      simp only [twoDisks,List.mem_cons,List.not_mem_nil,or_false] at listed member
      rcases listed with rfl | rfl | rfl <;> cases parent <;> rcases member with rfl | rfl <;> cases mountIs
  have apart := (tiers_told_apart twoDisks atRoot ⟨atRoot,inside,inside⟩ (fun _ => true) _ _ accepted resolved).mpr
    ⟨by decide +kernel,by decide +kernel,bare⟩
  exact ⟨accepted,resolved,apart⟩

/-- Two directories of one mount, and one directory under three names: all are accepted. -/
theorem tiers_of_one_mount_confused :
    (validateTiers oneDisk.vfs atRoot ["/a".toList,"/b".toList] = .ok () ∧
      resolveTiers oneDisk.vfs atRoot (fun _ => true) (tiersOption ["/a".toList,"/b".toList]) =
        .ok [⟨0,["a".toList]⟩,⟨0,["b".toList]⟩] ∧ ¬ToldApart oneDisk.vfs [⟨0,["a".toList]⟩,⟨0,["b".toList]⟩]) ∧
      validateTiers oneDisk.vfs atRoot ["/a".toList,"/l".toList,"/b/../a/".toList] = .ok () ∧
      resolveTiers oneDisk.vfs atRoot (fun _ => true) (tiersOption ["/a".toList,"/l".toList,"/b/../a/".toList]) =
        .ok [⟨0,["a".toList]⟩,⟨0,["a".toList]⟩,⟨0,["a".toList]⟩] ∧
      ¬ToldApart oneDisk.vfs [⟨0,["a".toList]⟩,⟨0,["a".toList]⟩,⟨0,["a".toList]⟩] := by
  refine ⟨⟨by decide +kernel,by decide +kernel,fun apart => ?_⟩,by decide +kernel,by decide +kernel,fun apart => ?_⟩
  · have told := apart.told 1 ⟨0,["b".toList]⟩ 0 [] _ rfl rfl
    exact absurd told (by decide +kernel)
  · exact absurd apart.distinct (by decide +kernel)

end Smoothfs.TierPaths
