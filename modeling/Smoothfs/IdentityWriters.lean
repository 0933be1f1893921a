import Smoothfs.Identity
import Smoothfs.Library.Tree

/-! Who gives a lower file its identity within one mount: `smoothfs_iget` in memory and
through the writeback queue, a truncate or a cutover that adopts a file for an object,
and the scan that rebuilds the path index. No writer replaces an attribute. -/
namespace Smoothfs.Identity
open Run

/-- `minting` are the files for which an identity is being allocated, `scanning` those that the scan
found without one. -/
structure State where
  cache : Icache
  files : List File
  xattr : File → Option ObjectId
  pending : List (File × ObjectId)
  flying : List (File × ObjectId)
  minting : List File
  scanning : List File
  history : List (File × ObjectId)

def mounted (files : List (File × Option ObjectId)) : State :=
  ⟨⟨[],[]⟩,files.map Prod.fst,fun file => (files.find? (·.1 = file)).bind Prod.snd,[],[],[],[],[]⟩

inductive Label
  | appear (file : File)
  | create (file : File)
  | lookup (file : File)
  | mint (file : File) (oid : ObjectId)
  | splice
  | write
  | evict (ino : BitVec 64)
  | persist (ino : BitVec 64)
  | rehome (ino : BitVec 64) (dest : File)
  | cutover (ino : BitVec 64) (dest : File)
  | scanRead (file : File)
  | scanWrite (file : File) (oid : ObjectId)
  deriving DecidableEq, Repr

def createXattr (xattr : File → Option ObjectId) (file : File) (oid : ObjectId) : File → Option ObjectId :=
  fun other => if other = file ∧ xattr file = none then some oid else xattr other

def State.peek (state : State) (file : File) : Option ObjectId := (state.pending.find? (·.1 = file)).map Prod.snd

def State.instantiated (state : State) (file : File) (result : Inode × Icache) : State :=
  {state with cache := result.2, history := (file,result.1.oid)::state.history}

def rebacked (setting : Setting) (cache : Icache) (inode : Inode) (dest : File) : Icache :=
  let swap (other : Inode) : Inode := if other.ino = inode.ino then {inode with file := dest} else other
  let swapped : Icache := {cache with inodes := cache.inodes.map swap}
  (swapped.mapRemove (setting.key inode.file)).mapInsert (setting.key dest) inode.ino

def adopt (setting : Setting) (state : State) (inode : Inode) (dest : File) : State :=
  {state with xattr := createXattr state.xattr dest inode.oid, cache := rebacked setting state.cache inode dest}

/-- An iget that finds no identity waits for an entry that the worker holds. -/
def step (setting : Setting) (state : State) : Label → Option State
  | .appear file => if file ∈ state.files then none else some {state with files := file::state.files}
  | .create file =>
    if file ∈ state.files then none
    else some {state with
      files := file::state.files
      cache := (cached setting state.cache file).2
      minting := file::state.minting}
  | .lookup file =>
    if file ∈ state.files then
      match cached setting state.cache file, state.xattr file <|> state.peek file with
      | (some inode,cache), _ => some (state.instantiated file (inode,cache))
      | (none,cache), some oid => some (state.instantiated file (igetLocked setting cache oid file))
      | (none,cache), none =>
        if state.flying.any (·.1 = file) then none else some {state with cache := cache, minting := file::state.minting}
    else none
  | .mint file oid =>
    if file ∈ state.minting then
      some {state.instantiated file (igetLocked setting state.cache oid file) with
        pending := state.pending ++ [(file,oid)]
        minting := state.minting.erase file}
    else none
  | .splice => if state.flying = [] then some {state with flying := state.pending, pending := []} else none
  | .write =>
    match state.flying with
    | [] => none
    | (file,oid)::rest => some {state with xattr := createXattr state.xattr file oid, flying := rest}
  | .evict ino => some {state with cache := evictInode setting state.cache ino}
  | .persist ino =>
    (state.cache.ilookup ino).map fun inode => {state with xattr := createXattr state.xattr inode.file inode.oid}
  | .rehome ino dest =>
    match state.cache.ilookup ino with
    | some inode => if dest ∈ state.files then some (adopt setting state inode dest) else none
    | none => none
  | .cutover ino dest =>
    match state.cache.ilookup ino with
    | some inode =>
      if dest ∈ state.files then
        if state.xattr dest = none ∨ state.xattr dest = some inode.oid then some (adopt setting state inode dest) else some state
      else none
    | none => none
  | .scanRead file =>
    if file ∈ state.files ∧ state.xattr file = none then some {state with scanning := file::state.scanning} else none
  | .scanWrite file oid =>
    if file ∈ state.scanning ∧ file ∈ state.files then
      some {state with xattr := createXattr state.xattr file oid, scanning := state.scanning.erase file}
    else none

def Free (state : State) (file : File) (oid : ObjectId) : Prop :=
  file ∉ state.minting ∧ ∀ item ∈ state.flying ++ state.pending, item.1 = file → item.2 = oid

instance (state : State) (file : File) (oid : ObjectId) : Decidable (Free state file oid) := inferInstanceAs (Decidable (_ ∧ _))

/-- No inode in memory has the identity's number and another identity. -/
def Apart (setting : Setting) (state : State) (oid : ObjectId) : Prop :=
  ∀ inode ∈ state.cache.inodes, inode.ino = setting.inodeNoFromOid oid → inode.oid = oid

instance (setting : Setting) (state : State) (oid : ObjectId) : Decidable (Apart setting state oid) :=
  inferInstanceAs (Decidable (∀ _ ∈ _, _))

/-- One file is not instantiated twice at a time, inode numbers do not collide, the scan mints only
where the mount holds no identity, and a file with another identity is not adopted. -/
def Guard (setting : Setting) (state : State) : Label → Prop
  | .lookup file => file ∉ state.minting ∧ (state.xattr file <|> state.peek file).elim True (Apart setting state)
  | .mint _ oid => Apart setting state oid
  | .scanWrite file oid => state.xattr file = none → Free state file oid
  | .rehome ino dest => (state.cache.ilookup ino).elim True fun inode =>
      Free state dest inode.oid ∧ (state.xattr dest = none ∨ state.xattr dest = some inode.oid)
  | .cutover ino dest => (state.cache.ilookup ino).elim True fun inode => Free state dest inode.oid
  | _ => True

instance decidableElim {α : Type} (found : Option α) (holds : α → Prop) [∀ value, Decidable (holds value)] :
    Decidable (found.elim True holds) :=
  match found with
  | none => .isTrue trivial
  | some value => inferInstanceAs (Decidable (holds value))

instance decidableGuard (setting : Setting) (state : State) : (label : Label) → Decidable (Guard setting state label)
  | .lookup _ => inferInstanceAs (Decidable (_ ∧ _))
  | .mint _ oid => inferInstanceAs (Decidable (Apart setting state oid))
  | .scanWrite _ _ => inferInstanceAs (Decidable (_ → _))
  | .rehome _ _ | .cutover _ _ => inferInstanceAs (Decidable (Option.elim _ True _))
  | .appear _ | .create _ | .splice | .write | .evict _ | .persist _ | .scanRead _ => inferInstanceAs (Decidable True)

def Known (state : State) (file : File) (oid : ObjectId) : Prop :=
  state.xattr file = some oid ∨ (file,oid) ∈ state.flying ++ state.pending

structure Kept (state : State) : Prop where
  unique : ∀ file one two, Known state file one → Known state file two → one = two
  present : ∀ file oid, Known state file oid → file ∈ state.files
  backing : ∀ inode ∈ state.cache.inodes, Known state inode.file inode.oid
  remembered : ∀ item ∈ state.history, Known state item.1 item.2
  unmade : ∀ file ∈ state.minting, file ∈ state.files ∧ ∀ oid, ¬ Known state file oid
  once : state.minting.Nodup

section Kept

variable {setting : Setting} {state next : State} {file : File} {oid : ObjectId}

theorem known_createXattr (f : File) (o : ObjectId) :
    createXattr state.xattr file oid f = some o ↔ state.xattr f = some o ∨ f = file ∧ o = oid ∧ state.xattr file = none := by
  unfold createXattr
  split
  · next made =>
    obtain ⟨rfl,none⟩ := made
    rw [none]
    constructor
    · intro same
      exact .inr ⟨rfl,(Option.some.inj same).symm,rfl⟩
    · rintro (absent | ⟨_,rfl,_⟩)
      · cases absent
      · rfl
  · next other =>
    constructor
    · exact .inl
    · rintro (same | ⟨rfl,_,none⟩)
      · exact same
      · exact absurd ⟨rfl,none⟩ other

theorem Kept.steady (kept : Kept state) (known : ∀ f o, Known next f o ↔ Known state f o)
    (files : ∀ f ∈ state.files, f ∈ next.files) (inodes : ∀ inode ∈ next.cache.inodes, Known state inode.file inode.oid)
    (history : ∀ item ∈ next.history, Known state item.1 item.2)
    (unmade : ∀ f ∈ next.minting, f ∈ next.files ∧ ∀ o, ¬ Known state f o) (once : next.minting.Nodup) : Kept next where
  unique f one two left right := kept.unique f one two ((known f one).mp left) ((known f two).mp right)
  present f o there := files f (kept.present f o ((known f o).mp there))
  backing inode member := (known _ _).mpr (inodes inode member)
  remembered item member := (known _ _).mpr (history item member)
  unmade f member := ⟨(unmade f member).1,fun o there => (unmade f member).2 o ((known f o).mp there)⟩
  once := once

theorem Kept.learn (kept : Kept state) (there : file ∈ state.files) (own : ∀ other, Known state file other → other = oid)
    (known : ∀ f o, Known next f o ↔ Known state f o ∨ f = file ∧ o = oid) (files : next.files = state.files)
    (inodes : ∀ inode ∈ next.cache.inodes, Known state inode.file inode.oid ∨ inode.file = file ∧ inode.oid = oid)
    (history : ∀ item ∈ next.history, Known state item.1 item.2 ∨ item.1 = file ∧ item.2 = oid)
    (minting : next.minting.Sublist state.minting) (made : file ∉ next.minting) : Kept next where
  unique f one two left right := by
    rcases (known f one).mp left with left | ⟨rfl,rfl⟩ <;> rcases (known _ two).mp right with right | ⟨same,rfl⟩
    · exact kept.unique f one two left right
    · exact own one (same ▸ left)
    · exact (own two right).symm
    · rfl
  present f o learned := by
    rw [files]
    rcases (known f o).mp learned with before | ⟨rfl,_⟩
    · exact kept.present f o before
    · exact there
  backing inode member := (known _ _).mpr (inodes inode member)
  remembered item member := (known _ _).mpr (history item member)
  unmade f member := by
    obtain ⟨listed,absent⟩ := kept.unmade f (minting.subset member)
    refine ⟨files ▸ listed,fun o learned => ?_⟩
    rcases (known f o).mp learned with before | ⟨rfl,_⟩
    · exact absent o before
    · exact made member
  once := kept.once.sublist minting

theorem Kept.got (kept : Kept state) {inode : Inode} {later : Icache} (apart : Apart setting state oid)
    (got : Got setting state.cache oid file inode later) : (Known state file inode.oid ∨ inode.oid = oid) ∧
      ∀ other ∈ later.inodes, Known state other.file other.oid ∨ other.file = file ∧ other.oid = oid := by
  cases got with
  | backed member own same =>
    exact ⟨.inl (own ▸ kept.backing inode member),fun other there => .inl (kept.backing other (same ▸ there))⟩
  | numbered member number same =>
    exact ⟨.inr (apart inode member number),fun other there => .inl (kept.backing other (same ▸ there))⟩
  | new absent added =>
    refine ⟨.inr rfl,fun other there => ?_⟩
    rw [added] at there
    rcases List.mem_cons.mp there with rfl | older
    · exact .inr ⟨rfl,rfl⟩
    · exact .inl (kept.backing other older)

theorem peek_known (found : (state.xattr file <|> state.peek file) = some oid) : Known state file oid := by
  cases labelled : state.xattr file with
  | some own =>
    rw [labelled] at found
    exact .inl (labelled.trans found)
  | none =>
    rw [labelled] at found
    exact .inr (List.mem_append_right _ (Tree.mem_of_find_key found))

theorem peek_unknown (absent : (state.xattr file <|> state.peek file) = none)
    (landed : ¬ state.flying.any (fun item => decide (item.1 = file)) = true) (o : ObjectId) : ¬ Known state file o := by
  cases labelled : state.xattr file with
  | some own => rw [labelled] at absent; cases absent
  | none =>
    rw [labelled] at absent
    have waiting := List.find?_eq_none.mp (Option.map_eq_none_iff.mp (show state.peek file = none from absent))
    rintro (own | queued)
    · rw [labelled] at own
      cases own
    · rcases List.mem_append.mp queued with held | later
      · exact landed (List.any_eq_true.mpr ⟨_,held,decide_eq_true rfl⟩)
      · exact waiting _ later (decide_eq_true rfl)

theorem known_own (kept : Kept state) (own : Known state file oid) (same : next.xattr = createXattr state.xattr file oid)
    (queue : ∀ item, item ∈ next.flying ++ next.pending → item ∈ state.flying ++ state.pending)
    (left : ∀ f o, (f,o) ∈ state.flying ++ state.pending → (f,o) ∈ next.flying ++ next.pending ∨ f = file ∧ o = oid)
    (f : File) (o : ObjectId) : Known next f o ↔ Known state f o := by
  unfold Known
  rw [same,known_createXattr]
  constructor
  · rintro ((before | ⟨rfl,rfl,_⟩) | queued)
    · exact .inl before
    · exact own
    · exact .inr (queue _ queued)
  · rintro (before | queued)
    · exact .inl (.inl before)
    · rcases left f o queued with still | ⟨rfl,rfl⟩
      · exact .inr still
      · cases labelled : state.xattr f with
        | none => exact .inl (.inr ⟨rfl,rfl,rfl⟩)
        | some other =>
          have one : other = o := kept.unique f other o (.inl labelled) own
          exact .inl (.inl (congrArg some one))

theorem known_created (clear : state.xattr file = none ∨ state.xattr file = some oid)
    (same : next.xattr = createXattr state.xattr file oid) (flying : next.flying = state.flying)
    (pending : next.pending = state.pending) (f : File) (o : ObjectId) :
    Known next f o ↔ Known state f o ∨ f = file ∧ o = oid := by
  unfold Known
  rw [same,known_createXattr,flying,pending]
  constructor
  · rintro ((before | ⟨rfl,rfl,_⟩) | queued)
    · exact .inl (.inl before)
    · exact .inr ⟨rfl,rfl⟩
    · exact .inl (.inr queued)
  · rintro ((before | queued) | ⟨rfl,rfl⟩)
    · exact .inl (.inl before)
    · exact .inr queued
    · rcases clear with none | own
      · exact .inl (.inr ⟨rfl,rfl,none⟩)
      · exact .inl (.inl own)

theorem own_of_free (free : Free state file oid) (clear : state.xattr file = none ∨ state.xattr file = some oid) (other : ObjectId)
    (known : Known state file other) : other = oid := by
  rcases known with labelled | queued
  · rcases clear with none | own
    · rw [none] at labelled
      cases labelled
    · exact Option.some.inj (labelled.symm.trans own)
  · exact free.2 _ queued rfl

theorem Kept.adopt (kept : Kept state) {inode : Inode} (there : file ∈ state.files) (free : Free state file inode.oid)
    (clear : state.xattr file = none ∨ state.xattr file = some inode.oid) : Kept (adopt setting state inode file) := by
  refine kept.learn there (own_of_free free clear) (known_created clear rfl rfl rfl) rfl ?_
    (fun item member => .inl (kept.remembered item member))
    (List.Sublist.refl _) free.1
  intro other member
  rw [Identity.adopt,rebacked,inodes_mapInsert] at member
  obtain ⟨before,listed,rfl⟩ := List.mem_map.mp member
  split
  · exact .inr ⟨rfl,rfl⟩
  · exact .inl (kept.backing before listed)

theorem Kept.begun (kept : Kept state) {files : List File} {cache : Icache} (more : ∀ f ∈ state.files, f ∈ files) (there : file ∈ files)
    (absent : ∀ o, ¬ Known state file o) (alone : file ∉ state.minting) (inodes : cache.inodes = state.cache.inodes) :
    Kept {state with files := files, cache := cache, minting := file::state.minting} := by
  refine kept.steady (fun _ _ => Iff.rfl) more (fun inode listed => kept.backing inode (inodes ▸ listed)) kept.remembered ?_
    (List.nodup_cons.mpr ⟨alone,kept.once⟩)
  intro f member
  rcases List.mem_cons.mp member with rfl | older
  · exact ⟨there,absent⟩
  · obtain ⟨listed,unknown⟩ := kept.unmade f older
    exact ⟨more f listed,unknown⟩

theorem Kept.lookup (kept : Kept state) (met : Guard setting state (.lookup file))
    (taken : step setting state (.lookup file) = some next) : Kept next := by
  obtain ⟨there,taken⟩ := Option.ite_none_right_eq_some.mp taken
  split at taken
  · next inode cache hit =>
    cases taken
    obtain ⟨member,own⟩ := cached_some hit
    refine kept.steady (fun _ _ => Iff.rfl) (fun _ => id) (fun other listed => kept.backing other ?_) ?_ kept.unmade kept.once
    · rw [← inodes_cached hit]
      exact listed
    · intro item listed
      rcases List.mem_cons.mp listed with rfl | older
      · exact own ▸ kept.backing inode member
      · exact kept.remembered item older
  · next cache oid missed found =>
    cases taken
    have known := peek_known found
    have apart : Apart setting state oid := by
      have met := met.2
      rw [found] at met
      exact met
    obtain ⟨returned,inodes⟩ := kept.got apart ((igetLocked_got setting cache oid file).of_inodes (inodes_cached missed))
    refine kept.steady (fun _ _ => Iff.rfl) (fun _ => id) (fun inode listed => ?_) ?_ kept.unmade kept.once
    · rcases inodes inode listed with before | ⟨own,same⟩
      · exact before
      · rw [own,same]
        exact known
    · intro item listed
      rcases List.mem_cons.mp listed with rfl | older
      · rcases returned with before | same
        · exact before
        · dsimp only
          rw [same]
          exact known
      · exact kept.remembered item older
  · next cache missed absent =>
    split at taken
    · cases taken
    · next landed =>
      cases taken
      exact kept.begun (fun _ => id) there (peek_unknown absent landed) met.1 (inodes_cached missed)

theorem Kept.mint (kept : Kept state) (met : Apart setting state oid) (member : file ∈ state.minting) :
    Kept {state.instantiated file (igetLocked setting state.cache oid file) with
      pending := state.pending ++ [(file,oid)]
      minting := state.minting.erase file} := by
  obtain ⟨there,absent⟩ := kept.unmade file member
  obtain ⟨returned,inodes⟩ := kept.got met (igetLocked_got setting state.cache oid file)
  refine kept.learn there (fun other known => absurd known (absent other)) ?_ rfl inodes ?_ List.erase_sublist kept.once.not_mem_erase
  · intro f o
    simp [Known,State.instantiated,or_assoc]
  · intro item listed
    rcases List.mem_cons.mp listed with rfl | older
    · rcases returned with before | same
      · exact .inl before
      · exact .inr ⟨rfl,same⟩
    · exact .inl (kept.remembered item older)

theorem Kept.written (kept : Kept state) {rest : List (File × ObjectId)} (held : state.flying = (file,oid)::rest) :
    Kept {state with xattr := createXattr state.xattr file oid, flying := rest} := by
  -- what the worker took was the file's own identity all along
  have own : Known state file oid := .inr (by rw [held]; exact List.mem_cons_self)
  refine kept.steady (known_own kept own rfl ?_ ?_) (fun _ => id) kept.backing kept.remembered kept.unmade kept.once
  · intro item queued
    rw [held]
    exact List.mem_cons_of_mem _ queued
  · intro f o queued
    rw [held] at queued
    rcases List.mem_cons.mp queued with first | later
    · cases first
      exact .inr ⟨rfl,rfl⟩
    · exact .inl later

theorem Kept.scanned (kept : Kept state) (there : file ∈ state.files) (free : state.xattr file = none → Free state file oid) :
    Kept {state with xattr := createXattr state.xattr file oid, scanning := state.scanning.erase file} := by
  by_cases clear : state.xattr file = none
  · exact kept.learn there (own_of_free (free clear) (.inl clear)) (known_created (.inl clear) rfl rfl rfl) rfl
      (fun inode member => .inl (kept.backing inode member)) (fun item member => .inl (kept.remembered item member))
      (List.Sublist.refl _) (free clear).1
  -- by now the file has an attribute, and the write is answered EEXIST
  refine kept.steady (fun f o => ?_) (fun _ => id) kept.backing kept.remembered kept.unmade kept.once
  unfold Known
  rw [known_createXattr]
  simp [clear]

theorem Kept.unknown (kept : Kept state) (absent : file ∉ state.files) (o : ObjectId) : ¬ Known state file o :=
  fun known => absent (kept.present file o known)

theorem Kept.step {label : Label} (kept : Kept state) (met : Guard setting state label)
    (taken : step setting state label = some next) : Kept next := by
  cases label with
  | appear file =>
    obtain ⟨_,same⟩ := Option.ite_none_left_eq_some.mp taken
    cases same
    exact kept.steady (fun _ _ => Iff.rfl) (fun _ => List.mem_cons_of_mem _) kept.backing kept.remembered
      (fun f member => ⟨List.mem_cons_of_mem _ (kept.unmade f member).1,(kept.unmade f member).2⟩) kept.once
  | create file =>
    obtain ⟨absent,same⟩ := Option.ite_none_left_eq_some.mp taken
    cases same
    exact kept.begun (fun _ => List.mem_cons_of_mem _) List.mem_cons_self (kept.unknown absent)
      (fun member => absent (kept.unmade file member).1) (inodes_cached rfl)
  | lookup file => exact kept.lookup met taken
  | mint file oid =>
    obtain ⟨member,same⟩ := Option.ite_none_right_eq_some.mp taken
    cases same
    exact kept.mint met member
  | splice =>
    obtain ⟨idle,same⟩ := Option.ite_none_right_eq_some.mp taken
    cases same
    have known : ∀ f o, Known {state with flying := state.pending, pending := []} f o ↔ Known state f o := by
      simp [Known,idle]
    exact kept.steady known (fun _ => id) kept.backing kept.remembered kept.unmade kept.once
  | write =>
    simp only [Identity.step] at taken
    split at taken
    · cases taken
    · next file oid rest held =>
      cases taken
      exact kept.written held
  | evict ino =>
    cases taken
    exact kept.steady (fun _ _ => Iff.rfl) (fun _ => id) (fun inode listed => kept.backing inode (mem_evictInode listed))
      kept.remembered kept.unmade kept.once
  | persist ino =>
    obtain ⟨inode,found,rfl⟩ := Option.map_eq_some_iff.mp taken
    have own := kept.backing inode (ilookup_some found).1
    exact kept.steady (known_own kept own rfl (fun _ => id) fun _ _ queued => .inl queued) (fun _ => id) kept.backing kept.remembered
      kept.unmade kept.once
  | rehome ino dest =>
    simp only [Identity.step] at taken
    split at taken
    · next inode found =>
      obtain ⟨there,same⟩ := Option.ite_none_right_eq_some.mp taken
      cases same
      rw [Guard,found] at met
      exact kept.adopt there met.1 met.2
    · cases taken
  | cutover ino dest =>
    simp only [Identity.step] at taken
    split at taken
    · next inode found =>
      obtain ⟨there,taken⟩ := Option.ite_none_right_eq_some.mp taken
      split at taken
      · next clear =>
        cases taken
        rw [Guard,found] at met
        exact kept.adopt there met clear
      · cases taken
        exact kept
    · cases taken
  | scanRead file =>
    obtain ⟨_,same⟩ := Option.ite_none_right_eq_some.mp taken
    cases same
    exact kept.steady (fun _ _ => Iff.rfl) (fun _ => id) kept.backing kept.remembered kept.unmade kept.once
  | scanWrite file oid =>
    obtain ⟨⟨_,there⟩,same⟩ := Option.ite_none_right_eq_some.mp taken
    cases same
    exact kept.scanned there met

end Kept

theorem mounted_kept (files : List (File × Option ObjectId)) : Kept (mounted files) := by
  have known : ∀ file oid, Known (mounted files) file oid → (files.find? (·.1 = file)).bind Prod.snd = some oid := by
    rintro file oid (labelled | queued)
    · exact labelled
    · exact (List.not_mem_nil queued).elim
  exact
    { unique := fun file one two left right => Option.some.inj ((known file one left).symm.trans (known file two right))
      present := fun file oid there => by
        obtain ⟨item,found,_⟩ := Option.bind_eq_some_iff.mp (known file oid there)
        have same : item.1 = file := by simpa using List.find?_some found
        exact List.mem_map.mpr ⟨item,List.mem_of_find?_eq_some found,same⟩
      backing := fun _ member => (List.not_mem_nil member).elim
      remembered := fun _ member => (List.not_mem_nil member).elim
      unmade := fun _ member => (List.not_mem_nil member).elim
      once := List.nodup_nil }

/-- An attribute is that of the inode it backs, and every instantiation of a file yields the same
identity. -/
theorem objects_keep_one_identity (setting : Setting) (files : List (File × Option ObjectId)) (labels : List Label) (final : State)
    (guarded : Guarded (step setting) (Guard setting) (mounted files) labels)
    (reached : run (step setting) (mounted files) labels = some final) :
    (∀ inode ∈ final.cache.inodes, ∀ oid, final.xattr inode.file = some oid → oid = inode.oid) ∧
      ∀ file one two, (file,one) ∈ final.history → (file,two) ∈ final.history → one = two := by
  have kept : Kept final :=
    Run.invariant (step setting) (Guard setting) Kept (fun _ _ _ kept met taken => kept.step met taken) (mounted files) final labels
      (mounted_kept files) guarded reached
  constructor
  · intro inode member oid labelled
    exact kept.unique inode.file oid inode.oid (.inl labelled) (kept.backing inode member)
  · intro file one two first second
    exact kept.unique file one two (kept.remembered _ first) (kept.remembered _ second)

def quietRun : List Label :=
  [.create 0,.mint 0 5,.evict (lowBits.inodeNoFromOid 5),.lookup 0,.splice,.write,.scanRead 1,.scanWrite 1 6,.lookup 1,.appear 2,
    .rehome (lowBits.inodeNoFromOid 5) 2]

theorem objects_keep_one_identity_in_a_quiet_run :
    ∃ final, run (step lowBits) (mounted [(1,none)]) quietRun = some final ∧ final.history = [(1,6),(0,5),(0,5)] ∧
      ∀ inode ∈ final.cache.inodes, ∀ oid, final.xattr inode.file = some oid → oid = inode.oid := by
  have guarded : Guarded (step lowBits) (Guard lowBits) (mounted [(1,none)]) quietRun := by decide +kernel
  have computed : ∃ final, run (step lowBits) (mounted [(1,none)]) quietRun = some final ∧
      final.history = [(1,6),(0,5),(0,5)] := reaches (by decide +kernel)
  obtain ⟨final,reached,history⟩ := computed
  exact ⟨final,reached,history,(objects_keep_one_identity lowBits [(1,none)] quietRun final guarded reached).1⟩

/-- The scan finds a new file before its identity is written and gives it another one. -/
theorem scan_replaces_a_pending_identity :
    ∃ final, run (step lowBits) (mounted []) [.create 0,.mint 0 5,.scanRead 0,.scanWrite 0 6,.splice,.write] = some final ∧
      (∃ inode ∈ final.cache.inodes, inode.oid = 5 ∧ final.xattr inode.file = some 6) ∧
      ∃ later, run (step lowBits) final [.evict (lowBits.inodeNoFromOid 5),.lookup 0] = some later ∧
        later.history = [(0,6),(0,5)] := by
  have computed : ∃ final, run (step lowBits) (mounted []) [.create 0,.mint 0 5,.scanRead 0,.scanWrite 0 6,.splice,.write] = some final ∧
      (∃ inode ∈ final.cache.inodes, inode.oid = 5 ∧ final.xattr inode.file = some 6) ∧
      (run (step lowBits) final [.evict (lowBits.inodeNoFromOid 5),.lookup 0]).any
        (fun later => decide (later.history = [(0,6),(0,5)])) = true :=
    reaches (by decide +kernel)
  obtain ⟨final,reached,other,again⟩ := computed
  exact ⟨final,reached,other,reaches again⟩

end Smoothfs.Identity
