import Smoothfs.Library.Directory
import Smoothfs.Library.Run
import Smoothfs.World

/-! What the fsync of a directory makes durable when its entries are spread over
the tiers. A pool in tier mode is used from its first mkdir on, then crashes and
is mounted again. -/
namespace Smoothfs.DirectoryFsync

open Directory Run Function

structure File where
  tier : Nat
  content : Bytes
  synced : Bool
  deriving DecidableEq, Repr

/-- The tier of a directory is that of its own `lower_path`. -/
inductive Node
  | dir (tier : Nat)
  | file (file : File)
  deriving DecidableEq, Repr

inductive Maker
  | caller
  | spill
  deriving DecidableEq, Repr

structure Link where
  maker : Maker
  tier : Nat
  path : List String
  deriving DecidableEq, Repr

/-- `pending` has the entries made since the last fsync of their directory. -/
structure State where
  ntiers : Nat
  fastest : Nat
  tiers : Nat → Entries String
  nodes : List String → Option Node
  pending : List Link

structure Space where
  near : Nat → Bool
  room : Nat → Nat
  errno : Nat → Errno

def State.link (state : State) (maker : Maker) (tier : Nat) (path : List String) : State :=
  {state with
    tiers := update state.tiers tier ((state.tiers tier).set path true)
    pending := ⟨maker,tier,path⟩::state.pending}

def parentTier (state : State) : List String → Option Nat
  | [] => some state.fastest
  | path =>
    match state.nodes path with
    | some (.dir tier) => some tier
    | _ => none

/-- With the room that is left. What it made before an error stays. -/
def materializeParentOnTier (state : State) (tier room : Nat) : List String → State × Option Nat
  | [] => (state,some room)
  | name::up =>
    match materializeParentOnTier state tier room up with
    | (made,none) => (made,none)
    | (made,some room) =>
      if (made.tiers tier).present (name::up) then (made,some room)
      else
        match room with
        | 0 => (made,none)
        | room + 1 => (made.link .spill tier (name::up),some room)

/-- The loop over the tiers: one that is full is passed over, any other error ends it. -/
def place (space : Space) (parent : Nat) (name : String) (up : List String) : List Nat → State → State × Except Errno Nat
  | [], state => (state,.error .enospc)
  | tier::rest, state =>
    if tier ≠ state.ntiers - 1 ∧ space.near tier then place space parent name up rest state
    else
      match if tier = parent then (state,some (space.room tier)) else materializeParentOnTier state tier (space.room tier) up with
      | (made,some (_ + 1)) => (made.link .caller tier (name::up),.ok tier)
      | (made,_) =>
        if space.errno tier = .enospc then place space parent name up rest made else (made,.error (space.errno tier))

def createOrder (state : State) (start : Nat) : List Nat :=
  (List.range state.ntiers).map fun attempt => (start + attempt) % state.ntiers

def mkdirOrder (state : State) : List Nat :=
  (List.range state.ntiers).filter (state.fastest ≤ ·)

def make (state : State) (space : Space) (order : List Nat) (node : Nat → Node) : List String → Option State
  | [] => none
  | name::up => do
    let parent ← parentTier state up
    if state.nodes (name::up) = none then
      match place space parent name up order state with
      | (made,.ok tier) => some {made with nodes := update made.nodes (name::up) (some (node tier))}
      | (made,.error _) => some made
    else none

def create (state : State) (path : List String) (start : Nat) (space : Space) : Option State :=
  make state space (createOrder state start) (fun tier => .file ⟨tier,[],false⟩) path

def mkdir (state : State) (path : List String) (space : Space) : Option State :=
  make state space (mkdirOrder state) .dir path

def fsyncTiers (dir : List String) (fails : Nat → Bool) : List Nat → State → State × Bool
  | [], state => (state,true)
  | tier::rest, state =>
    if (state.tiers tier).resolves dir then
      if fails tier then (state,false)
      else fsyncTiers dir fails rest {state with tiers := update state.tiers tier ((state.tiers tier).fsync dir)}
    else fsyncTiers dir fails rest state

/-- The directory's own lower directory, its copies, then the placement log. -/
def dirFsync (state : State) (dir : List String) (fails : Nat → Bool) (logFails : Bool) : Option State := do
  let home ← parentTier state dir
  match fsyncTiers dir fails (home::(List.range state.ntiers).filter (· ≠ home)) state with
  | (synced,ok) =>
    some (if ok ∧ ¬ logFails then {synced with pending := synced.pending.filter (·.path.tail ≠ dir)} else synced)

def setFile (state : State) (path : List String) (change : File → File) : Option State :=
  match state.nodes path with
  | some (.file file) => some {state with nodes := update state.nodes path (some (.file (change file)))}
  | _ => none

inductive Label
  | mkdir (path : List String) (space : Space)
  | create (path : List String) (start : Nat) (space : Space)
  | write (path : List String) (content : Bytes)
  | fsync (path : List String) (fails : Bool)
  | dirFsync (dir : List String) (fails : Nat → Bool) (logFails : Bool)
  | relookup (dir : List String) (tier : Nat)

def step (state : State) : Label → Option State
  | .mkdir path space => mkdir state path space
  | .create path start space => create state path start space
  | .write path content => setFile state path fun file => {file with content := content, synced := false}
  | .fsync path fails => setFile state path fun file => {file with synced := file.synced || !fails}
  | .dirFsync dir fails logFails => dirFsync state dir fails logFails
  | .relookup dir tier =>
    match state.nodes dir with
    | some (.dir _) =>
      if (state.tiers tier).resolves dir then some {state with nodes := update state.nodes dir (some (.dir tier))} else none
    | _ => none

def fresh (ntiers fastest : Nat) : State :=
  ⟨ntiers,fastest,fun _ => ⟨fun _ => false,fun _ => false⟩,fun _ => none,[]⟩

/-- What a crash keeps of entries and data that are not durable, and what replay puts into
`path_map`. -/
structure Crash where
  kept : Nat → List String → Bool
  torn : List String → Bytes
  mapped : List String → Option Nat

def walk (ntiers fastest : Nat) (tiers : Nat → Entries String) (mapped : List String → Option Nat) : List String → Option Nat
  | [] => some fastest
  | name::up =>
    match walk ntiers fastest tiers mapped up with
    | none => none
    | some parent =>
      if (tiers parent).present (name::up) then some parent
      else
        match (mapped (name::up)).filter (fun tier => (tiers tier).resolves (name::up)) with
        | some tier => some tier
        | none => (List.range ntiers).find? fun tier => (tiers tier).resolves (name::up)

def reads (state : State) (crash : Crash) (path : List String) : Option Bytes := do
  let tier ← walk state.ntiers state.fastest (fun tier => (state.tiers tier).crash (crash.kept tier)) crash.mapped path
  match state.nodes path with
  | some (.file file) => if file.tier = tier then some (if file.synced then file.content else crash.torn path) else none
  | _ => none

structure Stored (state : State) : Prop where
  closed : ∀ tier path, (state.tiers tier).present path = true → (state.tiers tier).resolves path = true
  noted : ∀ tier path, (state.tiers tier).present path = true →
    (state.tiers tier).durable path = true ∨ ∃ link ∈ state.pending, link.tier = tier ∧ link.path = path
  bound : ∀ tier path, (state.tiers tier).present path = true → tier < state.ntiers

structure Housed (state : State) : Prop where
  rooted : state.nodes [] = none
  known : ∀ tier path, (state.tiers tier).present path = true → state.nodes path ≠ none
  whole : ∀ name up, state.nodes (name::up) ≠ none → up ≠ [] → ∃ tier, state.nodes up = some (.dir tier)
  homes : ∀ path tier, state.nodes path = some (.dir tier) → (state.tiers tier).resolves path = true
  single : ∀ path file, state.nodes path = some (.file file) →
    (state.tiers file.tier).resolves path = true ∧ ∀ tier, (state.tiers tier).present path = true → tier = file.tier

theorem Stored.withNodes {state : State} (stored : Stored state) (nodes : List String → Option Node) :
    Stored {state with nodes := nodes} :=
  ⟨stored.closed,stored.noted,stored.bound⟩

structure Sound (state : State) : Prop where
  stored : Stored state
  housed : Housed state

theorem sound_fresh (ntiers fastest : Nat) : Sound (fresh ntiers fastest) := by
  constructor <;> constructor <;> intros <;> simp_all [fresh]

def Fits (state : State) (tier : Nat) (path : List String) : Node → Prop
  | .dir home => home = tier ∨ (state.tiers home).resolves path = true
  | .file file => file.tier = tier ∧ ∀ other, (state.tiers other).present path = false

section Links

variable {state : State} {tier : Nat} {name : String} {up : List String} {node : Node}

variable (maker : Maker)

theorem link_tier (other : Nat) (path : List String) :
    (state.link maker tier path).tiers other = if other = tier then (state.tiers tier).set path true else state.tiers other := by
  by_cases same : other = tier
  · rw [same,if_pos rfl]
    exact update_self ..
  · rw [if_neg same]
    exact update_of_ne same _ _

variable {other : Nat} {path : List String}

theorem link_present {part : List String} (there : ((state.link maker tier path).tiers other).present part = true) :
    (other = tier ∧ part = path) ∨ (state.tiers other).present part = true := by
  rw [link_tier] at there
  split at there
  · next same =>
    by_cases equal : part = path
    · exact .inl ⟨same,equal⟩
    · rw [same]
      exact .inr (by simpa [Entries.set,update_of_ne equal] using there)
  · exact .inr there

theorem link_resolves {part : List String} (resolved : (state.tiers other).resolves part = true) :
    ((state.link maker tier path).tiers other).resolves part = true := by
  rw [link_tier]
  split
  · next same =>
    rw [same] at resolved
    exact Entries.resolves_set resolved path
  · exact resolved

theorem link_made (resolved : (state.tiers tier).resolves up = true) :
    ((state.link maker tier (name::up)).tiers tier).resolves (name::up) = true := by
  rw [link_tier,if_pos rfl]
  exact Entries.resolves_made name resolved

theorem Stored.link (stored : Stored state) (maker : Maker) (resolved : (state.tiers tier).resolves up = true)
    (bound : tier < state.ntiers) : Stored (state.link maker tier (name::up)) where
  closed := by
    intro other path there
    rcases link_present maker there with ⟨rfl,rfl⟩ | old
    · exact link_made maker resolved
    · exact link_resolves maker (stored.closed other path old)
  noted := by
    intro other path there
    by_cases same : other = tier ∧ path = name::up
    · exact .inr ⟨_,List.mem_cons_self,same.1.symm,same.2.symm⟩
    rcases stored.noted other path ((link_present maker there).resolve_left same) with durable | ⟨link,member,here⟩
    · rw [link_tier]
      split
      · next equal =>
        rw [equal] at durable
        exact .inl ((update_of_ne (fun made => same ⟨equal,made⟩) _ _).trans durable)
      · exact .inl durable
    · exact .inr ⟨link,List.mem_cons_of_mem _ member,here⟩
  bound := by
    intro other path there
    rcases link_present maker there with ⟨rfl,rfl⟩ | old
    · exact bound
    · exact stored.bound other path old

theorem Housed.link (housed : Housed state) (maker : Maker) (resolved : (state.tiers tier).resolves up = true)
    (parent : up ≠ [] → ∃ home, state.nodes up = some (.dir home)) (fits : Fits state tier (name::up) node)
    (old : state.nodes (name::up) = none ∨ state.nodes (name::up) = some node) :
    Housed {state.link maker tier (name::up) with nodes := update state.nodes (name::up) (some node)} where
  rooted := by
    dsimp only
    rw [update_of_ne (by simp),housed.rooted]
  known := by
    intro other path there
    dsimp only at there ⊢
    by_cases same : path = name::up
    · simp [same]
    · rw [update_of_ne same]
      exact housed.known other path ((link_present maker there).resolve_left fun made => same made.2)
  whole := by
    intro child above there below
    dsimp only at there ⊢
    by_cases same : child::above = name::up
    · cases same
      obtain ⟨home,found⟩ := parent below
      exact ⟨home,(update_of_ne (List.cons_ne_self _ _).symm _ _).trans found⟩
    rw [update_of_ne same] at there
    obtain ⟨home,found⟩ := housed.whole child above there below
    refine ⟨home,?_⟩
    by_cases here : above = name::up
    · rw [here] at found
      rw [here,update_self]
      exact (old.resolve_left (by simp [found])).symm.trans found
    · rw [update_of_ne here,found]
  homes := by
    intro path home found
    dsimp only at found ⊢
    by_cases same : path = name::up
    · rw [same,update_self] at found
      cases found
      rw [same]
      rcases fits with rfl | resolved
      · exact link_made maker ‹_›
      · exact link_resolves maker resolved
    · rw [update_of_ne same] at found
      exact link_resolves maker (housed.homes path home found)
  single := by
    intro path file found
    dsimp only at found ⊢
    by_cases same : path = name::up
    · rw [same,update_self] at found
      cases found
      obtain ⟨rfl,absent⟩ := fits
      rw [same]
      refine ⟨link_made maker resolved,fun other there => ?_⟩
      rcases link_present maker there with made | present
      · exact made.1
      · exact absurd ((absent other).symm.trans present) Bool.false_ne_true
    · rw [update_of_ne same] at found
      obtain ⟨there,only⟩ := housed.single path file found
      exact ⟨link_resolves maker there,fun other present =>
        only other ((link_present maker present).resolve_left fun made => same made.2)⟩

structure Alike (state after : State) : Prop where
  sound : Sound after
  nodes : after.nodes = state.nodes
  ntiers : after.ntiers = state.ntiers
  fastest : after.fastest = state.fastest

theorem Sound.alike (sound : Sound state) : Alike state state :=
  ⟨sound,rfl,rfl,rfl⟩

theorem Sound.spill {home : Nat} (sound : Sound state) (resolved : (state.tiers tier).resolves up = true) (bound : tier < state.ntiers)
    (found : state.nodes (name::up) = some (.dir home)) : Alike state (state.link .spill tier (name::up)) := by
  refine ⟨⟨sound.stored.link .spill resolved bound,?_⟩,rfl,rfl,rfl⟩
  have housed := sound.housed.link .spill resolved (fun below => sound.housed.whole name up (by simp [found]) below)
    (show Fits state tier (name::up) (.dir home) from .inr (sound.housed.homes _ home found)) (.inr found)
  rwa [← found,update_eq_self] at housed

theorem materialize_spec (sound : Sound state) (room : Nat) (bound : tier < state.ntiers)
    (parent : up ≠ [] → ∃ home, state.nodes up = some (.dir home)) :
    Alike state (materializeParentOnTier state tier room up).1 ∧
      ∀ left, (materializeParentOnTier state tier room up).2 = some left →
        ((materializeParentOnTier state tier room up).1.tiers tier).resolves up = true := by
  induction up with
  | nil => exact ⟨sound.alike,fun _ _ => rfl⟩
  | cons name up ih =>
    obtain ⟨home,found⟩ := parent (List.cons_ne_nil _ _)
    obtain ⟨alike,resolves⟩ := ih (sound.housed.whole name up (by simp [found]))
    rw [materializeParentOnTier]
    cases made : materializeParentOnTier state tier room up with
    | mk after left =>
      rw [made] at alike resolves
      cases left with
      | none => exact ⟨alike,by nofun⟩
      | some left =>
        dsimp only
        split
        · next there => exact ⟨alike,fun _ _ => alike.sound.stored.closed tier _ there⟩
        cases left with
        | zero => exact ⟨alike,by nofun⟩
        | succ left =>
          have resolved := resolves _ rfl
          have spilled := alike.sound.spill resolved (alike.ntiers ▸ bound) (alike.nodes ▸ found)
          refine ⟨⟨spilled.sound,spilled.nodes.trans alike.nodes,alike.ntiers,alike.fastest⟩,fun _ _ => ?_⟩
          exact link_made .spill resolved

theorem parentTier_dir {parent : Nat} (found : parentTier state up = some parent) (below : up ≠ []) :
    state.nodes up = some (.dir parent) := by
  unfold parentTier at found
  split at found
  · exact absurd rfl below
  · split at found
    · next there => rw [there,Option.some.inj found]
    · cases found

theorem Sound.inside {parent : Nat} (sound : Sound state) (found : parentTier state up = some parent) :
    (state.tiers parent).resolves up = true := by
  by_cases below : up = []
  · rw [below]
    rfl
  · exact sound.housed.homes up parent (parentTier_dir found below)

variable {after : State}

theorem Alike.parentTier (alike : Alike state after) (up : List String) :
    parentTier after up = DirectoryFsync.parentTier state up := by
  cases up <;> simp [DirectoryFsync.parentTier,alike.nodes,alike.fastest]

theorem Alike.trans {first second : State} (one : Alike state first) (two : Alike first second) : Alike state second :=
  ⟨two.sound,two.nodes.trans one.nodes,two.ntiers.trans one.ntiers,two.fastest.trans one.fastest⟩

def Placed (state : State) (name : String) (up : List String) (result : State × Except Errno Nat) : Prop :=
  ∃ middle, Alike state middle ∧ ((∃ errno, result = (middle,.error errno)) ∨
    ∃ tier, tier < state.ntiers ∧ (middle.tiers tier).resolves up = true ∧
      result = (middle.link .caller tier (name::up),.ok tier))

theorem Alike.placed {result : State × Except Errno Nat} (alike : Alike state after)
    (placed : Placed after name up result) : Placed state name up result := by
  obtain ⟨middle,like,ends⟩ := placed
  rw [alike.ntiers] at ends
  exact ⟨middle,alike.trans like,ends⟩

theorem place_spec (space : Space) (name : String) {parent : Nat} {order : List Nat} (sound : Sound state)
    (bound : ∀ tier ∈ order, tier < state.ntiers) (found : parentTier state up = some parent) :
    Placed state name up (place space parent name up order state) := by
  induction order generalizing state with
  | nil => exact ⟨state,sound.alike,.inl ⟨_,rfl⟩⟩
  | cons tier rest ih =>
    have here := bound tier List.mem_cons_self
    -- A tier that took nothing more leaves the rest of the loop a state like this one.
    have retry {after : State} (alike : Alike state after) : Placed state name up (place space parent name up rest after) :=
      alike.placed (ih alike.sound (fun other member => alike.ntiers ▸ bound other (List.mem_cons_of_mem _ member))
        ((alike.parentTier up).trans found))
    have prepared : ∃ middle left, (if tier = parent then (state,some (space.room tier))
        else materializeParentOnTier state tier (space.room tier) up) = (middle,left) ∧ Alike state middle ∧
          (left ≠ none → (middle.tiers tier).resolves up = true) := by
      split
      · next same => exact ⟨_,_,rfl,sound.alike,fun _ => same ▸ sound.inside found⟩
      · obtain ⟨alike,resolves⟩ := materialize_spec sound (space.room tier) here fun below => ⟨parent,parentTier_dir found below⟩
        exact ⟨_,_,rfl,alike,fun some => resolves _ (Option.some_get (Option.isSome_iff_ne_none.mpr some)).symm⟩
    obtain ⟨middle,left,same,alike,resolves⟩ := prepared
    have full : Placed state name up (if space.errno tier = .enospc then place space parent name up rest middle
        else (middle,.error (space.errno tier))) := by
      split
      · exact retry alike
      · exact ⟨middle,alike,.inl ⟨_,rfl⟩⟩
    rw [place,same]
    split
    · exact retry sound.alike
    rcases left with _ | _ | left
    · exact full
    · exact full
    · exact ⟨middle,alike,.inr ⟨tier,here,resolves (by simp),rfl⟩⟩

theorem Sound.make {space : Space} {order : List Nat} {node : Nat → Node} (sound : Sound state)
    (made : make state space order node path = some after) (bound : ∀ tier ∈ order, tier < state.ntiers)
    (fits : ∀ (middle : State) tier, (∀ other, (middle.tiers other).present path = false) → Fits middle tier path (node tier)) :
    Sound after := by
  cases path with
  | nil => cases made
  | cons name up =>
    simp only [DirectoryFsync.make,Option.bind_eq_bind,Option.bind_eq_some_iff] at made
    obtain ⟨parent,found,made⟩ := made
    split at made
    swap
    · cases made
    next absent =>
    obtain ⟨middle,alike,⟨errno,result⟩ | ⟨tier,here,resolved,result⟩⟩ := place_spec space name sound bound found
    · rw [result] at made
      cases made
      exact alike.sound
    rw [result] at made
    cases made
    have missing : middle.nodes (name::up) = none := alike.nodes ▸ absent
    refine ⟨(alike.sound.stored.link .caller resolved (alike.ntiers ▸ here)).withNodes _,
      alike.sound.housed.link .caller resolved (fun below => ⟨parent,?_⟩) (fits middle tier fun other => ?_) (.inl missing)⟩
    · rw [alike.nodes]
      exact parentTier_dir found below
    · rw [← Bool.not_eq_true]
      exact fun there => alike.sound.housed.known other _ there missing

end Links

section Fsync

variable {state after : State} {dir : List String}

structure Firmer (state after : State) : Prop where
  nodes : after.nodes = state.nodes
  ntiers : after.ntiers = state.ntiers
  pending : after.pending = state.pending
  present : ∀ tier, (after.tiers tier).present = (state.tiers tier).present
  durable : ∀ tier path, (state.tiers tier).durable path = true → (after.tiers tier).durable path = true

theorem resolves_congr {entries later : Entries String} (same : later.present = entries.present) (path : List String) :
    later.resolves path = entries.resolves path := by
  induction path with
  | nil => rfl
  | cons name up ih => rw [Entries.resolves,Entries.resolves,same,ih]

theorem fsyncTiers_spec (fails : Nat → Bool) (order : List Nat) (state : State) :
    Firmer state (fsyncTiers dir fails order state).1 ∧ ((fsyncTiers dir fails order state).2 = true →
      ∀ tier ∈ order, (state.tiers tier).resolves dir = true →
        ∀ path : List String, path.tail = dir → ((fsyncTiers dir fails order state).1.tiers tier).durable path = true) := by
  induction order generalizing state with
  | nil => exact ⟨⟨rfl,rfl,rfl,fun _ => rfl,fun _ _ => id⟩,by nofun⟩
  | cons tier rest ih =>
    unfold fsyncTiers
    split
    · split
      · exact ⟨⟨rfl,rfl,rfl,fun _ => rfl,fun _ _ => id⟩,by nofun⟩
      let synced : State := {state with tiers := update state.tiers tier ((state.tiers tier).fsync dir)}
      have firm : Firmer state synced := by
        refine ⟨rfl,rfl,rfl,fun other => ?_,fun other path durable => ?_⟩ <;> by_cases same : other = tier
        · simp [synced,same,Entries.fsync]
        · simp [synced,update_of_ne same]
        · subst other
          simp only [synced,update_self]
          exact Entries.fsync_durable durable
        · simpa only [synced,update_of_ne same] using durable
      obtain ⟨firmer,all⟩ := ih synced
      refine ⟨⟨firmer.nodes,firmer.ntiers,firmer.pending,fun other => (firmer.present other).trans (firm.present other),
        fun other path durable => firmer.durable other path (firm.durable other path durable)⟩,?_⟩
      intro ok other member resolved path inside
      rcases List.mem_cons.mp member with rfl | member
      · refine firmer.durable other path ?_
        simp only [synced,update_self]
        exact Entries.fsync_inside inside
      · exact all ok other member ((resolves_congr (firm.present other) dir).trans resolved) path inside
    · next missing =>
      obtain ⟨firmer,all⟩ := ih state
      refine ⟨firmer,fun ok other member resolved => ?_⟩
      rcases List.mem_cons.mp member with rfl | member
      · exact absurd resolved missing
      · exact all ok other member resolved

theorem Firmer.housed (firmer : Firmer state after) (housed : Housed state) : Housed after := by
  constructor
  · rw [firmer.nodes]
    exact housed.rooted
  · intro tier path there
    rw [firmer.present] at there
    rw [firmer.nodes]
    exact housed.known tier path there
  · rw [firmer.nodes]
    exact housed.whole
  · intro path tier found
    rw [firmer.nodes] at found
    rw [resolves_congr (firmer.present tier)]
    exact housed.homes path tier found
  · intro path file found
    rw [firmer.nodes] at found
    obtain ⟨resolved,only⟩ := housed.single path file found
    rw [resolves_congr (firmer.present file.tier)]
    refine ⟨resolved,fun tier there => only tier ?_⟩
    rwa [firmer.present] at there

theorem Firmer.stored (firmer : Firmer state after) (stored : Stored state) : Stored after := by
  constructor
  · intro tier path there
    rw [firmer.present] at there
    rw [resolves_congr (firmer.present tier)]
    exact stored.closed tier path there
  · intro tier path there
    rw [firmer.present] at there
    rw [firmer.pending]
    exact (stored.noted tier path there).imp_left (firmer.durable tier path)
  · intro tier path there
    rw [firmer.present] at there
    rw [firmer.ntiers]
    exact stored.bound tier path there

theorem Sound.dirFsync {fails : Nat → Bool} {logFails : Bool} (sound : Sound state)
    (synced : dirFsync state dir fails logFails = some after) : Sound after := by
  simp only [DirectoryFsync.dirFsync,Option.bind_eq_bind,Option.bind_eq_some_iff] at synced
  obtain ⟨home,found,synced⟩ := synced
  obtain ⟨firmer,all⟩ := fsyncTiers_spec fails (home::(List.range state.ntiers).filter (· ≠ home)) state
  cases result : fsyncTiers dir fails (home::(List.range state.ntiers).filter (· ≠ home)) state with
  | mk middle ok =>
    rw [result] at firmer all synced
    have stored := firmer.stored sound.stored
    have housed := firmer.housed sound.housed
    cases synced
    split
    swap
    · exact ⟨stored,housed⟩
    next fine =>
    refine ⟨⟨stored.closed,fun tier path there => ?_,stored.bound⟩,⟨housed.rooted,housed.known,housed.whole,housed.homes,housed.single⟩⟩
    rcases stored.noted tier path there with durable | ⟨link,member,here,same⟩
    · exact .inl durable
    by_cases inside : path.tail = dir
    · refine .inl (all fine.1 tier ?_ ?_ path inside)
      · have bound := firmer.ntiers ▸ stored.bound tier path there
        by_cases same : tier = home <;> simp [same,bound]
      · rw [← resolves_congr (firmer.present tier),← inside]
        exact Entries.resolves_above (stored.closed tier path there) (List.tail_suffix path)
    · exact .inr ⟨link,by simp [member,same,inside],here,same⟩

end Fsync

section Steps

variable {state after : State} {path : List String}

theorem Housed.setNode {node : Node} (housed : Housed state) (there : state.nodes path ≠ none)
    (fits : match node with
      | .dir tier => (state.tiers tier).resolves path = true
      | .file file => ∃ old, state.nodes path = some (.file old) ∧ file.tier = old.tier)
    (dirs : ∀ tier, state.nodes path = some (.dir tier) → ∃ other, node = .dir other) :
    Housed {state with nodes := update state.nodes path (some node)} where
  rooted := by
    dsimp only
    rw [update_of_ne (fun root => there (by rw [← root,housed.rooted])),housed.rooted]
  known := by
    intro tier other present
    dsimp only
    by_cases same : other = path
    · simp [same]
    · rw [update_of_ne same]
      exact housed.known tier other present
  whole := by
    intro name up present below
    dsimp only at present ⊢
    have old : state.nodes (name::up) ≠ none := by
      by_cases same : name::up = path
      · rwa [same]
      · rwa [update_of_ne same] at present
    obtain ⟨tier,found⟩ := housed.whole name up old below
    by_cases same : up = path
    · rw [same] at found
      obtain ⟨other,rfl⟩ := dirs tier found
      exact ⟨other,by rw [same,update_self]⟩
    · exact ⟨tier,by rw [update_of_ne same,found]⟩
  homes := by
    intro other tier found
    dsimp only at found ⊢
    by_cases same : other = path
    · rw [same,update_self] at found
      cases found
      rw [same]
      exact fits
    · rw [update_of_ne same] at found
      exact housed.homes other tier found
  single := by
    intro other file found
    dsimp only at found ⊢
    by_cases same : other = path
    · rw [same,update_self] at found
      cases found
      obtain ⟨old,known,tier⟩ := fits
      rw [same,tier]
      exact housed.single path old known
    · rw [update_of_ne same] at found
      exact housed.single other file found

theorem Sound.setFile {change : File → File} (sound : Sound state) (changed : setFile state path change = some after)
    (keeps : ∀ file, (change file).tier = file.tier) : Sound after := by
  unfold DirectoryFsync.setFile at changed
  split at changed
  · next file found =>
    cases changed
    refine ⟨sound.stored.withNodes _,sound.housed.setNode (by simp [found]) ⟨file,found,keeps file⟩ (fun tier other => ?_)⟩
    rw [found] at other
    cases other
  · cases changed

theorem Sound.step {label : Label} (sound : Sound state) (taken : step state label = some after) : Sound after := by
  cases label with
  | mkdir path space =>
    exact sound.make taken (fun tier member => List.mem_range.mp (List.mem_of_mem_filter member)) (fun _ _ _ => .inl rfl)
  | create path start space =>
    refine sound.make taken (fun tier member => ?_) (fun _ _ absent => ⟨rfl,absent⟩)
    obtain ⟨attempt,inside,rfl⟩ := List.mem_map.mp member
    exact Nat.mod_lt _ (Nat.zero_lt_of_lt (List.mem_range.mp inside))
  | write path content | fsync path fails => exact sound.setFile taken (fun _ => rfl)
  | dirFsync dir fails logFails => exact sound.dirFsync taken
  | relookup dir tier =>
    simp only [DirectoryFsync.step] at taken
    split at taken
    · next home found =>
      split at taken
      · next resolved =>
        cases taken
        exact ⟨sound.stored.withNodes _,sound.housed.setNode (by simp [found]) resolved (fun _ _ => ⟨tier,rfl⟩)⟩
      · cases taken
    · cases taken

theorem sound_run {ntiers fastest : Nat} {labels : List Label} (reached : run step (fresh ntiers fastest) labels = some state) :
    Sound state :=
  invariant step (fun _ _ => True) Sound (fun _ _ _ sound _ taken => sound.step taken) _ _ labels (sound_fresh ntiers fastest)
    (guarded_of_labels _ _ _ fun _ _ _ => trivial) reached

/-- At every moment of a run a file stands on one tier, with its parents, and on no other. -/
theorem files_on_one_tier (ntiers fastest : Nat) (labels : List Label) :
    Guarded step (fun state _ => ∀ path file, state.nodes path = some (.file file) →
      ∀ tier, (state.tiers tier).resolves path = true ↔ tier = file.tier) (fresh ntiers fastest) labels := by
  refine guarded_of_invariant _ Sound (fun _ _ _ sound _ taken => sound.step taken) (fun _ _ sound _ path file there tier => ?_)
    (sound_fresh ntiers fastest) (guarded_of_labels _ _ _ fun _ _ _ => trivial)
  obtain ⟨resolved,only⟩ := sound.housed.single path file there
  have below : path ≠ [] := fun root => by simp [root,sound.housed.rooted] at there
  exact ⟨fun found => only tier (Entries.present_of_resolves found below),fun same => same ▸ resolved⟩

end Steps

section Crashes

variable {ntiers home : Nat} {path : List String}

theorem walk_finds (fastest : Nat) (tiers : Nat → Entries String) (mapped : List String → Option Nat) (bound : home < ntiers)
    (resolved : (tiers home).resolves path = true) :
    ∃ tier, walk ntiers fastest tiers mapped path = some tier ∧ (path ≠ [] → (tiers tier).present path = true) := by
  induction path with
  | nil => exact ⟨fastest,rfl,fun below => absurd rfl below⟩
  | cons name up ih =>
    obtain ⟨parent,found,_⟩ := ih (Entries.resolves_above resolved (List.suffix_cons _ _))
    simp only [walk,found]
    split
    · next there => exact ⟨parent,rfl,fun _ => there⟩
    split
    · next tier live =>
      obtain ⟨_,backed⟩ := Option.filter_eq_some_iff.mp live
      exact ⟨tier,rfl,Entries.present_of_resolves backed⟩
    cases scanned : (List.range ntiers).find? fun tier => (tiers tier).resolves (name::up) with
    | none => exact absurd resolved (List.find?_eq_none.mp scanned home (List.mem_range.mpr bound))
    | some tier =>
      have resolves := List.find?_some scanned
      exact ⟨tier,rfl,Entries.present_of_resolves resolves⟩

/-- A file is read as it was fsynced if every entry of its path had its directory fsynced since it
was made. -/
theorem fsynced_name_survives {fastest : Nat} {labels : List Label} {state : State}
    (reached : run step (fresh ntiers fastest) labels = some state)
    (file : File) (there : state.nodes path = some (.file file)) (synced : file.synced = true)
    (asked : ∀ link ∈ state.pending, link.maker = .caller → ¬ link.path <:+ path)
    (spilled : ∀ link ∈ state.pending, link.maker = .spill → link.tier = file.tier → ¬ link.path <:+ path) (crash : Crash) :
    reads state crash path = some file.content := by
  have sound := sound_run reached
  obtain ⟨resolved,only⟩ := sound.housed.single path file there
  have durable (part : List String) (above : part <:+ path) (below : part ≠ []) : (state.tiers file.tier).durable part = true := by
    have present := Entries.present_of_resolves (Entries.resolves_above resolved above) below
    refine (sound.stored.noted file.tier part present).resolve_right ?_
    rintro ⟨link,member,here,rfl⟩
    cases maker : link.maker with
    | caller => exact asked link member maker above
    | spill => exact spilled link member maker here above
  have below : path ≠ [] := fun root => by simp [root,sound.housed.rooted] at there
  have bound := sound.stored.bound file.tier path (Entries.present_of_resolves resolved below)
  obtain ⟨tier,found,left⟩ := walk_finds state.fastest (fun tier => (state.tiers tier).crash (crash.kept tier))
    crash.mapped bound (Entries.resolves_crash (crash.kept file.tier) resolved durable)
  have same := only tier (Entries.present_of_crash (left below))
  simp only [reads,found,there,same,synced,Option.bind_eq_bind,Option.bind_some,if_true]

end Crashes

def roomy (near : Nat) : Space :=
  ⟨fun tier => tier < near,fun _ => 8,fun _ => .enospc⟩

def spilledFile : List Label :=
  [.mkdir ["d"] (roomy 0),.dirFsync [] (fun _ => false) false,.create ["f","d"] 1 (roomy 1),.write ["f","d"] [1],
    .fsync ["f","d"] false,.dirFsync ["d"] (fun _ => false) false]

def worst : Crash :=
  ⟨fun _ _ => false,fun _ => [],fun _ => none⟩

theorem spilled_name_survives : ∃ state, run step (fresh 2 0) (spilledFile ++ [.dirFsync [] (fun _ => false) false]) = some state ∧
    state.nodes ["f","d"] = some (.file ⟨1,[1],true⟩) ∧ reads state worst ["f","d"] = some [1] := by
  obtain ⟨state,reached,there,clean⟩ : ∃ state, run step (fresh 2 0) (spilledFile ++ [.dirFsync [] (fun _ => false) false]) =
      some state ∧ state.nodes ["f","d"] = some (.file ⟨1,[1],true⟩) ∧ state.pending = [] := reaches (by decide)
  exact ⟨state,reached,there,fsynced_name_survives reached ⟨1,[1],true⟩ there rfl (by simp [clean]) (by simp [clean]) worst⟩

/-- Every directory was fsynced after each mkdir in it; tier 1 has lost its copy of `d`. -/
theorem spilled_name_lost : ∃ state, run step (fresh 2 0) spilledFile = some state ∧
    state.nodes ["f","d"] = some (.file ⟨1,[1],true⟩) ∧ (∀ link ∈ state.pending, link.maker ≠ .caller) ∧
      reads state worst ["f","d"] = none :=
  reaches (by decide)

end Smoothfs.DirectoryFsync
