import Smoothfs.Pins
import Smoothfs.Resolve

/-! Names that share a lower file, while inodes come and go. The count of links that a
plan tests is kept in memory; an inode that is made anew starts with one link,
whatever the lower file has. -/
namespace Smoothfs.HardLinks

open Movement Namespace Pins Run LinkCount Function
open Lookup hiding reached
open CrashRecovery (reachedByName)
open Resolve (Mount remember identified placedInode replayedInode recorded instantiate recoveryResolveOid)

structure State where
  mount : Mount
  nlink : LinkCounts

/-- The objects whose lower files have a link left. -/
def linked (state : State) (oid : Oid) : Bool :=
  (state.mount.world.inodes oid).any fun inode => state.nlink (lowerFile inode) ≠ 0

def reached (state : State) (mask parent : Nat) (rel : RelPath) : Option (Reached (Oid × Inode) (Nat × FileId)) :=
  Lookup.reached state.mount.world state.mount.cache (linked state) mask parent rel

def lookup (number : Oid → Nat) (state : State) (mask parent : Nat) (rel : RelPath) (fresh gen : Oid) : Option State :=
  (Resolve.lookup number state.mount (linked state) mask parent rel fresh gen).map fun mount => {state with mount := mount}

def create (number : Oid → Nat) (state : State) (oid : Oid) (tier : Nat) (rel : RelPath) (mode : Nat) : Option State :=
  let mount := state.mount
  let file := mount.world.nextFile
  if state.nlink (tier,file) = 0 ∧ ((held mount.world mount.cache.incore).all fun known =>
      lowerFile known.2 ≠ (tier,file) ∧ number known.1 ≠ number oid) = true then
    (Namespace.create mount.world oid tier rel mode).map fun world =>
      ⟨{mount with
        world := world
        cache := remember mount.cache oid true
        gens := update mount.gens oid 0},update state.nlink (tier,file) 1⟩
  else none

def renameLower (world : World) (nlink : LinkCounts) (inode : Inode) (source target : RelPath) : World × LinkCounts :=
  let tier := inode.lowerPath.mnt
  let moved := (world.setName ⟨tier,source⟩ none).setName ⟨tier,target⟩ (some inode.lowerPath.file)
  match world.names ⟨tier,target⟩ with
  | none => (moved,nlink)
  | some victim =>
    if victim = inode.lowerPath.file then (world,nlink)
    else (moved,update nlink (tier,victim) (nlink (tier,victim) - 1))

def renamedInode (inode : Inode) (source target : RelPath) : Inode :=
  {inode with
    lowerPath := {inode.lowerPath with
      name := if inode.lowerPath.name = source.getLastD "" then target.getLastD "" else inode.lowerPath.name}
    relPath := some target}

def dropStale (world : World) (nlink : LinkCounts) (target : RelPath) (oid : Oid) (victim : Inode) : World × LinkCounts :=
  ((world.setName ⟨victim.lowerPath.mnt,target⟩ none).setInode oid {victim with relPath := none},
    update nlink (lowerFile victim) (nlink (lowerFile victim) - 1))

/-- `stale` has the new name on another tier. The count that a replaced inode keeps in memory stays
as it is. -/
def rename (state : State) (oid : Oid) (parent : Nat) (source target : RelPath) (stale : Option Oid) : Option State :=
  let world := state.mount.world
  match world.inodes oid with
  | none => none
  | some inode =>
    let tier := inode.lowerPath.mnt
    if world.names ⟨tier,source⟩ ≠ some inode.lowerPath.file ∨ source = target then none
    else
      let (moved,nlink) := renameLower world state.nlink inode source target
      let renamed := moved.setInode oid (renamedInode inode source target)
      match stale with
      | none => some ⟨{state.mount with world := renamed},nlink⟩
      | some other =>
        match world.inodes other with
        | none => none
        | some victim =>
          if other = oid ∨ victim.lowerPath.mnt = tier ∨
              world.names ⟨victim.lowerPath.mnt,target⟩ ≠ some victim.lowerPath.file ∨
              source.dropLast ≠ target.dropLast ∧ parent = tier then none
          else
            let (dropped,counts) := dropStale renamed nlink target other victim
            some ⟨{state.mount with world := dropped},counts⟩

/-- It gets an inode for the object if none is in memory. -/
def plan (number : Oid → Nat) (mount : Mount) (fresh oid : Oid) (destTier seq : Nat) (force : Bool) : Mount × Except Errno Oid :=
  let pool := mount.world.pool
  if pool.quiesced then (mount,.error .eagain)
  else if pool.ntiers ≤ destTier then (mount,.error .einval)
  else if pool.cacheMode ∧ destTier ≠ pool.ntiers - 1 then (mount,.error .einval)
  else
    match recoveryResolveOid number mount fresh oid with
    | (after,none) => (after,.error .enoent)
    | (after,some found) =>
      match planAdmitted after.world found destTier seq force with
      | (_,.error errno) => (after,.error errno)
      | (world,.ok ()) =>
        let tier := (after.world.inodes found).elim 0 (·.currentTier)
        ({after with world := world, log := after.log ++ [⟨oid,.planAccepted,tier,destTier⟩]},.ok found)

inductive Label
  | create (oid : Oid) (tier : Nat) (rel : RelPath) (mode : Nat)
  | link (oid : Oid) (parent : Nat) (source target : RelPath)
  | unlink (oid : Oid) (rel : RelPath) (last : Bool)
  | rename (oid : Oid) (parent : Nat) (source target : RelPath) (stale : Option Oid)
  | lookup (mask parent : Nat) (rel : RelPath) (fresh gen : Oid)
  | resolve (oid fresh : Oid)
  | evict (oid : Oid)
  | rebuild (visits : List (Loc × Oid))
  | remount (kept : Nat)
  | plan (fresh oid : Oid) (destTier seq : Nat) (force : Bool)
  | rollback (oid : Oid) (seq : Nat)
  deriving DecidableEq, Repr

def State.within (state : State) (done : Except Errno (World × LinkCounts)) : Option State :=
  match done with
  | .ok (world,nlink) => some ⟨{state.mount with world := world},nlink⟩
  | .error _ => none

def step (number : Oid → Nat) (state : State) : Label → Option State
  | .create oid tier rel mode => create number state oid tier rel mode
  | .link oid parent source target => state.within (Pins.link state.mount.world state.nlink oid parent source target)
  | .unlink oid rel last => state.within (Pins.unlink state.mount.world state.nlink oid rel last)
  | .rename oid parent source target stale => rename state oid parent source target stale
  | .lookup mask parent rel fresh gen => lookup number state mask parent rel fresh gen
  | .resolve oid fresh => some {state with mount := (recoveryResolveOid number state.mount fresh oid).1}
  | .evict oid => some {state with mount := Resolve.evict state.mount oid}
  | .rebuild visits => some {state with mount := Resolve.rebuild state.mount visits}
  | .remount kept => some {state with mount := Resolve.remount state.mount kept}
  | .plan fresh oid destTier seq force => some {state with mount := (plan number state.mount fresh oid destTier seq force).1}
  | .rollback oid seq => some {state with mount :=
      {state.mount with world := (movementRollback state.mount.world oid seq).1}}

def AcceptedSingle (nlink : LinkCounts) : Mount × Except Errno Oid → Prop
  | (after,.ok found) => ∃ inode ∈ after.world.inodes found, nlink (lowerFile inode) = 1
  | (_,.error _) => True

def OneLink (number : Oid → Nat) (state : State) : Label → Prop
  | .plan fresh oid destTier seq force => AcceptedSingle state.nlink (plan number state.mount fresh oid destTier seq force)
  | _ => True

def MadeSingle (number : Oid → Nat) (state : State) (fresh : Oid) (tier : Nat) (file : FileId) : Prop :=
  state.mount.world.inodes (iget number state.mount.world state.mount.cache fresh tier file).oid = none →
    state.nlink (tier,file) = 1

def ReachedSingle (number : Oid → Nat) (state : State) (fresh : Oid) : Reached (Oid × Inode) (Nat × FileId) → Prop
  | .known _ => True
  | .lower (tier,file) _ => MadeSingle number state fresh tier file

def ResolvedSingle (number : Oid → Nat) (state : State) (fresh oid : Oid) : Prop :=
  ∀ target ∈ recorded state.mount oid, oid ∉ state.mount.cache.incore → MadeSingle number state fresh target.2.1.dir target.2.2

/-- Inodes are made for files with one link only, no unlink counts below the links, and a file that
is planned for movement has a name. -/
def Single (number : Oid → Nat) (state : State) : Label → Prop
  | .lookup mask parent rel fresh _ => ∀ place ∈ reached state mask parent rel, ReachedSingle number state fresh place
  | .resolve oid fresh => ResolvedSingle number state fresh oid
  | .unlink oid rel _ => CountedUnlink state.mount.world state.nlink oid rel
  | .plan fresh oid _ _ _ => ResolvedSingle number state fresh oid ∧
      ∀ found ∈ (recoveryResolveOid number state.mount fresh oid).2,
        ∀ inode ∈ (recoveryResolveOid number state.mount fresh oid).1.world.inodes found, state.nlink (lowerFile inode) ≠ 0
  | _ => True

section Decidable

variable (number : Oid → Nat) (state : State) (fresh : Oid)

instance (tier : Nat) (file : FileId) : Decidable (MadeSingle number state fresh tier file) :=
  inferInstanceAs (Decidable (_ = none → _ = 1))

instance : (place : Reached (Oid × Inode) (Nat × FileId)) → Decidable (ReachedSingle number state fresh place)
  | .known _ => isTrue trivial
  | .lower (tier,file) _ => inferInstanceAs (Decidable (MadeSingle number state fresh tier file))

instance (oid : Oid) : Decidable (ResolvedSingle number state fresh oid) :=
  inferInstanceAs (Decidable (∀ target ∈ recorded state.mount oid, _ → MadeSingle number state fresh target.2.1.dir target.2.2))

instance (nlink : LinkCounts) : (outcome : Mount × Except Errno Oid) → Decidable (AcceptedSingle nlink outcome)
  | (after,.ok found) => inferInstanceAs (Decidable (∃ inode ∈ after.world.inodes found, nlink (lowerFile inode) = 1))
  | (_,.error _) => isTrue trivial

instance (label : Label) : Decidable (OneLink number state label) := by
  cases label <;> unfold OneLink <;> infer_instance

instance (label : Label) : Decidable (Single number state label) := by
  cases label <;> unfold Single <;> infer_instance

end Decidable

structure Invariant (state : State) : Prop where
  consistent : Consistent state.mount.world state.nlink
  listed : ∀ oid inode, state.mount.world.inodes oid = some inode → oid ∈ state.mount.cache.incore
  apart : ∀ oid other inode rival, state.mount.world.inodes oid = some inode → state.mount.world.inodes other = some rival →
    lowerFile inode = lowerFile rival → oid = other
  counted : ∀ oid inode, state.mount.world.inodes oid = some inode → Counted state.nlink inode

section Step

variable {number : Oid → Nat} {state : State}

variable {next : State}

theorem Invariant.fewer (invariant : Invariant state) (consistent : Consistent next.mount.world next.nlink)
    (fewer : ∀ place, next.nlink place ≤ state.nlink place)
    (keeps : ∀ oid inode, next.mount.world.inodes oid = some inode → oid ∈ next.mount.cache.incore ∧
      ∃ old, state.mount.world.inodes oid = some old ∧ lowerFile inode = lowerFile old ∧ inode.nlinkObserved = old.nlinkObserved) :
    Invariant next where
  consistent := consistent
  listed oid inode found := (keeps oid inode found).1
  apart oid other inode rival found known same := by
    obtain ⟨_,old,before,place,_⟩ := keeps oid inode found
    obtain ⟨_,past,earlier,there,_⟩ := keeps other rival known
    exact invariant.apart oid other old past before earlier (place.symm.trans (same.trans there))
  counted oid inode found := by
    obtain ⟨_,old,before,place,count⟩ := keeps oid inode found
    have counted : (state.nlink (lowerFile old) : Int) ≤ old.nlinkObserved := invariant.counted oid old before
    have less := fewer (lowerFile old)
    show (next.nlink (lowerFile inode) : Int) ≤ inode.nlinkObserved
    rw [place]
    omega

variable {oid : Oid}

theorem Invariant.put {inode : Inode} (invariant : Invariant state) (consistent : Consistent next.mount.world next.nlink)
    (inodes : next.mount.world.inodes = update state.mount.world.inodes oid (some inode))
    (incore : ∀ other, other = oid ∨ other ∈ state.mount.cache.incore → other ∈ next.mount.cache.incore)
    (nlink : ∀ place, place ≠ lowerFile inode → next.nlink place = state.nlink place)
    (own : ∀ other known, other ≠ oid → state.mount.world.inodes other = some known → lowerFile known ≠ lowerFile inode)
    (counted : Counted next.nlink inode) : Invariant next := by
  have cases_ (other : Oid) (known : Inode) (found : next.mount.world.inodes other = some known) :
      other = oid ∧ known = inode ∨ other ≠ oid ∧ state.mount.world.inodes other = some known := by
    rw [inodes] at found
    by_cases same : other = oid
    · subst same
      rw [update_self] at found
      exact .inl ⟨rfl,(Option.some.inj found).symm⟩
    · exact .inr ⟨same,by rwa [update_of_ne same] at found⟩
  constructor
  · exact consistent
  · intro other known found
    rcases cases_ other known found with ⟨same,_⟩ | ⟨_,before⟩
    · exact incore other (.inl same)
    · exact incore other (.inr (invariant.listed other known before))
  · intro first second known rival here there same
    rcases cases_ first known here with ⟨rfl,rfl⟩ | ⟨different,before⟩
    · rcases cases_ second rival there with ⟨rfl,_⟩ | ⟨other,past⟩
      · rfl
      · exact absurd same.symm (own second rival other past)
    · rcases cases_ second rival there with ⟨rfl,rfl⟩ | ⟨other,past⟩
      · exact absurd same (own first known different before)
      · exact invariant.apart first second known rival before past same
  · intro other known found
    rcases cases_ other known found with ⟨_,rfl⟩ | ⟨different,before⟩
    · exact counted
    · unfold Counted
      rw [nlink _ (own other known different before)]
      exact invariant.counted other known before

variable {old : Inode} {world : World}

theorem Invariant.recount {count : Nat} (invariant : Invariant state)
    (found : state.mount.world.inodes oid = some old) (inode : Inode) (place : lowerFile inode = lowerFile old)
    (consistent : Consistent world (update state.nlink (lowerFile old) count))
    (inodes : world.inodes = update state.mount.world.inodes oid (some inode))
    (counted : Counted (update state.nlink (lowerFile old) count) inode) :
    Invariant ⟨{state.mount with world := world},update state.nlink (lowerFile old) count⟩ := by
  refine invariant.put consistent inodes ?_ ?_ ?_ counted
  · rintro other (rfl | member)
    · exact invariant.listed other old found
    · exact member
  · intro other different
    exact update_of_ne (place ▸ different) ..
  · intro other known different there same
    exact different (invariant.apart other oid known old there found (same.trans place))

variable {fresh : Oid} {tier : Nat} {file : FileId}

theorem iget_unused {cache : Cache} (listed : ∀ oid inode, world.inodes oid = some inode → oid ∈ cache.incore)
    (made : world.inodes (iget number world cache fresh tier file).oid = none) {oid : Oid} {inode : Inode}
    (found : world.inodes oid = some inode) : lowerFile inode ≠ (tier,file) := by
  unfold iget at made
  split at made
  next other known chosen =>
    have present := (mem_held (List.mem_of_find?_eq_some chosen)).2
    rw [present] at made
    cases made
  next none_ =>
  rw [List.find?_eq_none] at none_
  intro same
  have member : (oid,inode) ∈ held world cache.incore := List.mem_filterMap.mpr ⟨oid,listed oid inode found,by simp [found]⟩
  exact none_ _ member (decide_eq_true ⟨congrArg Prod.fst same,congrArg Prod.snd same⟩)

theorem Invariant.iget (rel : RelPath) (change : Inode → Inode)
    (invariant : Invariant state) (got : (iget number state.mount.world state.mount.cache fresh tier file).oid = oid)
    (single : MadeSingle number state fresh tier file)
    (keeps : ∀ inode, lowerFile (change inode) = lowerFile inode ∧ (change inode).nlinkObserved = inode.nlinkObserved)
    (names : next.mount.world.names = state.mount.world.names)
    (inodes : next.mount.world.inodes = update state.mount.world.inodes oid
      (some (change ((state.mount.world.inodes oid).getD (newInode tier file rel)))))
    (incore : next.mount.cache.incore = state.mount.cache.incore.insert oid) (nlink : next.nlink = state.nlink) :
    Invariant next := by
  have consistent : Consistent next.mount.world next.nlink := nlink ▸ invariant.consistent.congr names
  refine invariant.put consistent inodes ?_ (fun _ _ => by rw [nlink]) ?_ ?_
  · intro other member
    rw [incore]
    exact List.mem_insert_iff.mpr member
  · intro other known different found
    rw [(keeps _).1]
    cases before : state.mount.world.inodes oid with
    | some old => exact fun same => different (invariant.apart other oid known old found before same)
    | none => exact iget_unused invariant.listed (got ▸ before) found
  · unfold Counted
    rw [nlink,(keeps _).1,(keeps _).2]
    cases before : state.mount.world.inodes oid with
    | some old => exact invariant.counted oid old before
    | none =>
      show (state.nlink (tier,file) : Int) ≤ 1
      rw [single (got ▸ before)]
      rfl

variable {parent : Nat} {rel : RelPath}

theorem Invariant.lookup {mask : Nat} {gen : Oid} (invariant : Invariant state)
    (single : Single number state (.lookup mask parent rel fresh gen))
    (taken : lookup number state mask parent rel fresh gen = some next) : Invariant next := by
  obtain ⟨mount,looked,rfl⟩ := Option.map_eq_some_iff.mp taken
  obtain ⟨place,found,rfl⟩ := Option.map_eq_some_iff.mp looked
  have guard := single place found
  cases place with
  | known known => exact invariant
  | lower place tracked =>
    obtain ⟨tier,file⟩ := place
    refine invariant.iget rel (fun inode => if tracked then placedInode rel tier inode else inode) rfl guard ?_
      (Resolve.identified_names ..) ?_ rfl rfl
    · intro inode
      cases tracked <;> exact ⟨rfl,rfl⟩
    · dsimp only [World.setInode]
      rw [Resolve.identified_inodes]

theorem Invariant.resolve (invariant : Invariant state) (single : ResolvedSingle number state fresh oid) :
    Invariant {state with mount := (recoveryResolveOid number state.mount fresh oid).1} := by
  unfold recoveryResolveOid
  split
  · exact invariant
  next absent =>
  cases led : recorded state.mount oid with
  | none => exact invariant
  | some target =>
    obtain ⟨record,place,file⟩ := target
    refine invariant.iget place.rel (replayedInode state.mount.world.pool record place) rfl (single _ led absent)
      (fun _ => ⟨rfl,rfl⟩) (Resolve.identified_names ..) ?_ rfl rfl
    dsimp only [instantiate,World.setInode]
    rw [Resolve.identified_inodes]

theorem Invariant.settle (invariant : Invariant state) (world : World) (names : world.names = state.mount.world.names)
    (keeps : ∀ oid inode, world.inodes oid = some inode → ∃ old, state.mount.world.inodes oid = some old ∧
      lowerFile inode = lowerFile old ∧ inode.nlinkObserved = old.nlinkObserved) (log : List Placement.PlacementRecord) :
    Invariant {state with mount := {state.mount with world := world, log := log}} := by
  refine invariant.fewer (invariant.consistent.congr names) (fun _ => Nat.le_refl _) (fun oid inode found => ?_)
  obtain ⟨old,before,same⟩ := keeps oid inode found
  exact ⟨invariant.listed oid old before,old,before,same⟩

theorem kept_setInode (found : world.inodes oid = some old) (inode : Inode)
    (place : lowerFile inode = lowerFile old) (count : inode.nlinkObserved = old.nlinkObserved) (other : Oid) (new : Inode)
    (there : (world.setInode oid inode).inodes other = some new) :
    ∃ before, world.inodes other = some before ∧ lowerFile new = lowerFile before ∧ new.nlinkObserved = before.nlinkObserved := by
  rw [World.setInode_inodes] at there
  split at there
  · next same =>
    cases there
    subst same
    exact ⟨old,found,place,count⟩
  · exact ⟨new,there,rfl,rfl⟩

theorem plan_spec (number : Oid → Nat) (mount : Mount) (fresh oid : Oid) (destTier seq : Nat) (force : Bool) :
    (∃ errno, plan number mount fresh oid destTier seq force = (mount,.error errno)) ∨
      (∃ errno, plan number mount fresh oid destTier seq force = ((recoveryResolveOid number mount fresh oid).1,.error errno)) ∨
      ∃ after found inode log, recoveryResolveOid number mount fresh oid = (after,some found) ∧
        after.world.inodes found = some inode ∧ canMove after.world inode force = true ∧
        plan number mount fresh oid destTier seq force = ({after with
          world := after.world.setInode found
            {inode with intendedTier := destTier, movementState := .planAccepted, transactionSeq := seq}
          log := log},.ok found) := by
  unfold plan
  dsimp only
  split
  · exact .inl ⟨_,rfl⟩
  split
  · exact .inl ⟨_,rfl⟩
  split
  · exact .inl ⟨_,rfl⟩
  rcases resolved : recoveryResolveOid number mount fresh oid with ⟨after,_ | found⟩ <;> dsimp only
  · exact .inr (.inl ⟨_,rfl⟩)
  rcases planAdmitted_spec after.world found destTier seq force with ⟨errno,same⟩ | ⟨inode,known,_,_,_,movable,same⟩
  · rw [same]
    exact .inr (.inl ⟨_,rfl⟩)
  · rw [same]
    exact .inr (.inr ⟨after,found,inode,_,rfl,known,movable,rfl⟩)

variable (invariant : Invariant state)
include invariant

theorem Invariant.plan {destTier seq : Nat} {force : Bool} (single : ResolvedSingle number state fresh oid) :
    Invariant {state with mount := (plan number state.mount fresh oid destTier seq force).1} := by
  have resolved := invariant.resolve single
  rcases plan_spec number state.mount fresh oid destTier seq force with
    ⟨errno,same⟩ | ⟨errno,same⟩ | ⟨after,found,inode,log,got,known,_,same⟩
  · rw [same]
    exact invariant
  · rw [same]
    exact resolved
  rw [got] at resolved
  rw [same]
  let planned : Inode := {inode with intendedTier := destTier, movementState := .planAccepted, transactionSeq := seq}
  exact resolved.settle (after.world.setInode found planned) rfl (kept_setInode known planned rfl rfl) log

theorem Invariant.create {mode : Nat} (taken : create number state oid tier rel mode = some next) : Invariant next := by
  unfold HardLinks.create at taken
  dsimp only at taken
  split at taken
  swap
  · cases taken
  next fresh =>
  obtain ⟨unlinked,unused⟩ := fresh
  obtain ⟨world,made,rfl⟩ := Option.map_eq_some_iff.mp taken
  unfold Namespace.create at made
  split at made
  swap
  · cases made
  cases made
  have added := Enough.add invariant.consistent ⟨tier,rel⟩ (tier,state.mount.world.nextFile)
  rw [unlinked] at added
  refine invariant.put ((consistent_setName added).congr rfl) rfl ?_ ?_ ?_ ?_
  · intro other member
    exact List.mem_insert_iff.mpr member
  · intro place other
    exact update_of_ne other ..
  · intro other known _ found
    have member : (other,known) ∈ held state.mount.world state.mount.cache.incore :=
      List.mem_filterMap.mpr ⟨other,invariant.listed other known found,by simp [found]⟩
    exact (of_decide_eq_true (List.all_eq_true.mp unused _ member)).1
  · show ((update state.nlink (tier,state.mount.world.nextFile) 1 (tier,state.mount.world.nextFile) : Nat) : Int) ≤ 1
    rw [update_self]
    rfl

variable {source : RelPath}

theorem Invariant.link {target : RelPath}
    (taken : step number state (.link oid parent source target) = some next) : Invariant next := by
  simp only [step,State.within] at taken
  split at taken
  · next world nlink done =>
    cases taken
    obtain ⟨inode,found,rfl,rfl,rfl⟩ := link_spec done
    exact invariant.recount found (linkedInode inode) rfl (invariant.consistent.link oid _ target) rfl
      (invariant.counted oid inode found).link
  · cases taken

theorem Invariant.unlink {last : Bool} (single : Single number state (.unlink oid rel last))
    (taken : step number state (.unlink oid rel last) = some next) : Invariant next := by
  simp only [step,State.within] at taken
  split at taken
  · next world nlink done =>
    cases taken
    obtain ⟨inode,found,⟨named,rfl,rfl⟩ | ⟨gone,rfl,rfl⟩⟩ := unlink_spec done
    · have positive := invariant.consistent.pos named
      exact invariant.recount found (unlinkedInode last inode) rfl (invariant.consistent.unlink oid _ named) rfl
        ((invariant.counted oid inode found).unlink positive last)
    · have same := update_eq_self (lowerFile inode) state.nlink
      have counted := counted_stale ((single inode found).resolve_left gone) last
      have kept := @Invariant.recount _ _ _ (state.mount.world.setInode oid (unlinkedInode last inode)) (state.nlink (lowerFile inode))
        invariant found (unlinkedInode last inode) rfl (by rw [same]; exact invariant.consistent.congr rfl) rfl (by rwa [same])
      rwa [same] at kept
  · cases taken

omit invariant

theorem unlinked_le (nlink : LinkCounts) (file place : Nat × FileId) :
    update nlink file (nlink file - 1) place ≤ nlink place := by
  by_cases same : place = file
  · subst same
    rw [update_self]
    exact Nat.sub_le ..
  · rw [update_of_ne same]

theorem renameLower_spec {nlink : LinkCounts} {inode : Inode} (target : RelPath)
    (consistent : Consistent world nlink) (named : world.names ⟨inode.lowerPath.mnt,source⟩ = some inode.lowerPath.file)
    (different : source ≠ target) :
    Consistent (renameLower world nlink inode source target).1 (renameLower world nlink inode source target).2 ∧
      (∀ place, (renameLower world nlink inode source target).2 place ≤ nlink place) ∧
      (renameLower world nlink inode source target).1.inodes = world.inodes ∧
      ∀ loc, loc.dir ≠ inode.lowerPath.mnt → (renameLower world nlink inode source target).1.names loc = world.names loc := by
  have leads : tierNames world ⟨inode.lowerPath.mnt,source⟩ = some (lowerFile inode) := by
    rw [tierNames,named]
    rfl
  have moved {counts : LinkCounts} (enough : Enough (update (update (tierNames world) ⟨inode.lowerPath.mnt,source⟩
      none) ⟨inode.lowerPath.mnt,target⟩ (some (lowerFile inode))) counts) :
      Consistent ((world.setName ⟨inode.lowerPath.mnt,source⟩ none).setName ⟨inode.lowerPath.mnt,target⟩
        (some inode.lowerPath.file)) counts := by
    rw [Consistent,tierNames_setName,tierNames_setName]
    exact enough
  have elsewhere (loc : Loc) (other : loc.dir ≠ inode.lowerPath.mnt) :
      ((world.setName ⟨inode.lowerPath.mnt,source⟩ none).setName ⟨inode.lowerPath.mnt,target⟩
        (some inode.lowerPath.file)).names loc = world.names loc := by
    have apart (rel : RelPath) : loc ≠ ⟨inode.lowerPath.mnt,rel⟩ := fun same => other (congrArg Loc.dir same)
    simp [World.setName,apart]
  unfold renameLower
  dsimp only
  split
  · exact ⟨moved (Enough.move consistent leads _),fun _ => Nat.le_refl _,rfl,elsewhere⟩
  next victim there =>
  split
  · exact ⟨consistent,fun _ => Nat.le_refl _,rfl,fun _ _ => rfl⟩
  refine ⟨moved ?_,unlinked_le nlink _,rfl,elsewhere⟩
  · have replaced : tierNames world ⟨inode.lowerPath.mnt,target⟩ = some (inode.lowerPath.mnt,victim) := by
      rw [tierNames,there]
      rfl
    have other : Loc.mk inode.lowerPath.mnt source ≠ ⟨inode.lowerPath.mnt,target⟩ := fun same => different (congrArg Loc.rel same)
    have removed := Enough.remove consistent replaced
    have freed := removed.move ((update_of_ne other ..).trans leads) ⟨inode.lowerPath.mnt,target⟩
    rw [update_comm other.symm,update_idem] at freed
    exact freed

theorem Invariant.rename {target : RelPath} {stale : Option Oid}
    (invariant : Invariant state) (taken : rename state oid parent source target stale = some next) : Invariant next := by
  unfold HardLinks.rename at taken
  dsimp only at taken
  split at taken
  · cases taken
  next inode found =>
  split at taken
  · cases taken
  next fits =>
  obtain ⟨named,different⟩ := not_or.mp fits
  obtain ⟨consistent,fewer,inodes,elsewhere⟩ := renameLower_spec target invariant.consistent (not_not.mp named) different
  generalize renameLower state.mount.world state.nlink inode source target = lower at taken consistent fewer inodes elsewhere
  obtain ⟨moved,nlink⟩ := lower
  have before : moved.inodes oid = some inode := by rw [inodes]; exact found
  -- The renamed inode stands on its old lower file.
  have renamed (other : Oid) (new : Inode) (there : (moved.setInode oid (renamedInode inode source target)).inodes other = some new) :
      ∃ before, state.mount.world.inodes other = some before ∧ lowerFile new = lowerFile before ∧
        new.nlinkObserved = before.nlinkObserved := by
    rw [← inodes]
    exact kept_setInode before (renamedInode inode source target) rfl rfl other new there
  split at taken
  · cases taken
    refine invariant.fewer (consistent.congr rfl) fewer (fun other new there => ?_)
    obtain ⟨before,past,same⟩ := renamed other new there
    exact ⟨invariant.listed other before past,before,past,same⟩
  next rival =>
  split at taken
  · cases taken
  next victim known =>
  split at taken
  · cases taken
  next fits =>
  cases taken
  simp only [not_or,not_not] at fits
  obtain ⟨apart,tier,stands,_⟩ := fits
  have there : (moved.setInode oid (renamedInode inode source target)).inodes rival = some victim := by
    rw [World.setInode_inodes,if_neg apart,inodes]
    exact known
  have leads : (moved.setInode oid (renamedInode inode source target)).names ⟨victim.lowerPath.mnt,target⟩ =
      some victim.lowerPath.file := (elsewhere _ tier).trans stands
  have dropped : Consistent (moved.setInode oid (renamedInode inode source target)) nlink := consistent.congr rfl
  refine invariant.fewer (dropped.unlink rival _ leads) (fun place => ?_) (fun other new after => ?_)
  · exact (unlinked_le nlink _ place).trans (fewer place)
  · obtain ⟨middle,past,place,count⟩ := kept_setInode there {victim with relPath := none} rfl rfl other new after
    obtain ⟨first,start,home,links⟩ := renamed other middle past
    exact ⟨invariant.listed other first start,first,start,place.trans home,count.trans links⟩

theorem Invariant.evict (invariant : Invariant state) (oid : Oid) :
    Invariant {state with mount := Resolve.evict state.mount oid} := by
  refine invariant.fewer (invariant.consistent.congr rfl) (fun _ => Nat.le_refl _) (fun other inode found => ?_)
  have different : other ≠ oid := by
    rintro rfl
    simp [Resolve.evict] at found
  have before : state.mount.world.inodes other = some inode := by
    simpa [Resolve.evict,different] using found
  exact ⟨(List.mem_erase_of_ne different).mpr (invariant.listed other inode before),inode,before,rfl,rfl⟩

theorem rebuild_keeps (mount : Mount) (visits : List (Loc × Oid)) :
    (Resolve.rebuild mount visits).world.inodes = mount.world.inodes ∧ (Resolve.rebuild mount visits).world.names = mount.world.names := by
  suffices kept : ∀ found : World × (Oid → Option Placement.ReplayRecord),
      (visits.foldl Resolve.scanName found).1.inodes = found.1.inodes ∧ (visits.foldl Resolve.scanName found).1.names = found.1.names from
    kept (mount.world,_)
  induction visits with
  | nil => exact fun _ => ⟨rfl,rfl⟩
  | cons visit rest ih =>
    intro found
    have one : (Resolve.scanName found visit).1.inodes = found.1.inodes ∧ (Resolve.scanName found visit).1.names = found.1.names := by
      unfold Resolve.scanName
      dsimp only
      split
      · exact ⟨rfl,rfl⟩
      split <;> exact ⟨rfl,rfl⟩
    exact ⟨(ih _).1.trans one.1,(ih _).2.trans one.2⟩

variable {label : Label}

theorem Invariant.step (invariant : Invariant state) (single : Single number state label)
    (taken : step number state label = some next) : Invariant next := by
  cases label with
  | create oid tier rel mode => exact invariant.create taken
  | link oid parent source target => exact invariant.link taken
  | unlink oid rel last => exact invariant.unlink single taken
  | rename oid parent source target stale => exact invariant.rename taken
  | lookup mask parent rel fresh gen => exact invariant.lookup single taken
  | resolve oid fresh =>
    cases taken
    exact invariant.resolve single
  | evict oid =>
    cases taken
    exact invariant.evict oid
  | rebuild visits =>
    cases taken
    obtain ⟨inodes,names⟩ := rebuild_keeps state.mount visits
    refine invariant.fewer (invariant.consistent.congr names) (fun _ => Nat.le_refl _) (fun oid inode found => ?_)
    have before : state.mount.world.inodes oid = some inode := inodes ▸ found
    exact ⟨invariant.listed oid inode before,inode,before,rfl,rfl⟩
  | remount kept =>
    cases taken
    exact invariant.fewer (invariant.consistent.congr rfl) (fun _ => Nat.le_refl _) (fun oid inode found => nomatch found)
  | plan fresh oid destTier seq force =>
    cases taken
    exact invariant.plan single.1
  | rollback oid seq =>
    cases taken
    rw [movementRollback]
    rcases settle_spec state.mount.world oid seq (fun movement => movement.preCutover = true ∨ movement = .failed) with
      same | ⟨inode,found,_,_,same⟩
    · rw [same]
      exact invariant
    · rw [same]
      let settled : Inode := {inode with movementState := .placed, intendedTier := inode.currentTier}
      exact invariant.settle (state.mount.world.setInode oid settled) rfl (kept_setInode found settled rfl rfl) state.mount.log

theorem Invariant.oneLink (invariant : Invariant state) (single : Single number state label) : OneLink number state label := by
  cases label with
  | plan fresh oid destTier seq force =>
    simp only [OneLink]
    rcases plan_spec number state.mount fresh oid destTier seq force with
      ⟨errno,same⟩ | ⟨errno,same⟩ | ⟨resolved,other,inode,log,got,known,movable,same⟩
    · rw [same]
      trivial
    · rw [same]
      trivial
    rw [same]
    have counted : (state.nlink (lowerFile inode) : Int) ≤ inode.nlinkObserved := by
      have there := (invariant.resolve single.1).counted other inode
      rw [got] at there
      exact there known
    have named : state.nlink (lowerFile inode) ≠ 0 := by
      have there := single.2 other (by rw [got]; rfl) inode
      rw [got] at there
      exact there known
    simp only [canMove,decide_eq_true_eq] at movable
    refine ⟨_,update_self ..,?_⟩
    show state.nlink (lowerFile inode) = 1
    omega
  | _ => trivial

end Step

theorem invariant_remount {mount : Mount} {nlink : LinkCounts} (kept : Nat) (consistent : Consistent mount.world nlink) :
    Invariant ⟨Resolve.remount mount kept,nlink⟩ where
  consistent := consistent.congr rfl
  listed _ _ found := nomatch found
  apart _ _ _ _ found := nomatch found
  counted _ _ found := nomatch found

/-- Where inodes are made for files with one link only, a plan is accepted for files with one link
only. -/
theorem plan_accepts_single_link (number : Oid → Nat) (mount : Mount) (kept : Nat) (nlink : LinkCounts) (labels : List Label)
    (consistent : Consistent mount.world nlink)
    (single : Guarded (step number) (Single number) ⟨Resolve.remount mount kept,nlink⟩ labels) :
    Guarded (step number) (OneLink number) ⟨Resolve.remount mount kept,nlink⟩ labels :=
  guarded_of_invariant _ Invariant (fun _ _ _ invariant guard taken => invariant.step guard taken)
    (fun _ _ invariant guard => invariant.oneLink guard) (invariant_remount kept consistent) single

def emptyTiers : State := ⟨Resolve.remount (Resolve.emptyMount StagingDrain.twoTierPool 0 0) 0,fun _ => 0⟩

theorem emptyTiers_consistent : Consistent (Resolve.emptyMount StagingDrain.twoTierPool 0 0).world (fun _ => 0) := by
  intro file listed _ leads
  cases listed with
  | nil => exact Nat.le_refl 0
  | cons name rest => cases leads name List.mem_cons_self

theorem plan_of_single_link : Guarded (step id) (OneLink id) emptyTiers
    [.create 1 0 ["a"] 0o600,.link 1 0 ["a"] ["b"],.unlink 1 ["b"] false,.evict 1,.lookup 3 0 ["a"] 9 0,.plan 9 1 1 5 false] :=
  plan_accepts_single_link id _ 0 _ _ emptyTiers_consistent (by decide)

/-- Linked, forgotten and looked up again. -/
theorem plan_of_two_links : ¬ Guarded (step id) (OneLink id) emptyTiers
    [.create 1 0 ["a"] 0o600,.link 1 0 ["a"] ["b"],.evict 1,.lookup 3 0 ["a"] 9 0,.plan 9 1 1 5 false] := by
  decide

end Smoothfs.HardLinks
