import Smoothfs.Lookup

/-! What is left of a name after unlink or rename took it away. The two act on one
lower file, while lookup and readdir look at every tier. -/
namespace Smoothfs.Removal

open Namespace Control Run Lookup
open StagingDrain (State Drain unlinkStep clearStaging emptyPool twoTierPool)

/-- `truncateOpen` goes through a descriptor of an unlinked file, whose dentry still has the path
`rel`. -/
inductive Label
  | base (label : StagingDrain.Label)
  | truncateOpen (oid : Oid) (rel : RelPath)
  deriving DecidableEq, Repr

def truncateOpen (world : World) (oid : Oid) (rel : RelPath) : Option World :=
  (world.inodes oid).bind fun inode =>
    if ¬ inode.linked ∧ ¬ world.pool.cacheMode ∧ shouldStageTruncate world inode then stageTruncateToFast world oid inode rel
    else none

def step (state : State) : Label → Option State
  | .base label => StagingDrain.step state label
  | .truncateOpen oid rel => (truncateOpen state.world oid rel).map fun world =>
    {state with world := world, stale := Function.update state.stale oid none}

/-- With the paths that are recorded in the inodes. -/
def recordedWorld (state : State) : World :=
  {state.world with inodes := fun oid => (state.world.inodes oid).map fun inode =>
    {inode with relPath := (state.stale oid).or inode.relPath}}

def puts (world : World) : Action → Option RelPath
  | .create _ _ rel _ => some rel
  | .rename _ target _ => some target
  | .truncate oid =>
    (world.inodes oid).bind fun inode =>
      if ¬ world.pool.cacheMode ∧ shouldStageTruncate world inode then inode.relPath else none
  | _ => none

/-- The steps that put no lower file at the path. -/
def Spares (rel : RelPath) (state : State) : Label → Prop
  | .base (.user action) => puts state.world action ≠ some rel
  | .base (.renameDir _ new) => ¬ new <+: rel
  | .base (.control (.openDestination loc _) _) => loc.rel ≠ rel
  | .truncateOpen _ path => path ≠ rel
  | _ => True

def removes (world : World) : Action → Option (Nat × RelPath)
  | .unlink oid | .rename oid _ _ =>
    (world.inodes oid).bind fun inode => inode.relPath.map (Prod.mk inode.lowerPath.mnt)
  | _ => none

def Gone (world : World) (rel : RelPath) : Prop :=
  ∀ tier, world.names ⟨tier,rel⟩ = none

/-- No inode in `path_map` whose lower file has a link left records the path. -/
def Unkeyed (state : State) (cache : Cache) (live : Oid → Bool) (rel : RelPath) : Prop :=
  ∀ oid ∈ cache.keyed, live oid = true → ∀ inode, (recordedWorld state).inodes oid = some inode → inode.relPath ≠ some rel

def KeepsOff (rel : RelPath) (before after : World) : Prop :=
  ∀ tier, before.names ⟨tier,rel⟩ = none → after.names ⟨tier,rel⟩ = none

section Steps

variable {rel : RelPath} {world after : World}

theorem keepsOff_refl (rel : RelPath) (world : World) : KeepsOff rel world world :=
  fun _ => id

theorem setName_absent {loc : Loc} {value : Option FileId} {tier : Nat} (absent : world.names ⟨tier,rel⟩ = none)
    (elsewhere : value = none ∨ loc.rel ≠ rel) : (world.setName loc value).names ⟨tier,rel⟩ = none := by
  rw [World.setName_names]
  split
  · next same =>
    rcases elsewhere with nothing | other
    · exact nothing
    · rw [← same] at other
      exact absurd rfl other
  · exact absent

theorem dropReplaced_absent {tier mnt : Nat} {target : RelPath} {other : Oid} {victim : Inode}
    (absent : world.names ⟨tier,rel⟩ = none) : (dropReplaced world mnt target other victim).names ⟨tier,rel⟩ = none := by
  unfold dropReplaced
  split
  · exact absent
  · exact setName_absent absent (.inl rfl)

theorem stage_keepsOff {oid : Oid} {inode : Inode} {path : RelPath} (elsewhere : path ≠ rel)
    (staged : stageTruncateToFast world oid inode path = some after) : KeepsOff rel world after := by
  rcases stage_spec world after path staged with ⟨_,_,_,_,rfl⟩ | ⟨_,_,_,rfl⟩
  · exact fun _ => id
  · exact fun _ absent => setName_absent absent (.inr elsewhere)

theorem act_keepsOff (action : Action) (spares : puts world action ≠ some rel) (acted : act world action = some after) :
    KeepsOff rel world after := by
  intro tier absent
  cases action with
  | create oid place path mode =>
    obtain ⟨_,_,_,rfl⟩ := create_spec world after acted
    exact setName_absent absent (.inr fun same => spares (by rw [← same]; rfl))
  | write | setAttrs =>
    obtain ⟨inode,_,rfl⟩ := Option.map_eq_some_iff.mp acted
    exact absent
  | truncate oid =>
    rcases truncate_spec world after acted with written | ⟨inode,path,found,there,rehomes,staged⟩
    · obtain ⟨inode,_,rfl⟩ := Option.map_eq_some_iff.mp written
      exact absent
    have elsewhere : path ≠ rel := by
      rintro rfl
      exact spares (by simp [puts,found,there,rehomes.1,rehomes.2])
    exact stage_keepsOff elsewhere staged tier absent
  | rename oid target replaced =>
    have elsewhere : target ≠ rel := fun same => spares (by rw [← same]; rfl)
    obtain ⟨inode,source,_,_,_,_,result⟩ := rename_spec world after oid target replaced acted
    have lower : (renameLower world oid inode source target).names ⟨tier,rel⟩ = none :=
      setName_absent (setName_absent absent (.inl rfl)) (.inr elsewhere)
    rcases result with ⟨_,rfl⟩ | ⟨other,victim,_,_,_,_,_,rfl⟩
    · exact lower
    · exact dropReplaced_absent lower
  | unlink oid =>
    obtain ⟨inode,path,_,_,_,rfl⟩ := unlink_spec world after oid acted
    exact setName_absent absent (.inl rfl)
  | tick =>
    cases acted
    exact absent

theorem perform_keepsOff {op : Op} {outcome : Outcome} {reply : Reply op}
    (spares : ∀ loc object, op = .openDestination loc object → loc.rel ≠ rel)
    (performed : perform world op outcome = some (after,reply)) : KeepsOff rel world after := by
  intro tier absent
  rcases perform_changes_names performed with
    same | ⟨loc,object,rfl,_,opened⟩ | ⟨loc,_,removed⟩
  · rw [same,absent]
  · rw [opened]
    exact setName_absent absent (.inr (spares loc object rfl))
  · rw [removed]
    exact setName_absent absent (.inl rfl)

end Steps

theorem unlinkStep_keepsOff (rel : RelPath) (state : State) (index : Nat) (drain : Drain) :
    KeepsOff rel state.world (unlinkStep state index drain).world := by
  unfold unlinkStep
  split
  · exact keepsOff_refl rel _
  · exact keepsOff_refl rel _
  · exact fun _ absent => setName_absent absent (.inl rfl)

theorem clearStaging_keepsOff (rel : RelPath) (world : World) (oid : Oid) (tier : Nat) :
    KeepsOff rel world (clearStaging world oid tier) := by
  unfold clearStaging
  split
  · exact keepsOff_refl rel world
  · split <;> exact fun _ => id

theorem step_keepsOff {rel : RelPath} {state next : State} {label : Label} (spares : Spares rel state label)
    (taken : step state label = some next) : KeepsOff rel state.world next.world := by
  cases label with
  | truncateOpen oid path =>
    obtain ⟨world,truncated,rfl⟩ := Option.map_eq_some_iff.mp taken
    obtain ⟨inode,_,staged⟩ := Option.bind_eq_some_iff.mp truncated
    split at staged
    · exact stage_keepsOff spares staged
    · cases staged
  | base label =>
    cases label with
    | user action =>
      obtain ⟨world,acted,rfl⟩ := Option.map_eq_some_iff.mp taken
      exact act_keepsOff action spares acted
    | renameDir old new =>
      simp only [step,StagingDrain.step] at taken
      split at taken
      · cases taken
      cases taken
      intro tier absent
      simp only [StagingDrain.renameDir,if_neg spares]
      split
      · rfl
      · exact absent
    | control op outcome =>
      obtain ⟨world,controlled,rfl⟩ := Option.map_eq_some_iff.mp taken
      obtain ⟨before,after,reply,same,performed,names⟩ := StagingDrain.controlStep_names controlled
      have keeps : KeepsOff rel before after := by
        apply perform_keepsOff _ performed
        rintro loc object rfl
        exact spares
      intro tier absent
      rw [names]
      exact keeps tier (by rw [same]; exact absent)
    | storeMask mask =>
      cases taken
      exact keepsOff_refl rel state.world
    | begin oid =>
      obtain ⟨inode,_,begun⟩ := Option.bind_eq_some_iff.mp taken
      split at begun
      · obtain ⟨path,_,rfl⟩ := Option.map_eq_some_iff.mp begun
        exact keepsOff_refl rel state.world
      · cases begun
    | unlink index =>
      obtain ⟨drain,_,_,rfl⟩ := StagingDrain.step_unlink taken
      exact unlinkStep_keepsOff rel state index drain
    | fail index =>
      cases StagingDrain.step_fail taken
      exact keepsOff_refl rel state.world
    | finish index =>
      obtain ⟨drain,rfl⟩ := StagingDrain.step_finish taken
      exact clearStaging_keepsOff rel state.world drain.oid drain.tier

theorem act_removes {world after : World} {mnt : Nat} {rel : RelPath} (action : Action)
    (removed : removes world action = some (mnt,rel)) (acted : act world action = some after) :
    KeepsOff rel world after ∧ after.names ⟨mnt,rel⟩ = none := by
  cases action with
  | unlink oid =>
    refine ⟨act_keepsOff (.unlink oid) nofun acted,?_⟩
    obtain ⟨inode,path,found,there,_,rfl⟩ := unlink_spec world after oid acted
    simp only [removes,found,there,Option.bind_some] at removed
    obtain ⟨rfl,rfl⟩ := removed
    change (world.setName _ none).names _ = none
    simp [World.setName_names]
  | rename oid target replaced =>
    obtain ⟨inode,source,found,there,_,different,result⟩ := rename_spec world after oid target replaced acted
    simp only [removes,found,there,Option.bind_some,Option.map_some,Option.some.injEq,Prod.mk.injEq] at removed
    obtain ⟨rfl,rfl⟩ := removed
    have spares : puts world (.rename oid target replaced) ≠ some source := fun same => different (Option.some.inj same).symm
    refine ⟨act_keepsOff _ spares acted,?_⟩
    have lower : (renameLower world oid inode source target).names ⟨inode.lowerPath.mnt,source⟩ = none := by
      change ((world.setName _ none).setName _ _).names _ = none
      simp [World.setName_names,different]
    rcases result with ⟨_,rfl⟩ | ⟨other,victim,_,_,_,_,_,rfl⟩
    · exact lower
    · exact dropReplaced_absent lower
  | _ => cases removed

theorem Gone.unseen {state : State} {rel : RelPath} {cache : Cache} {live : Oid → Bool} (gone : Gone state.world rel)
    (unkeyed : Unkeyed state cache live rel) (number : Oid → Nat) (mask parent currentTier : Nat) (fresh : Oid) :
    lookupInner number (recordedWorld state) cache live mask parent rel fresh = none ∧
      readdirLists (recordedWorld state) mask parent currentTier rel = false := by
  have gone (tier : Nat) : (recordedWorld state).names ⟨tier,rel⟩ = none := gone tier
  have nowhere (order : List Nat) : CrashRecovery.reachedByName (recordedWorld state) order rel = none := by
    simp [CrashRecovery.reachedByName,gone]
  constructor
  · have unmapped : replayed (recordedWorld state) cache live rel = none := by
      rw [replayed,Option.filter_eq_none_iff]
      intro known entry alive
      obtain ⟨keyed,present⟩ := mem_held (List.mem_of_find?_eq_some entry)
      have path := List.find?_some entry
      exact unkeyed known.1 keyed alive known.2 present (of_decide_eq_true path)
    unfold lookupInner reached search
    simp [nowhere,gone,unmapped]
  · simp [readdirLists,gone]

/-- A removed name is neither found nor listed, if the object's tier was the only one that had a
file there. -/
theorem removed_name_unseen (start final : State) (action : Action) (mnt : Nat) (rel : RelPath) (later : List Label)
    (removed : removes start.world action = some (mnt,rel))
    (only : ∀ tier, tier ≠ mnt → start.world.names ⟨tier,rel⟩ = none)
    (spared : ∀ next, step start (.base (.user action)) = some next → Guarded step (Spares rel) next later)
    (reached : run step start (.base (.user action)::later) = some final) (number : Oid → Nat) (cache : Cache) (live : Oid → Bool)
    (unkeyed : Unkeyed final cache live rel) (mask parent currentTier : Nat) (fresh : Oid) :
    lookupInner number (recordedWorld final) cache live mask parent rel fresh = none ∧
      readdirLists (recordedWorld final) mask parent currentTier rel = false := by
  obtain ⟨next,taken,reached⟩ := (run_cons step start final _ later).mp reached
  have guarded := spared next taken
  obtain ⟨world,acted,rfl⟩ := Option.map_eq_some_iff.mp taken
  obtain ⟨kept,gone⟩ := act_removes action removed acted
  have first : Gone world rel := by
    intro tier
    by_cases own : tier = mnt
    · rw [own]
      exact gone
    · exact kept tier (only tier own)
  have final_gone : Gone final.world rel := by
    refine invariant step (Spares rel) (fun state => Gone state.world rel) ?_ _ final later first guarded reached
    intro state label next absent spares taken tier
    exact step_keepsOff spares taken tier (absent tier)
  exact final_gone.unseen unkeyed number mask parent currentTier fresh

def oneFile : State :=
  (step (emptyPool twoTierPool 0 0) (.base (.user (.create 7 1 ["a"] 0o600)))).getD (emptyPool twoTierPool 0 0)

theorem unlinked_name_unseen : ∃ final,
    run step oneFile [.base (.user (.unlink 7)),.base (.user (.create 8 0 ["b"] 0o600))] = some final ∧
    lookupInner id (recordedWorld final) ⟨[7,8],[7,8]⟩ (fun _ => true) 3 0 ["a"] 9 = none ∧
      readdirLists (recordedWorld final) 3 0 0 ["a"] = false := by
  refine ⟨_,rfl,?_⟩
  refine removed_name_unseen oneFile _ (.unlink 7) 1 ["a"] [.base (.user (.create 8 0 ["b"] 0o600))] rfl ?_ ?_ rfl
    id ⟨[7,8],[7,8]⟩ (fun _ => true) ?_ 3 0 0 9
  · intro tier other
    change ((emptyPool twoTierPool 0 0).world.setName ⟨1,["a"]⟩ (some 0)).names ⟨tier,["a"]⟩ = none
    rw [World.setName_names,if_neg (fun same => other (congrArg Loc.dir same))]
    rfl
  · intro next _
    exact ⟨by simp [Spares,puts],fun _ _ => trivial⟩
  · intro oid keyed _ inode found
    rcases List.mem_cons.mp keyed with rfl | keyed
    · cases found
      decide
    · cases List.mem_singleton.mp keyed
      cases found
      decide

def survivingNames : List (List Label) :=
  [[.base (.user (.create 7 1 ["a"] 0o600)),.base (.user (.truncate 7)),.base (.user (.unlink 7))],
    [.base (.user (.create 7 0 ["a"] 0o600)),.base (.control (.movePlan 7 1 1) .done),
      .base (.control (.openDestination ⟨1,["a"]⟩ 7) .done),.base (.user (.unlink 7))],
    [.base (.user (.create 7 1 ["a"] 0o600)),.base (.user (.unlink 7)),.truncateOpen 7 ["a"]]]

/-- The key of the first file stays behind when its directory is renamed. -/
def staleKey : List Label :=
  [.base (.user (.create 7 0 ["d","a"] 0o600)),.base (.renameDir ["d"] ["x"]),.base (.user (.create 8 0 ["d","a"] 0o600)),
    .base (.user (.unlink 8))]

theorem unlinked_name_found : survivingNames.map (fun labels => (run step (emptyPool twoTierPool 0 0) labels).map fun state =>
      ((lookupInner id (recordedWorld state) ⟨[],[]⟩ (fun _ => true) 3 0 ["a"] 9).isSome,
        readdirLists (recordedWorld state) 3 0 0 ["a"])) =
      [some (true,true),some (true,true),some (true,true)] ∧
    (run step (emptyPool twoTierPool 0 0) staleKey).map (fun state =>
      (lookupInner id (recordedWorld state) ⟨[7],[7]⟩ (fun _ => true) 3 0 ["d","a"] 9).map Found.oid) = some (some 7) := by
  decide +kernel

end Smoothfs.Removal
