import Smoothfs.Coherence
import Smoothfs.RecoverySettles

/-! Which file `recoverObject` removes while users keep changing the pool. -/
namespace Smoothfs.RecoveryRemoval

open Program Control Movement Namespace Worker Recovery Coherence Run

/-- The file is no inode's `lower_path` and is a copy of the object. -/
def Leftover (oid : Oid) (world : World) (file : FileId) : Prop :=
  world.NotLive file ∧ (world.files file).object = oid

def OwnPath (oid : Oid) (rel : RelPath) (world : World) : Prop :=
  ∀ tier file, world.names ⟨tier,rel⟩ = some file →
    (world.files file).object = oid ∧ ∀ other, (world.files file).oid = some other → other = oid

/-- The pool is coherent, and the object is linked, or without an inode and
alone at its recorded path. -/
structure Ready (p : InterruptedObject) (world : World) : Prop where
  coherent : Coherent world
  linked : ∀ inode, world.inodes p.oid = some inode → inode.linked = true ∧ inode.relPath ≠ some []
  absent : world.inodes p.oid = none → OwnPath p.oid p.rel world

structure Missing (p : InterruptedObject) (world : World) : Prop where
  coherent : Coherent world
  absent : world.inodes p.oid = none
  own : OwnPath p.oid p.rel world

structure Standing (oid : Oid) (rel : RelPath) (tier : Nat) (world : World) : Prop where
  coherent : Coherent world
  place : ∃ inode, world.inodes oid = some inode ∧ inode.linked = true ∧ inode.relPath = some rel ∧ inode.lowerPath.mnt = tier

/-- The users' actions are clear and leave the object and its recorded path alone. INSPECT answers
ENOENT for an object without an inode only. -/
def calm (p : InterruptedObject) : Rely Op World Outcome Interference where
  outcome := fun world op outcome => op = .inspect p.oid → outcome = .failed .enoent ∨ outcome = .lost .enoent →
    world.inodes p.oid = none
  action := fun world => fun
    | .user action => Clear world action ∧ displaces p.oid action = false ∧
        (action = .truncate p.oid → ∀ inode, world.inodes p.oid = some inode → rehomes world inode = false) ∧
        (world.inodes p.oid = none → ∀ next, act world action = some next → next.inodes p.oid = none ∧ OwnPath p.oid p.rel next)
    | .foreign _ _ => False

section Assertions

variable {p : InterruptedObject} {world after : World} {rel : RelPath} {tier : Nat}

theorem calm_inode {before : Inode} {action : Action} (allowed : (calm p).action world (.user action))
    (found : world.inodes p.oid = some before) (acted : act world action = some after) :
    ∃ later, after.inodes p.oid = some later ∧ Keeps false before later := by
  obtain ⟨_,undisplaced,unmoved,_⟩ := allowed
  obtain ⟨later,present,keeps | ⟨file,rel,truncates,_,moves,_⟩⟩ := act_inode action found acted
  · rw [undisplaced] at keeps
    exact ⟨later,present,keeps⟩
  · rw [unmoved truncates before found] at moves
    cases moves

theorem stable_ready : Stable machine (calm p) (Ready p) := by
  rintro world next ⟨action,allowed,interfered⟩ ready
  cases action with
  | foreign op outcome => exact allowed.elim
  | user action =>
    refine ⟨ready.coherent.act action allowed.1 interfered,fun later present => ?_,fun gone => ?_⟩
    · cases found : world.inodes p.oid with
      | none => cases (allowed.2.2.2 found next interfered).1.symm.trans present
      | some before =>
        obtain ⟨other,same,keeps⟩ := calm_inode allowed found interfered
        cases same.symm.trans present
        rw [keeps.linked rfl,keeps.path rfl]
        exact ready.linked before found
    · cases found : world.inodes p.oid with
      | none => exact (allowed.2.2.2 found next interfered).2
      | some before =>
        obtain ⟨other,same,_⟩ := calm_inode allowed found interfered
        cases gone.symm.trans same

theorem stable_standing : Stable machine (calm p) (Standing p.oid rel tier) := by
  rintro world next ⟨action,allowed,interfered⟩ standing
  cases action with
  | foreign op outcome => exact allowed.elim
  | user action =>
    obtain ⟨before,found,linked,path,mnt⟩ := standing.place
    obtain ⟨later,present,keeps⟩ := calm_inode allowed found interfered
    exact ⟨standing.coherent.act action allowed.1 interfered,later,present,(keeps.linked rfl).trans linked,
      (keeps.path rfl).trans path,keeps.mnt.trans mnt⟩

theorem Ready.standing (ready : Ready p world) {ins : InspectResult} (inspected : inspect world p.oid = .ok ins) :
    ins.relPath ≠ [] ∧ Standing p.oid ins.relPath ins.currentTier world := by
  obtain ⟨inode,found,rfl⟩ := (inspect_ok ..).mp inspected
  obtain ⟨linked,nonempty⟩ := ready.linked inode found
  obtain ⟨rel,here⟩ := ready.coherent.linked found linked
  have path : (inspectReply inode).relPath = rel := by
    rw [inspectReply,here.path,Option.getD_some]
  rw [path]
  refine ⟨fun empty => nonempty (by rw [here.path,empty]),ready.coherent,inode,found,linked,here.path,here.tier.symm⟩

theorem stable_missing : Stable machine (calm p) (Missing p) := by
  rintro world next ⟨action,allowed,interfered⟩ missing
  cases action with
  | foreign op outcome => exact allowed.elim
  | user action =>
    obtain ⟨absent,own⟩ := allowed.2.2.2 missing.absent next interfered
    exact ⟨missing.coherent.act action allowed.1 interfered,absent,own⟩

theorem Missing.looked (missing : Missing p world) (named : p.rel ≠ []) (order : List Nat) (outcome : Outcome)
    (reply : Reply (.lookupObject order p.rel)) (performed : perform world (.lookupObject order p.rel) outcome = some (after,reply)) :
    Ready p after := by
  rcases perform_lookupObject order p.rel performed with rfl | ⟨tier,file,oid,found,stamped,absent,rfl⟩
  · refine ⟨missing.coherent,fun inode present => ?_,fun _ => missing.own⟩
    cases missing.absent.symm.trans present
  cases (missing.own tier file found).2 oid stamped
  refine ⟨missing.coherent.instantiate p.oid tier file p.rel absent found (fun place copy there => (missing.own place copy there).1),
    fun inode present => ?_,fun gone => ?_⟩
  · cases (Function.update_self p.oid _ _).symm.trans present
    exact ⟨rfl,fun same => named (Option.some.inj same)⟩
  · cases (Function.update_self p.oid _ _).symm.trans gone

theorem Standing.leftover (standing : Standing p.oid rel tier world) (dir : LowerDir) (different : dir ≠ tier) (file : FileId)
    (named : world.names ⟨dir,rel⟩ = some file) : Leftover p.oid world file := by
  obtain ⟨inode,found,linked,path,rfl⟩ := standing.place
  exact standing.coherent.copy (standing.coherent.at found linked path) dir file found different named

end Assertions

section Triples

variable {p : InterruptedObject} {check : World → Op → Prop} {rel : RelPath} {tier : Nat}

def Hits (oid : Oid) (world : World) (op : Op) : Prop :=
  ∀ loc, op = .remove loc → ∀ file, world.names loc = some file → Leftover oid world file

theorem hits_other (oid : Oid) (world : World) (op : Op) (other : ∀ loc, op ≠ .remove loc) : Hits oid world op :=
  fun loc equal => absurd equal (other loc)

theorem inspect_replies {world after : World} {outcome : Outcome} {reply : Reply (.inspect p.oid)}
    (allowed : (calm p).outcome world (.inspect p.oid) outcome) (performed : perform world (.inspect p.oid) outcome = some (after,reply)) :
    after = world ∧ (∀ ins, reply = .ok ins → inspect world p.oid = .ok ins) ∧
      (reply = .error .enoent → world.inodes p.oid = none) := by
  cases outcome with
  | done =>
    cases performed
    refine ⟨rfl,fun ins same => same,fun missing => ?_⟩
    change inspect world p.oid = .error .enoent at missing
    unfold inspect at missing
    split at missing
    · assumption
    · cases missing
  | failed errno =>
    cases performed
    refine ⟨rfl,nofun,fun missing => ?_⟩
    cases missing
    exact allowed rfl (.inl rfl)
  | lost errno =>
    cases performed
    refine ⟨rfl,nofun,fun missing => ?_⟩
    cases missing
    exact allowed rfl (.inr rfl)
  | fault | short => cases performed

theorem triple_idle {α : Type} {pre : World → Prop} (stable : Stable machine (calm p) pre) {program : Act α}
    (uses : Uses (fun op => op.idle = true) program) :
    Triple machine (calm p) (Hits p.oid) pre program (Ends (fun _ => pre) pre) := by
  refine triple_uses stable (fun world op idle _ => hits_other p.oid world op fun loc equal => ?_)
    (fun world op outcome after reply idle holds _ performed => ?_) uses
  · rw [equal] at idle
    cases idle
  · rw [perform_idle idle performed]
    exact holds

def Shown (oid : Oid) (ins : InspectResult) (world : World) : Prop :=
  ins.relPath ≠ [] ∧ Standing oid ins.relPath ins.currentTier world

theorem stable_shown (ins : InspectResult) : Stable machine (calm p) (Shown p.oid ins) :=
  fun world next interferes holds => ⟨holds.1,stable_standing world next interferes holds.2⟩

theorem stable_true : Stable machine (calm p) (fun _ => True) :=
  fun _ _ _ _ => trivial

theorem triple_inspect : Triple machine (calm p) (Hits p.oid) (Ready p) (request (.inspect p.oid) "inspect")
    (Ends (Shown p.oid) (fun _ => True)) := by
  refine triple_request _ stable_ready stable_shown stable_true (fun world _ => hits_other _ _ _ nofun) ?_
  intro world outcome after reply ready allowed performed
  obtain ⟨rfl,shows,_⟩ := inspect_replies allowed performed
  cases reply with
  | ok ins => exact ready.standing (shows ins rfl)
  | error errno => trivial

theorem triple_warm (exposed : Bool) (order : RelPath → List Nat) :
    Triple machine (calm p) (Hits p.oid) (Missing p) (warmRecoveryObject exposed order p.rel p.oid)
      (Ends (fun _ => Ready p) (fun _ => True)) := by
  refine triple_seq (triple_require _ _ stable_missing) (fun _ => triple_pure fun usable => ?_)
  have named : p.rel ≠ [] := (of_decide_eq_true (of_decide_eq_true usable).2).1
  refine triple_seq (triple_idle stable_missing (uses_request .readSettings _ rfl)) fun _ => ?_
  have looks : Triple machine (calm p) (Hits p.oid) (Missing p) (request (.lookupObject (order p.rel) p.rel) "lstat")
      (Ends (fun _ => Ready p) (fun _ => True)) := by
    refine triple_request _ stable_missing (fun _ => stable_ready) stable_true (fun world _ => hits_other _ _ _ nofun) ?_
    intro world outcome after reply missing _ performed
    have looked := missing.looked named (order p.rel) outcome reply performed
    cases reply with
    | ok found => exact looked
    | error errno => trivial
  refine triple_seq looks fun found => ?_
  · refine (triple_require _ _ stable_ready).consequence (fun _ => id) fun result world holds => ?_
    cases result with
    | ok value => exact holds.2
    | error error => trivial

theorem triple_inspectObject (exposed : Bool) (order : RelPath → List Nat) :
    Triple machine (calm p) (Hits p.oid) (Ready p) (inspectObject exposed order p) (Ends (Shown p.oid) (fun _ => True)) := by
  refine triple_call stable_ready
    (fun reply world => (∀ ins, reply = .ok ins → Shown p.oid ins world) ∧ (reply = .error .enoent → Missing p world))
    (fun world _ => hits_other _ _ _ nofun) (fun world outcome after reply ready allowed performed => ?_) (fun reply => ?_)
  · obtain ⟨rfl,shows,missing⟩ := inspect_replies allowed performed
    refine ⟨fun ins same => ready.standing (shows ins same),fun same => ?_⟩
    exact ⟨ready.coherent,missing same,ready.absent (missing same)⟩
  · cases reply with
    | ok ins => exact (triple_done (stable_shown ins) (fun _ => id)).consequence (fun _ holds => holds.1 ins rfl) (fun _ _ => id)
    | error errno =>
      dsimp only
      split
      · next enoent =>
        subst enoent
        have warmed := triple_within "instantiate interrupted object" _ (triple_warm (p := p) exposed order) (fun _ => stable_ready)
          stable_true
        exact (triple_seq warmed (fun _ => triple_inspect)).consequence
          (fun world holds => holds.2 rfl) (fun _ _ => id)
      · exact (triple_fail stable_true (fun _ => id)).consequence (fun _ _ => trivial) (fun _ _ => id)

structure Rooted (tiers : List Tier) : Prop where
  root : ∀ tier ∈ tiers, tier.lower = tier.rank
  ranked : (tiers.map (·.rank)).Nodup

structure Picked (tiers : List Tier) (rank : Nat) (sides : Sides) : Prop where
  current : sides.current ∈ tiers
  rank : sides.current.rank = rank
  other : sides.other ∈ tiers
  distinct : sides.other.id ≠ sides.current.id

theorem Rooted.other_lower {tiers : List Tier} {rank : Nat} {sides : Sides} (rooted : Rooted tiers) (picked : Picked tiers rank sides) :
    sides.other.lower ≠ rank := by
  intro same
  rw [rooted.root _ picked.other,← picked.rank] at same
  exact picked.distinct (congrArg Tier.id (List.inj_on_of_nodup_map rooted.ranked picked.other picked.current same))

theorem returns_chooseSides (tiers : List Tier) (ins : InspectResult) :
    Returns (Picked tiers ins.currentTier) (chooseSides tiers p ins) := by
  have tier (found : Option Tier) (text : String) : Returns (fun tier => found = some tier) (requireTier found text) := by
    cases found with
    | none => trivial
    | some known => exact rfl
  have condition (met : Bool) (error : GoError) : Returns (fun _ => met = true) (require met error) := by
    unfold require
    split
    · assumption
    · trivial
  refine returns_bind (returns_any _) fun _ _ => returns_bind (tier _ _) fun current ranked => ?_
  refine returns_bind (returns_any _) fun _ _ => returns_bind (returns_any _) fun ⟨source,destination⟩ _ => ?_
  refine returns_bind (condition _ _) fun _ distinct => returns_bind (tier _ _) fun from_ fromFound => ?_
  refine returns_bind (tier _ _) fun into intoFound => returns_bind (condition _ _) fun _ within => ?_
  obtain ⟨member,rank⟩ := RecoverySettles.tierOfRank_spec _ ranked
  obtain ⟨fromMember,fromID⟩ := RecoverySettles.tierOfID_spec _ fromFound
  obtain ⟨intoMember,intoID⟩ := RecoverySettles.tierOfID_spec _ intoFound
  have distinct := (of_decide_eq_true distinct).2
  refine ⟨member,rank,?_,?_⟩ <;> dsimp only <;> split
  · exact fromMember
  · exact intoMember
  · next switched =>
    rw [fromID,switched]
    exact distinct
  · next home =>
    rw [intoID]
    exact fun same => home same.symm

theorem triple_harmless {α : Type} (program : Act α) (uses : Uses (fun op => ∀ loc, op ≠ .remove loc) program) :
    Triple machine (calm p) (Hits p.oid) (fun _ => True) program (Ends (fun _ _ => True) (fun _ => True)) :=
  triple_uses stable_true (fun world op other _ => hits_other p.oid world op other) (fun _ _ _ _ _ _ _ _ _ => trivial) uses

end Triples

theorem twoTierSetting_rooted (id : String) (space : NamespaceRow)
    (known : RecoverySettles.twoTierSetting.namespaces id = some space) : Rooted space.tiers := by
  cases known
  refine ⟨fun tier member => ?_,by decide⟩
  rcases List.mem_cons.mp member with rfl | member
  · rfl
  · cases List.mem_singleton.mp member
    rfl

end Smoothfs.RecoveryRemoval
