import Voltha.Cluster.Leader
import Voltha.Lib.Run

/-!
# The records that a reassignment leaves

The second half of `Leader._reassign_core_stores`: the new mapping is stored, then the assignments
of the members that had no slot, and then the records of the members that have left are deleted.
A delete takes out all keys that start with the id of the member.  So it also takes out the records
of a member whose id is longer, and of a member that came back with another host.

The other tasks of the leader go on while a reassignment waits.  `_track_members` may replace the
list of members, and `_get_core_store_mappings`, which nothing waits for, the mapping.  Both are read
again after the put of the mapping.

* `aside_step`: the steps of the other tasks.
* `assigns_savingMapping`: what a reassignment issues when all its operations succeed.
* `storeAfter_assignmentKey`: the assignment of a member after that.
* `records_right_iff`: **the records are right exactly if no id of a member that has left starts
  the id of an active one, the assignments of the members that stay were right before, and the
  other tasks leave the new members and their slots alone**.
-/

namespace Voltha.Cluster

open List hiding get
open OrderedDict
open Hex

/-! ## Stores -/

abbrev Store := Text → Option Value

/-- An operation on a store. -/
def KvOp.apply (s : Store) : KvOp → Store
  | .put key value => fun k => if k = key then some value else s k
  | .delete key => fun k => if key <+: k then none else s k

theorem KvOp.apply_put (s : Store) (key : Text) (value : Value) (k : Text) :
    (KvOp.put key value).apply s k = if k = key then some value else s k := rfl

theorem KvOp.apply_delete (s : Store) (key k : Text) :
    (KvOp.delete key).apply s k = if key <+: k then none else s k := rfl

/-- A store after what a leader has issued. -/
def storeAfter (s : Store) (issued : List Effect) : Store :=
  issued.foldl (fun s e => match e with
    | .kv op => op.apply s
    | .armSoakTimer => s) s

theorem storeAfter_append (s : Store) (l l' : List Effect) :
    storeAfter s (l ++ l') = storeAfter (storeAfter s l) l' := foldl_append

theorem storeAfter_deletes (s : Store) (keys : List Text) (k : Text) :
    storeAfter s (keys.map fun key => .kv (.delete key)) k =
      if ∃ key ∈ keys, key <+: k then none else s k := by
  induction keys generalizing s with
  | nil => simp [storeAfter]
  | cons key keys ih =>
    have hstep : storeAfter s ((key :: keys).map fun key => .kv (.delete key)) =
        storeAfter ((KvOp.delete key).apply s) (keys.map fun key => .kv (.delete key)) := rfl
    rw [hstep, ih, KvOp.apply_delete]
    simp only [mem_cons, exists_eq_or_imp]
    by_cases hrest : ∃ key ∈ keys, key <+: k
    · rw [if_pos hrest, if_pos (.inr hrest)]
    · rw [if_neg hrest]
      by_cases hkey : key <+: k
      · rw [if_pos hkey, if_pos (.inl hkey)]
      · rw [if_neg hkey, if_neg (not_or.2 ⟨hkey, hrest⟩)]

/-! ## Keys -/

theorem assignmentKey_injective {i j : Text} (h : assignmentKey i = assignmentKey j) : i = j :=
  append_cancel_left (append_cancel_right h)

theorem assignmentPrefix_isStart (i : Text) : assignmentPrefix <+: assignmentKey i := by
  rw [assignmentKey, append_assoc]
  exact prefix_append _ _

/-- The keys that start with an id are those of the ids that start with it. -/
theorem prefix_assignmentKey_iff {i j : Text} (hi : '/' ∉ i) :
    assignmentPrefix ++ i <+: assignmentKey j ↔ i <+: j := by
  rw [assignmentKey, append_assoc, prefix_append_right_inj]
  constructor
  · intro h
    rcases prefix_or_prefix_of_prefix h (prefix_append j _) with h' | ⟨rest, rfl⟩
    · exact h'
    · rw [prefix_append_right_inj] at h
      rcases rest with _ | ⟨c, rest⟩
      · exact ⟨[], by rw [append_nil, append_nil]⟩
      · -- what follows the id starts with a slash
        have hc : c = '/' := (cons_prefix_cons.1 h).1
        exact absurd (mem_append_right _ (hc ▸ mem_cons_self)) hi
  · intro h
    exact h.trans (prefix_append _ _)

theorem membershipPrefix_apart (i j : Text) : ¬ membershipPrefix ++ i <+: assignmentKey j := by
  intro h
  have hor := prefix_or_prefix_of_prefix ((prefix_append _ i).trans h)
    (assignmentPrefix_isStart j)
  revert hor
  decide

theorem assignmentPrefix_apart (i j : Text) :
    ¬ assignmentPrefix ++ i <+: membershipPrefix ++ j := by
  intro h
  have hor := prefix_or_prefix_of_prefix ((prefix_append _ i).trans h)
    (prefix_append membershipPrefix j)
  revert hor
  decide

theorem assignmentKey_ne_coreStoreAssignmentKey (i : Text) :
    assignmentKey i ≠ coreStoreAssignmentKey := by
  intro h
  have hstarts := assignmentPrefix_isStart i
  rw [h] at hstarts
  revert hstarts
  decide

theorem membershipKey_ne_coreStoreAssignmentKey (i : Text) :
    membershipPrefix ++ i ≠ coreStoreAssignmentKey := by
  intro h
  have hstarts := prefix_append membershipPrefix i
  rw [h] at hstarts
  revert hstarts
  decide

/-! ## The steps of a reassignment and those of the other tasks -/

/-- The tasks of `_reassign_core_stores`. -/
def Task.reassigns : Task → Bool
  | .savingMapping _ _ | .assigning _ _ | .removing _ => true
  | _ => false

/-- The operations on other keys than that of the mapping. -/
def Effect.onRecords : Effect → Bool
  | .kv (.put key _) => key ≠ coreStoreAssignmentKey
  | .kv (.delete _) => true
  | .armSoakTimer => false

theorem storeAfter_onRecords {k : Text} (hk : k ≠ coreStoreAssignmentKey) (issued : List Effect) :
    ∀ {s s' : Store}, s k = s' k →
      storeAfter s issued k = storeAfter s' (issued.filter Effect.onRecords) k := by
  induction issued with
  | nil => exact fun h => h
  | cons e issued ih =>
    intro s s' h
    rw [filter_cons]
    split
    · refine ih ?_
      rcases e with op | _
      · cases op with
        | put key value => simp only [KvOp.apply, h]
        | delete key => simp only [KvOp.apply, h]
      · exact h
    · next hother =>
      refine ih (Eq.trans ?_ h)
      match e, hother with
      | .kv (.put key value), hother =>
        have hkey : key = coreStoreAssignmentKey := by simpa [Effect.onRecords] using hother
        exact if_neg (hkey ▸ hk)
      | .kv (.delete key), hother => exact absurd rfl hother
      | .armSoakTimer, _ => rfl

variable {slots : Slots}

namespace Leader

variable {rt : Runtime} {l l' : Leader} {t : Task} {a : Answer} {e : Event} {events : List Event}

/-- The tasks of reassignments. -/
abbrev reassigning (l : Leader) : List Task := l.tasks.filter Task.reassigns

/-- What comes next to a reassignment that succeeds: its own operations return and its members are
not lost, and no other reassignment begins.  The other tasks may go on. -/
def Proceeds (l : Leader) : Event → Prop
  | .answer i a => ∀ t, l.tasks[i]? = some t → t.reassigns = true →
    a = .done true ∧ ((∃ existing inactive, t = .savingMapping existing inactive) →
      l.members ≠ none)
  | .soakTimer => l.soakTimer ≠ .pending
  | .stop => True

/-- A step of another task. -/
structure Aside (l l' : Leader) : Prop where
  reassigning : l'.reassigning = l.reassigning
  issued : ∃ ops, l'.issued = l.issued ++ ops ∧ ops.filter Effect.onRecords = []

namespace Aside

theorem refl (l : Leader) : Aside l l := ⟨rfl, [], (append_nil _).symm, rfl⟩

theorem suspend (h : Aside l l') (ht : t.reassigns = false) : Aside l (l'.suspend t) := by
  refine ⟨?_, h.issued⟩
  rw [Leader.reassigning, Leader.suspend, filter_append, filter_singleton, ht]
  exact (append_nil _).trans h.reassigning

theorem issue {effect : Effect} (h : effect.onRecords = false) : Aside l (l.issue effect) :=
  ⟨rfl, [effect], rfl, by rw [filter_singleton, h]; rfl⟩

theorem trackAgain (h : Aside l l') (index : ℕ) : Aside l (l'.trackAgain index) := by
  rw [Leader.trackAgain]
  split
  · exact h
  · exact h.suspend rfl

theorem membersChanged (h : Aside l l') (index : ℕ) (updated : Option (List Instance)) :
    Aside l (l'.membersChanged index updated) := by
  rw [Leader.membersChanged, restartSoakTimer]
  by_cases htimer : l'.soakTimer = .cancelled
  · dsimp only
    rw [if_pos htimer]
    exact suspend ⟨h.reassigning, h.issued⟩ rfl
  · dsimp only
    rw [if_neg htimer]
    obtain ⟨ops, hops, hnone⟩ := h.issued
    have harmed : Aside l (Leader.issue
        { l' with members := updated, soakTimer := .pending } .armSoakTimer) := by
      refine ⟨h.reassigning, ops ++ [.armSoakTimer], ?_, ?_⟩
      · rw [← append_assoc, ← hops]
        rfl
      · rw [filter_append, hnone]
        rfl
    exact harmed.trackAgain index

theorem resumeTracking (h : resumeTracking rt l t a = some l') : Aside l l' := by
  unfold Leader.resumeTracking at h
  split at h
  case h_1 => cases h; exact (refl l).suspend rfl
  case h_2 => cases h; exact (refl l).trackAgain _
  case h_3 => cases h; exact (refl l).suspend rfl
  case h_4 =>
    split_ifs at h
    · cases h; exact refl l
    · cases h; exact (refl l).suspend rfl
    · cases h; exact (refl l).trackAgain _
    · split at h
      · cases h; exact (refl l).suspend rfl
      · cases h; exact (refl l).suspend rfl
  case h_5 =>
    cases h
    split
    · exact (refl l).suspend rfl
    · exact (refl l).trackAgain _
  case h_6 => cases h; exact (refl l).trackAgain _
  case h_7 =>
    cases h
    split
    · exact (refl l).trackAgain _
    · exact (refl l).suspend rfl
  case h_8 => cases h; exact ((refl l).suspend rfl).membersChanged _ _
  case h_9 => cases h; exact (refl l).membersChanged _ _
  case h_10 => cases h; exact (refl l).trackAgain _
  case h_11 => cases h

theorem resumeMapping (h : resumeMapping l t a = some l') : Aside l l' := by
  have hset : ∀ m, Aside l { l with coreStoreAssignment := m } := fun _ =>
    ⟨rfl, [], (append_nil _).symm, rfl⟩
  unfold Leader.resumeMapping at h
  split at h
  case h_1 => cases h; exact (issue (by decide)).suspend rfl
  case h_3 => cases h; exact hset _
  case h_4 => cases h; exact (refl l).suspend rfl
  case h_6 => cases h; exact hset _
  case h_11 => cases h
  all_goals
    cases h
    exact refl l

end Aside

/-- The tasks of a reassignment are resumed by it. -/
theorem resume_of_reassigns (ht : t.reassigns = true) :
    resume rt l t a = resumeReassignment rt l t a := by
  cases t with
  | savingMapping | assigning | removing => cases a <;> rfl
  | _ => cases ht

theorem resumeReassignment_of_not (ht : t.reassigns = false) :
    resumeReassignment rt l t a = none := by
  cases t with
  | savingMapping | assigning | removing => cases ht
  | _ => rfl

/-- The tasks of reassignments when one of the tasks runs. -/
theorem reassigning_eq_of_getElem? {i : ℕ} (h : l.tasks[i]? = some t) :
    ∃ front back, l.reassigning = front ++ [t].filter Task.reassigns ++ back ∧
      (l.without i).reassigning = front ++ back := by
  obtain ⟨hi, rfl⟩ := List.getElem?_eq_some_iff.1 h
  refine ⟨(l.tasks.take i).filter Task.reassigns, (l.tasks.drop (i + 1)).filter Task.reassigns,
    ?_, ?_⟩
  · rw [← filter_append, ← filter_append, append_assoc, singleton_append, ← drop_eq_getElem_cons hi,
      take_append_drop]
  · rw [reassigning, without, eraseIdx_eq_take_drop_succ, filter_append]

/-- The only task of a reassignment runs. -/
theorem eq_of_reassigning {t' : Task} {i : ℕ} (hown : l.reassigning = [t])
    (hget : l.tasks[i]? = some t') (ht' : t'.reassigns = true) :
    t' = t ∧ (l.without i).reassigning = [] := by
  obtain ⟨front, back, hall, hwithout⟩ := reassigning_eq_of_getElem? hget
  rw [filter_singleton, ht', hown] at hall
  rcases front with _ | ⟨x, front⟩
  · obtain ⟨rfl, rfl⟩ : t = t' ∧ back = [] := by simpa using hall
    exact ⟨rfl, hwithout⟩
  · simp at hall

theorem step_of_reassigns {i : ℕ} (h : l.Proceeds (.answer i a)) (hget : l.tasks[i]? = some t)
    (ht : t.reassigns = true) :
    step rt l (.answer i a) = (resumeReassignment rt (l.without i) t (.done true)).getD l := by
  rw [step, hget]
  dsimp only
  rw [resume_of_reassigns ht, (h t hget ht).1]

/-- **An event that does not resume a reassignment is one of another task.** -/
theorem aside_step (h : l.Proceeds e)
    (hother : ∀ i a t, e = .answer i a → l.tasks[i]? = some t → t.reassigns = false) :
    Aside l (step rt l e) := by
  cases e with
  | answer i a =>
    rcases hget : l.tasks[i]? with _ | t
    · rw [step, hget]
      exact .refl l
    · have ht := hother i a t rfl hget
      obtain ⟨front, back, hall, hwithout⟩ := reassigning_eq_of_getElem? hget
      have hsame : (l.without i).reassigning = l.reassigning := by
        rw [hwithout, hall, filter_singleton, ht]
        simp
      rw [step, hget]
      dsimp only
      rw [resume, resumeReassignment_of_not ht, Option.or_none]
      rcases hres : (resumeTracking rt (l.without i) t a).or
        (Leader.resumeMapping (l.without i) t a) with _ | l'
      · exact .refl l
      · have haside : Aside (l.without i) l' := by
          rcases Option.or_eq_some_iff.1 hres with hres | ⟨-, hres⟩
          · exact .resumeTracking hres
          · exact .resumeMapping hres
        exact ⟨haside.reassigning.trans hsame, haside.issued⟩
  | soakTimer =>
    rw [step, if_neg h]
    exact .refl l
  | stop => exact ⟨rfl, [], (append_nil _).symm, rfl⟩

/-- An event resumes the reassignment, or is one of another task. -/
theorem step_cases (hown : l.reassigning = [t]) (h : l.Proceeds e) :
    (∃ i a, e = .answer i a ∧ l.tasks[i]? = some t ∧ (l.without i).reassigning = [] ∧
        step rt l e = (resumeReassignment rt (l.without i) t (.done true)).getD l) ∨
      Aside l (step rt l e) ∧
        ∀ i a t, e = .answer i a → l.tasks[i]? = some t → t.reassigns = false := by
  by_cases hother : ∀ i a t, e = .answer i a → l.tasks[i]? = some t → t.reassigns = false
  · exact .inr ⟨aside_step h hother, hother⟩
  · push Not at hother
    obtain ⟨i, a, t', rfl, hget, ht'⟩ := hother
    rw [Ne, Bool.not_eq_false] at ht'
    obtain ⟨rfl, hwithout⟩ := eq_of_reassigning hown hget ht'
    exact .inl ⟨i, a, rfl, hget, hwithout, step_of_reassigns h hget ht'⟩

/-! ## What a reassignment issues -/

/-- The assignment that is stored next, if it is one of `members`, is that of the mapping. -/
def PutsRight (members : List Instance) (updated : Slots) (l : Leader) (newMembers : List Text) :
    Prop :=
  ∀ id ∈ newMembers.head?, id ∈ members.map Instance.id → l.coreDataId id = updated.coreIdOf id

/-- What the other tasks leave to a reassignment with the new mapping `updated`: when the mapping
has been stored, the new members are still there, or have their records already; and when an
assignment is stored, the mapping of the leader gives the member its new slot. -/
def Undisturbed (rt : Runtime) (before : Store) (members : List Instance) (updated : Slots)
    (l : Leader) : Event → Prop
  | .answer i _ => match l.tasks[i]? with
    | some (.savingMapping existing _) =>
      (∀ id ∈ members.map Instance.id, id ∉ existing → id ∈ (l.members.getD []).map Instance.id ∨
        before (assignmentKey id) = some (.coreId (updated.coreIdOf id))) ∧
      PutsRight members updated l (newMembers rt (l.members.getD []) existing)
    | some (.assigning newMembers _) => PutsRight members updated l newMembers
    | _ => True
  | _ => True

theorem undisturbed_of_other {before : Store} {members : List Instance} {updated : Slots}
    (h : ∀ i a t, e = .answer i a → l.tasks[i]? = some t → t.reassigns = false) :
    l.Undisturbed rt before members updated e := by
  cases e with
  | answer i a =>
    rw [Undisturbed]
    split
    · next hget => cases h i a _ rfl hget
    · next hget => cases h i a _ rfl hget
    · trivial
  | soakTimer => trivial
  | stop => trivial

/-- The operations of a reassignment that puts the assignments `f`. -/
def recordOps (rt : Runtime) (f : Text → Option Text) (newMembers inactiveMembers : List Text) :
    List Effect :=
  (newMembers.map fun id => .kv (.put (assignmentKey id) (.coreId (f id)))) ++
    (removedKeys rt inactiveMembers).map fun key => .kv (.delete key)

/-- Between `issued` and the end of a run these operations on records were issued. -/
def Issues (rt : Runtime) (issued : List Effect) (l : Leader) (events : List Event)
    (records : List Effect) : Prop :=
  ∃ ops, (run rt l events).issued = issued ++ ops ∧ ops.filter Effect.onRecords = records

theorem Issues.aside {records : List Effect} (h : Aside l (step rt l e))
    (hrest : Issues rt (step rt l e).issued (step rt l e) events records) :
    Issues rt l.issued l (e :: events) records := by
  obtain ⟨ops, hops, hnone⟩ := h.issued
  obtain ⟨ops', hops', hrecords⟩ := hrest
  refine ⟨ops ++ ops', ?_, by rw [filter_append, hnone, hrecords, nil_append]⟩
  rw [← append_assoc, ← hops]
  exact hops'

theorem Issues.issue {records : List Effect} {effect : Effect} {issued : List Effect}
    (h : Issues rt (issued ++ [effect]) l events records) (heffect : effect.onRecords = true) :
    Issues rt issued l events (effect :: records) := by
  obtain ⟨ops, hops, hrecords⟩ := h
  exact ⟨effect :: ops, by rw [hops, append_assoc]; rfl,
    by rw [filter_cons_of_pos heffect, hrecords]⟩

section

variable {before : Store} {members : List Instance} {updated : Slots}

/-- The reassignment has ended, or has these keys left to delete. -/
def Left (l : Leader) (keys : List Text) : Prop :=
  l.reassigning = [] ∧ keys = [] ∨ l.reassigning = [.removing keys]

theorem reassigning_suspend (hl : l.reassigning = []) (ht : t.reassigns = true) :
    (l.suspend t).reassigning = [t] := by
  rw [reassigning, suspend, filter_append, filter_singleton, ht]
  exact congrArg (· ++ [t]) hl

/-- After its last task, no task is one of the reassignment. -/
theorem not_reassigns_of_ended (hown : l.reassigning = []) {i : ℕ} (hget : l.tasks[i]? = some t) :
    t.reassigns = false := by
  by_contra ht
  have hmem : t ∈ l.reassigning := mem_filter.2 ⟨mem_of_getElem? hget, by simpa using ht⟩
  rw [hown] at hmem
  exact not_mem_nil hmem

/-- **The deletes.** -/
theorem issues_left (events : List Event) :
    ∀ {l : Leader} {keys : List Text}, l.Left keys → AllAlong (step rt) Proceeds l events →
      (run rt l events).reassigning = [] →
      Issues rt l.issued l events (keys.map fun key => .kv (.delete key)) ∧
        AllAlong (step rt) (Undisturbed rt before members updated) l events := by
  induction events with
  | nil =>
    rintro l keys (⟨-, rfl⟩ | hown) - hend
    · exact ⟨⟨[], (append_nil _).symm, rfl⟩, trivial⟩
    · cases hown.symm.trans hend
  | cons e events ih =>
    rintro l keys hleft ⟨hp, hrest⟩ hend
    have hcases : (∃ i a, e = .answer i a ∧ l.tasks[i]? = some (.removing keys) ∧
          (l.without i).reassigning = [] ∧ step rt l e = (l.without i).removeNext keys) ∨
        Aside l (step rt l e) ∧
          ∀ i a t, e = .answer i a → l.tasks[i]? = some t → t.reassigns = false := by
      rcases hleft with ⟨hown, rfl⟩ | hown
      · have hother : ∀ i a t, e = .answer i a → l.tasks[i]? = some t → t.reassigns = false :=
          fun i a t _ hget => not_reassigns_of_ended hown hget
        exact .inr ⟨aside_step hp hother, hother⟩
      · exact step_cases hown hp
    rcases hcases with ⟨i, a, rfl, hget, hwithout, hstep⟩ | ⟨haside, hother⟩
    · have hcond : l.Undisturbed rt before members updated (.answer i a) := by
        rw [Undisturbed, hget]
        trivial
      rw [run, foldl_cons] at hend
      cases keys with
      | nil =>
        obtain ⟨hissues, halong⟩ :=
          ih (.inl ⟨(congrArg reassigning hstep).trans hwithout, rfl⟩) hrest hend
        rw [hstep] at hissues
        exact ⟨show Issues rt _ (step rt l _) events _ from hstep ▸ hissues, hcond, halong⟩
      | cons key keys =>
        have hown : (step rt l (.answer i a)).reassigning = [.removing keys] := by
          rw [hstep]
          exact reassigning_suspend hwithout rfl
        obtain ⟨hissues, halong⟩ := ih (.inr hown) hrest hend
        refine ⟨Issues.issue (l := step rt l (.answer i a)) ?_ rfl, hcond, halong⟩
        rw [hstep] at hissues ⊢
        exact hissues
    · have hleft' : (step rt l e).Left keys :=
        hleft.imp (And.imp_left haside.reassigning.trans) haside.reassigning.trans
      obtain ⟨hissues, halong⟩ := ih hleft' hrest hend
      exact ⟨.aside haside hissues, undisturbed_of_other hother, halong⟩

/-- The first of the deletes. -/
theorem issues_removeNext (hl : l.reassigning = []) {keys : List Text}
    (hp : AllAlong (step rt) Proceeds (l.removeNext keys) events)
    (hend : (run rt (l.removeNext keys) events).reassigning = []) :
    Issues rt l.issued (l.removeNext keys) events (keys.map fun key => .kv (.delete key)) ∧
      AllAlong (step rt) (Undisturbed rt before members updated) (l.removeNext keys) events := by
  cases keys with
  | nil => exact issues_left events (.inl ⟨hl, rfl⟩) hp hend
  | cons key keys =>
    have hown : (l.removeNext (key :: keys)).reassigning = [.removing keys] :=
      reassigning_suspend (l := l.issue _) hl rfl
    obtain ⟨hissues, halong⟩ := issues_left events (.inr hown) hp hend
    exact ⟨hissues.issue rfl, halong⟩

/-- A run to the end puts the assignments `f`, where it is undisturbed exactly if those of `members`
are the ones of the mapping. -/
def Assigns (rt : Runtime) (before : Store) (members : List Instance) (updated : Slots)
    (issued : List Effect) (l : Leader) (events : List Event) (c : Prop)
    (newMembers inactiveMembers : List Text) : Prop :=
  ∃ f, Issues rt issued l events (recordOps rt f newMembers inactiveMembers) ∧
    (c ∧ AllAlong (step rt) (Undisturbed rt before members updated) l events ↔
      ∀ id ∈ newMembers, id ∈ members.map Instance.id → f id = updated.coreIdOf id)

theorem assigns_assignNext {inactive : List Text}
    (hrest : ∀ {l : Leader} {new : List Text}, l.reassigning = [.assigning new inactive] →
      new.Nodup → AllAlong (step rt) Proceeds l events → (run rt l events).reassigning = [] →
      Assigns rt before members updated l.issued l events True new inactive)
    (hl : l.reassigning = []) {new : List Text} (hnodup : new.Nodup)
    (hp : AllAlong (step rt) Proceeds (assignNext rt l new inactive) events)
    (hend : (run rt (assignNext rt l new inactive) events).reassigning = []) :
    Assigns rt before members updated l.issued (assignNext rt l new inactive) events
      (PutsRight members updated l new) new inactive := by
  cases new with
  | nil =>
    have hremoves := @issues_removeNext rt l events before members updated hl _ hp hend
    exact ⟨fun _ => none, hremoves.1,
      iff_of_true ⟨nofun, hremoves.2⟩ fun _ h => absurd h not_mem_nil⟩
  | cons id new =>
    obtain ⟨hid, hnodup⟩ := nodup_cons.1 hnodup
    have hown : (assignNext rt l (id :: new) inactive).reassigning = [.assigning new inactive] :=
      reassigning_suspend (l := l.issue _) hl rfl
    obtain ⟨f, hissues, hiff⟩ := hrest hown hnodup hp hend
    -- The assignment of the first member is what the mapping of the leader says now.
    have hf : ∀ i ∈ new, Function.update f id (l.coreDataId id) i = f i := fun i hi =>
      Function.update_of_ne (ne_of_mem_of_not_mem hi hid) _ _
    refine ⟨Function.update f id (l.coreDataId id), ?_, ?_⟩
    · have hputs : (new.map fun i =>
          Effect.kv (.put (assignmentKey i) (.coreId (Function.update f id (l.coreDataId id) i)))) =
          new.map fun i => .kv (.put (assignmentKey i) (.coreId (f i))) :=
        map_congr_left fun i hi => by rw [hf i hi]
      rw [recordOps, map_cons, Function.update_self, hputs, cons_append]
      exact hissues.issue (decide_eq_true (assignmentKey_ne_coreStoreAssignmentKey id))
    · rw [true_and] at hiff
      have hhead : PutsRight members updated l (id :: new) ↔
          (id ∈ members.map Instance.id → l.coreDataId id = updated.coreIdOf id) := by
        simp [PutsRight]
      rw [hhead, forall_mem_cons, Function.update_self]
      refine and_congr_right fun _ => hiff.trans (forall₂_congr fun i hi => ?_)
      rw [hf i hi]

/-- **The puts.** -/
theorem assigns_assigning {inactive : List Text} (events : List Event) :
    ∀ {l : Leader} {new : List Text}, l.reassigning = [.assigning new inactive] → new.Nodup →
      AllAlong (step rt) Proceeds l events → (run rt l events).reassigning = [] →
      Assigns rt before members updated l.issued l events True new inactive := by
  induction events with
  | nil =>
    rintro l new hown - - hend
    cases hown.symm.trans hend
  | cons e events ih =>
    rintro l new hown hnodup ⟨hp, hrest⟩ hend
    rcases @step_cases rt l _ e hown hp with ⟨i, a, rfl, hget, hwithout, hstep⟩ | ⟨haside, hother⟩
    · rw [run, foldl_cons] at hend
      have hnext : step rt l (.answer i a) = assignNext rt (l.without i) new inactive := hstep
      rw [hnext] at hrest hend
      obtain ⟨f, hissues, hiff⟩ := assigns_assignNext ih hwithout hnodup hrest hend
      refine ⟨f, show Issues rt _ (step rt l _) events _ from hnext ▸ hissues, ?_⟩
      rw [true_and, ← hiff, AllAlong, hnext, Undisturbed, hget]
      rfl
    · obtain ⟨f, hissues, hiff⟩ := ih (haside.reassigning.trans hown) hnodup hrest hend
      refine ⟨f, .aside haside hissues, ?_⟩
      rw [← hiff, AllAlong, and_iff_right (undisturbed_of_other hother)]

theorem nodup_newMembers (rt : Runtime) (members : List Instance) (existing : List Text) :
    (newMembers rt members existing).Nodup :=
  (rt.order.iter_perm _).nodup_iff.2 ((nodup_dedup _).filter _)

variable (before members updated) in
/-- **A reassignment from the put of the mapping on**, with the members `current` that there are
when it returns. -/
theorem assigns_savingMapping {existing inactive : List Text} (events : List Event) :
    ∀ {l : Leader}, l.reassigning = [.savingMapping existing inactive] →
      AllAlong (step rt) Proceeds l events → (run rt l events).reassigning = [] →
      ∃ f current, Issues rt l.issued l events
          (recordOps rt f (newMembers rt current existing) inactive) ∧
        (AllAlong (step rt) (Undisturbed rt before members updated) l events ↔
          (∀ id ∈ members.map Instance.id, id ∉ existing → id ∈ current.map Instance.id ∨
            before (assignmentKey id) = some (.coreId (updated.coreIdOf id))) ∧
          ∀ id ∈ newMembers rt current existing, id ∈ members.map Instance.id →
            f id = updated.coreIdOf id) := by
  induction events with
  | nil =>
    rintro l hown - hend
    cases hown.symm.trans hend
  | cons e events ih =>
    rintro l hown ⟨hp, hrest⟩ hend
    rcases @step_cases rt l _ e hown hp with ⟨i, a, rfl, hget, hwithout, hstep⟩ | ⟨haside, hother⟩
    · rw [run, foldl_cons] at hend
      obtain ⟨current, hcurrent⟩ := Option.ne_none_iff_exists'.1 ((hp _ hget rfl).2 ⟨_, _, rfl⟩)
      have hnext : step rt l (.answer i a) =
          assignNext rt (l.without i) (newMembers rt current existing) inactive := by
        rw [hstep, resumeReassignment, show (l.without i).members = some current from hcurrent]
        rfl
      rw [hnext] at hrest hend
      obtain ⟨f, hissues, hiff⟩ := assigns_assignNext (assigns_assigning events) hwithout
        (nodup_newMembers rt current existing) hrest hend
      refine ⟨f, current, show Issues rt _ (step rt l _) events _ from hnext ▸ hissues, ?_⟩
      rw [← hiff, AllAlong, hnext, Undisturbed, hget, hcurrent, Option.getD_some]
      exact and_assoc
    · obtain ⟨f, current, hissues, hiff⟩ := ih (haside.reassigning.trans hown) hrest hend
      refine ⟨f, current, .aside haside hissues, ?_⟩
      rw [← hiff, AllAlong, and_iff_right (undisturbed_of_other hother)]

end

end Leader

/-! ## The records -/

section Records

variable {rt : Runtime} {members : List Instance} {before : Store} {f : Text → Option Text}
  {existing inactive : List Text}

open Leader

theorem mem_newMembers {id : Text} :
    id ∈ newMembers rt members existing ↔
      id ∈ members.map Instance.id ∧ id ∉ existing := by
  rw [newMembers, (rt.order.iter_perm _).mem_iff, mem_filter, mem_dedup,
    decide_eq_true_iff]

theorem mem_removedKeys {key : Text} :
    key ∈ removedKeys rt inactive ↔
      ∃ id ∈ inactive, key = assignmentPrefix ++ id ∨ key = membershipPrefix ++ id := by
  rw [removedKeys, mem_flatMap]
  simp only [(rt.order.iter_perm _).mem_iff, mem_cons, not_mem_nil, or_false]

/-- The assignments after those of new members have been stored. -/
theorem storeAfter_puts (f : Text → Option Text) (id : Text) :
    ∀ (s : Store) (ids : List Text),
      storeAfter s (ids.map fun id => .kv (.put (assignmentKey id) (.coreId (f id))))
          (assignmentKey id) =
        if id ∈ ids then some (.coreId (f id)) else s (assignmentKey id)
  | s, [] => by rw [if_neg not_mem_nil]; rfl
  | s, i :: ids => by
    refine (storeAfter_puts f id ((KvOp.put (assignmentKey i) (.coreId (f i))).apply s)
      ids).trans ?_
    rw [KvOp.apply_put]
    by_cases hmem : id ∈ ids
    · rw [if_pos hmem, if_pos (mem_cons_of_mem _ hmem)]
    · rw [if_neg hmem]
      by_cases hi : id = i
      · rw [hi, if_pos rfl, if_pos mem_cons_self]
      · rw [if_neg (mt assignmentKey_injective hi),
          if_neg fun h => (mem_cons.1 h).elim hi hmem]

theorem storeAfter_puts_of_ne (f : Text → Option Text) {k : Text}
    (hk : ∀ id, k ≠ assignmentKey id) :
    ∀ (s : Store) (ids : List Text),
      storeAfter s (ids.map fun id => .kv (.put (assignmentKey id) (.coreId (f id)))) k = s k
  | s, [] => rfl
  | s, i :: ids => by
    refine (storeAfter_puts_of_ne f hk ((KvOp.put (assignmentKey i) (.coreId (f i))).apply s)
      ids).trans ?_
    rw [KvOp.apply_put, if_neg (hk i)]

/-- **The assignment of a member after a reassignment.** -/
theorem storeAfter_assignmentKey (rt : Runtime) (members : List Instance) (before : Store)
    (hslash : ∀ i ∈ inactive, '/' ∉ i) (id : Text) :
    storeAfter before (recordOps rt f (newMembers rt members existing) inactive)
        (assignmentKey id) =
      if ∃ i ∈ inactive, i <+: id then none
      else if id ∈ members.map Instance.id ∧ id ∉ existing then some (.coreId (f id))
      else before (assignmentKey id) := by
  have hremoved : (∃ key ∈ removedKeys rt inactive, key <+: assignmentKey id) ↔
      ∃ i ∈ inactive, i <+: id := by
    constructor
    · rintro ⟨key, hkey, hstarts⟩
      obtain ⟨i, hi, rfl | rfl⟩ := mem_removedKeys.1 hkey
      · exact ⟨i, hi, (prefix_assignmentKey_iff (hslash i hi)).1 hstarts⟩
      · exact absurd hstarts (membershipPrefix_apart i id)
    · rintro ⟨i, hi, hstarts⟩
      exact ⟨_, mem_removedKeys.2 ⟨i, hi, .inl rfl⟩,
        (prefix_assignmentKey_iff (hslash i hi)).2 hstarts⟩
  rw [recordOps, storeAfter_append, storeAfter_deletes, storeAfter_puts]
  simp only [hremoved, mem_newMembers]

/-- The record of a member is untouched, unless its id starts with one that has left. -/
theorem storeAfter_membershipKey {new : List Text} {id : Text}
    (h : ¬ ∃ i ∈ inactive, i <+: id) :
    storeAfter before (recordOps rt f new inactive) (membershipPrefix ++ id) =
      before (membershipPrefix ++ id) := by
  have hremoved : ¬ ∃ key ∈ removedKeys rt inactive, key <+: membershipPrefix ++ id := by
    rintro ⟨key, hkey, hstarts⟩
    obtain ⟨i, hi, rfl | rfl⟩ := mem_removedKeys.1 hkey
    · exact assignmentPrefix_apart i id hstarts
    · exact h ⟨i, hi, (prefix_append_right_inj _).1 hstarts⟩
  have hne : ∀ i, membershipPrefix ++ id ≠ assignmentKey i := by
    intro i heq
    exact membershipPrefix_apart id i (heq ▸ prefix_rfl)
  rw [recordOps, storeAfter_append, storeAfter_deletes, if_neg hremoved,
    storeAfter_puts_of_ne _ hne]

/-! ## Right records -/

/-- What the store is to have after a reassignment. -/
structure RecordsRight (before after : Store) (slots : Slots) (members : List Instance)
    (updated : Slots) : Prop where
  assignments : ∀ a ∈ members, ∀ k, get updated k = some (some a) →
    after (assignmentKey a.id) = some (.coreId (some k))
  memberships : ∀ a ∈ members, after (membershipPrefix ++ a.id) = before (membershipPrefix ++ a.id)
  dropped : ∀ k a, get slots k = some (some a) →
    (∀ k' b, get updated k' = some (some b) → b.id ≠ a.id) →
    after (assignmentKey a.id) = none

/-- No id of an instance that has left starts that of an active member, and the assignments of the
members that keep their slots are right. -/
structure Separate (before : Store) (slots : Slots) (members : List Instance) : Prop where
  apart : ∀ k a, (k, some a) ∈ slots → a ∉ members → ∀ b ∈ members, ¬ a.id <+: b.id
  kept : ∀ k a, (k, some a) ∈ slots → a ∈ members →
    before (assignmentKey a.id) = some (.coreId (some k))

/-- The core id that is stored for a new member is that of its slot. -/
theorem coreIdOf_eq {updated : Slots} (h : ReassignedTo slots members updated)
    (hids : (members.map Instance.id).Nodup) {a : Instance} {k : Text}
    (hk : get updated k = some (some a)) : updated.coreIdOf a.id = some k := by
  have hmem : (k, some a) ∈ updated := mem_of_lookup hk
  rw [Slots.coreIdOf, Option.map_eq_some_iff]
  rcases hfind : updated.find? (fun slot => slot.2.any (·.id = a.id)) with _ | ⟨k', inst⟩
  · have hnone := find?_eq_none.1 hfind _ hmem
    simp at hnone
  · have hmem' := mem_of_find?_eq_some hfind
    have hid := find?_some hfind
    rcases inst with _ | b
    · cases hid
    · have hget' : get updated k' = some (some b) :=
        get_of_mem h.nodup_coreIds hmem'
      have ha := h.inactive k a hk
      obtain rfl : b = a :=
        inj_on_of_nodup_map hids (h.inactive k' b hget') ha (of_decide_eq_true hid)
      exact ⟨(k', some b), hfind, (h.active b ha).unique hget' hk⟩

section

variable {r : Reassigned} {c : Clearing} {after : Store} {current : List Instance}
  (hc : Cleared members slots c) (hinactive : r.inactiveMembers = c.inactiveMembers)
include hc hinactive

theorem mem_inactiveMembers {i : Text} :
    i ∈ r.inactiveMembers ↔ ∃ k a, (k, some a) ∈ slots ∧ a ∉ members ∧ a.id = i :=
  hinactive ▸ hc.inactive i

/-- What is deleted spares a member exactly if its id starts with none that has left. -/
theorem apart_iff {b : Instance} :
    (∀ k a, (k, some a) ∈ slots → a ∉ members → ¬ a.id <+: b.id) ↔
      ¬ ∃ i ∈ r.inactiveMembers, i <+: b.id := by
  constructor
  · rintro h ⟨i, hi, hstarts⟩
    obtain ⟨k, a, hk, ha, rfl⟩ := (mem_inactiveMembers hc hinactive).1 hi
    exact h k a hk ha hstarts
  · exact fun h k a hk ha hstarts =>
      h ⟨a.id, (mem_inactiveMembers hc hinactive).2 ⟨k, a, hk, ha, rfl⟩, hstarts⟩

variable (hslash : ∀ k a, (k, some a) ∈ slots → '/' ∉ a.id)
  (hstore : ∀ k, k ≠ coreStoreAssignmentKey → after k = storeAfter before
    (recordOps rt f (newMembers rt current r.existingActive) r.inactiveMembers) k)
include hslash hstore

theorem after_assignmentKey (id : Text) : after (assignmentKey id) =
    if ∃ i ∈ r.inactiveMembers, i <+: id then none
    else if id ∈ current.map Instance.id ∧ id ∉ r.existingActive then some (.coreId (f id))
    else before (assignmentKey id) := by
  refine (hstore _ (assignmentKey_ne_coreStoreAssignmentKey id)).trans
    (storeAfter_assignmentKey rt current before (fun i hi => ?_) id)
  obtain ⟨k, a, hk, -, rfl⟩ := (mem_inactiveMembers hc hinactive).1 hi
  exact hslash k a hk

/-- The records after the operations of a reassignment. -/
theorem recordsRight_iff (hto : ReassignedTo slots members r.coreStoreAssignment)
    (hexisting : r.existingActive = c.existingActive) (hnodup : slots.coreIds.Nodup)
    (hids : (members.map Instance.id).Nodup) :
    RecordsRight before after slots members r.coreStoreAssignment ↔
      Separate before slots members ∧
        (∀ id ∈ members.map Instance.id, id ∉ r.existingActive → id ∈ current.map Instance.id ∨
          before (assignmentKey id) = some (.coreId (r.coreStoreAssignment.coreIdOf id))) ∧
        ∀ id ∈ newMembers rt current r.existingActive, id ∈ members.map Instance.id →
          f id = r.coreStoreAssignment.coreIdOf id := by
  have hmemExisting : ∀ i, i ∈ r.existingActive ↔
      ∃ k a, (k, some a) ∈ slots ∧ a ∈ members ∧ a.id = i := hexisting ▸ hc.existing
  have hafter := after_assignmentKey hc hinactive hslash hstore
  constructor
  · intro h
    have hnot : ∀ b ∈ members, ¬ ∃ i ∈ r.inactiveMembers, i <+: b.id := by
      intro b hb hstarts
      obtain ⟨k, hk, -⟩ := hto.active b hb
      have hright := h.assignments b hb k hk
      rw [hafter, if_pos hstarts] at hright
      cases hright
    -- what is stored for a member at the end
    have hright : ∀ a ∈ members, (if a.id ∈ current.map Instance.id ∧ a.id ∉ r.existingActive then
        some (.coreId (f a.id)) else before (assignmentKey a.id)) =
          some (.coreId (r.coreStoreAssignment.coreIdOf a.id)) := by
      intro a ha
      obtain ⟨k, hk, -⟩ := hto.active a ha
      rw [coreIdOf_eq hto hids hk, ← h.assignments a ha k hk, hafter, if_neg (hnot a ha)]
    refine ⟨⟨fun k a hk ha b hb => (apart_iff hc hinactive).2 (hnot b hb) k a hk ha,
      fun k a hk ha => ?_⟩, ?_, ?_⟩
    · have hstays := hto.unchanged k a (get_of_mem hnodup hk) ha
      rw [← coreIdOf_eq hto hids hstays, ← hright a ha,
        if_neg fun hnew => hnew.2 ((hmemExisting _).2 ⟨k, a, hk, ha, rfl⟩)]
    · intro id hid hnew
      obtain ⟨a, ha, rfl⟩ := mem_map.1 hid
      refine or_iff_not_imp_left.2 fun hgone => ?_
      rw [← hright a ha, if_neg fun h => hgone h.1]
    · intro id hnew hid
      obtain ⟨a, ha, rfl⟩ := mem_map.1 hid
      have hput := hright a ha
      rw [if_pos (mem_newMembers.1 hnew)] at hput
      injection hput with hput
      injection hput
  · rintro ⟨h, hthere, hputs⟩
    have hnot : ∀ b ∈ members, ¬ ∃ i ∈ r.inactiveMembers, i <+: b.id := fun b hb =>
      (apart_iff hc hinactive).1 fun k a hk ha => h.apart k a hk ha b hb
    refine ⟨fun a ha k hk => ?_, fun a ha => ?_, fun k a hk hdropped => ?_⟩
    · rw [hafter, if_neg (hnot a ha)]
      by_cases hex : a.id ∈ r.existingActive
      · rw [if_neg fun hnew => hnew.2 hex]
        obtain ⟨k', b, hk', hb, hid⟩ := (hmemExisting _).1 hex
        obtain rfl : b = a := inj_on_of_nodup_map hids hb ha hid
        have hstays := hto.unchanged k' b (get_of_mem hnodup hk') hb
        rw [(hto.active b hb).unique hk hstays]
        exact h.kept k' b hk' hb
      · rw [← coreIdOf_eq hto hids hk]
        split
        · next hnew => rw [hputs _ (mem_newMembers.2 hnew) (mem_map_of_mem ha)]
        · next hgone =>
          exact (hthere _ (mem_map_of_mem ha) hex).resolve_left fun h => hgone ⟨h, hex⟩
    · rw [hstore _ (membershipKey_ne_coreStoreAssignmentKey a.id),
        storeAfter_membershipKey (hnot a ha)]
    · -- an instance that is in no slot any more has left
      have ha : a ∉ members := fun ha => hdropped k a (hto.unchanged k a hk ha) rfl
      rw [hafter, if_pos ⟨a.id, (mem_inactiveMembers hc hinactive).2
        ⟨k, a, mem_of_lookup hk, ha, rfl⟩, prefix_rfl⟩]

end

end Records

/-- A leader whose timer has run out, with the slots of `twoSlots`.  It waits for a change of the
members, and for the mapping that it asked for when they changed last. -/
def leaderOfTwoSlots (members : List Instance) : Leader where
  halted := false
  members := some members
  coreStoreAssignment := some twoSlots.slots
  soakTimer := .called
  tasks := [.gettingMapping, .tracking 7]
  issued := [.armSoakTimer]

/-- The store when member v1 has its assignment. -/
def storeOfTwoSlots : Store := fun k =>
  if k = assignmentKey "v1".toList then some (.coreId (some "0001".toList)) else none

def twoMembers : List Instance := [⟨"v1".toList, "h1".toList⟩, ⟨"v2".toList, "h2".toList⟩]

/-- The put of the mapping returns, the members have not changed, and the put of the assignment
returns. -/
def quietEvents : List Leader.Event :=
  [.answer 2 (.done true), .answer 1 .timeout, .answer 1 (.done true)]

end Voltha.Cluster
