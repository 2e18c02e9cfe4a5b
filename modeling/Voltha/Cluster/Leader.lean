import Voltha.Cluster.CoreStores

/-!
# The leader of a cluster

`Leader` of `leader.py`.  A leader follows the list of members.  When the list has changed and the
change has settled, it reassigns the core slots, stores the new mapping and the assignments of the
new members, and deletes the records of the members that have left.

The methods are coroutines.  A `Task` is a coroutine that waits for an answer, with the local
variables that it still needs, and a step of the leader is the resumption of a task up to its next
suspension or its end.  What a leader does to the outside, a put, a delete or the arming of its soak
timer, is added to the list `issued`.

`stop` sets `halted` and cancels the timer.  `halted` is read once, after the list of members has
been received, so the tasks that are past that point go on: `silent_stop_iff` says **which tasks a
leader may have when it is stopped and do nothing more**.
-/

namespace Voltha.Cluster

open List OrderedDict
open Hex

/-! ## Keys and values -/

/-- `membership_prefix`. -/
def membershipPrefix : Text := "service/voltha/members/".toList

/-- `assignment_prefix`. -/
def assignmentPrefix : Text := "service/voltha/assignments/".toList

/-- `core_store_assignment_key`. -/
def coreStoreAssignmentKey : Text := "service/voltha/data/core/assignment".toList

/-- The key of the assignment of a member, which ends in `core_storage_suffix`. -/
def assignmentKey (id : Text) : Text := assignmentPrefix ++ id ++ "/core_store".toList

/-- What is stored under a key. -/
inductive Value where
  | slots (m : Slots)
  | coreId (c : Option Text)
  | other (v : Text)
  deriving DecidableEq

/-- A put, or a delete of all keys with a prefix. -/
inductive KvOp where
  | put (key : Text) (value : Value)
  | delete (key : Text)
  deriving DecidableEq

/-- What a leader does to the outside. -/
inductive Effect where
  | kv (op : KvOp)
  | armSoakTimer
  deriving DecidableEq

/-- A record under the membership prefix; no host if its value cannot be decoded. -/
structure Entry where
  key : Text
  hostAddress : Option Text
  hasSession : Bool
  deriving DecidableEq

/-- What is left to the runtime and to the configuration: the order of sets and dictionaries, and
the patterns of container names. -/
structure Runtime where
  order : SetOrder
  coreMatch : Text → Option Text
  timestampMatch : Text → Option Text
  dictIter : List Instance → List Instance
  dictIter_perm : ∀ l, (dictIter l).Perm l

/-! ## Lists of members -/

/-- `member_id_match`. -/
def memberIdMatch (key : Text) : Option Text :=
  let id := key.drop membershipPrefix.length
  if membershipPrefix.isPrefixOf key ∧ id ≠ [] ∧ '/' ∉ id then some id else none

/-- `assignment_id_match`. -/
def assignmentIdMatch (key : Text) : Option Text :=
  let rest := key.drop assignmentPrefix.length
  let id := rest.takeWhile (· ≠ '/')
  if assignmentPrefix.isPrefixOf key ∧ id ≠ [] ∧ rest.drop id.length = "/core_store".toList
  then some id else none

/-- The members with a valid session; nothing if a record cannot be read. -/
def activeMembers (results : List Entry) : Option (List Instance) :=
  (results.filter Entry.hasSession).mapM fun e => do
    let id ← memberIdMatch e.key
    let host ← e.hostAddress
    pure ⟨id, host⟩

/-- The loop of `_sanitize_member_list` on one member: the members by their numbers with their
timestamps, and whether a number came twice. -/
def sanitizeMember (rt : Runtime) (acc : List (Text × Instance × Text) × Bool) (member : Instance) :
    Option (List (Text × Instance × Text) × Bool) := do
  let number ← rt.coreMatch member.id
  let timestamp ← rt.timestampMatch member.id
  match get acc.1 number with
  | none => pure (insert number (member, timestamp) acc.1, acc.2)
  | some (_, latest) =>
    if latest < timestamp then pure (insert number (member, timestamp) acc.1, true)
    else pure (acc.1, true)

/-- `_sanitize_member_list`. -/
def sanitizeMemberList (rt : Runtime) (members : List Instance) : List Instance :=
  match members.foldlM (sanitizeMember rt) ([], false) with
  | some (unique, true) => rt.dictIter (unique.map fun entry => entry.2.1)
  | _ => members

/-- The list of members that is made from the records; `None` if no member is active. -/
def updatedMembers (rt : Runtime) (members : List Instance) : Option (List Instance) :=
  if members = [] then none else some (sanitizeMemberList rt members)

/-- `_is_temporal_state`, once the keys of the assignments have been read. -/
def isTemporalState (members : Option (List Instance)) (assignments : List Text) : Bool :=
  if assignments = [] then false
  else if assignments.all fun key => (assignmentIdMatch key).isSome then
    match members with
    | some members => decide (members.length < assignments.length)
    | none => true
  else true

/-- The first core id in whose slot an instance is. -/
def Slots.coreIdOf (m : Slots) (instanceName : Text) : Option Text :=
  (m.find? fun slot => slot.2.any (·.id = instanceName)).map Prod.fst

/-! ## The leader -/

/-- The state of a timer: `DelayedCall` cannot be cancelled twice. -/
inductive Timer where
  | none
  | pending
  | called
  | cancelled
  deriving DecidableEq

/-- The coroutines that wait for an answer. -/
inductive Task where
  /-- a call of `_track_members` that the reactor makes later -/
  | scheduled (index : ℕ)
  /-- `_track_members`, waiting for the members -/
  | tracking (index : ℕ)
  /-- `_track_members`, in its call of `_just_lost_leadership` -/
  | bailingOut (index : ℕ)
  /-- `_track_members`, waiting for the assignments in `_is_temporal_state` -/
  | checkingState (index : ℕ) (updated : Option (List Instance))
  /-- `_track_members`, waiting for the core ids in `_update_core_store_references` -/
  | updatingReferences (index : ℕ) (updated : Option (List Instance))
  /-- `_track_members`, asleep after an error -/
  | sleeping (index : ℕ)
  /-- `_get_core_store_mappings`, waiting for the mapping -/
  | gettingMapping
  /-- `_get_core_store_mappings`, waiting for an empty mapping to be put -/
  | creatingMapping
  /-- `_get_core_store_mappings`, waiting for the mapping after it has been put -/
  | rereadingMapping
  /-- `_reassign_core_stores`, waiting for the new mapping to be put -/
  | savingMapping (existingActive inactiveMembers : List Text)
  /-- `_reassign_core_stores`, waiting for an assignment to be put -/
  | assigning (newMembers inactiveMembers : List Text)
  /-- `_reassign_core_stores`, waiting for a delete, with the keys to be deleted next -/
  | removing (keys : List Text)
  deriving DecidableEq

/-- The answers that tasks wait for. -/
inductive Answer where
  /-- a delay is over -/
  | elapsed
  /-- `consul_get_with_timeout` timed out -/
  | timeout
  | members (index : ℕ) (results : List Entry)
  /-- `_just_lost_leadership` returned, or raised an error -/
  | lostLeadership (raised : Bool)
  | keys (results : List Text)
  /-- the stored mapping: none, or one that cannot be decoded, or one that can -/
  | mapping (stored : Option (Option Slots))
  | done (result : Bool)
  | failed
  deriving DecidableEq

structure Leader where
  halted : Bool
  members : Option (List Instance)
  coreStoreAssignment : Option Slots
  soakTimer : Timer
  tasks : List Task
  issued : List Effect
  deriving DecidableEq

namespace Leader

/-- A leader that has been made and started. -/
def started : Leader where
  halted := false
  members := some []
  coreStoreAssignment := none
  soakTimer := .none
  tasks := [.scheduled 0]
  issued := []

def issue (l : Leader) (e : Effect) : Leader := { l with issued := l.issued ++ [e] }

def suspend (l : Leader) (t : Task) : Leader := { l with tasks := l.tasks ++ [t] }

/-- `stop`. -/
def stop (l : Leader) : Leader :=
  { l with halted := true, soakTimer := if l.soakTimer = .pending then .cancelled else l.soakTimer }

/-- `_restart_core_store_reassignment_soak_timer`; nothing for the `AlreadyCancelled` error. -/
def restartSoakTimer (l : Leader) : Option Leader :=
  if l.soakTimer = .cancelled then none
  else some (({ l with soakTimer := .pending } : Leader).issue .armSoakTimer)

/-- The end of `_track_members`. -/
def trackAgain (l : Leader) (index : ℕ) : Leader :=
  if l.halted then l else l.suspend (.scheduled index)

/-- The end of `_track_members` for a changed list of members. -/
def membersChanged (l : Leader) (index : ℕ) (updated : Option (List Instance)) : Leader :=
  let l := { l with members := updated }
  match l.restartSoakTimer with
  | some l => l.trackAgain index
  | none => l.suspend (.sleeping index)

/-- The `except` branch of `_reassign_core_stores`; an error in it is lost with the coroutine. -/
def reassignmentFailed (l : Leader) : Leader := l.restartSoakTimer.getD l

/-- `_get_core_data_id_from_instance`. -/
def coreDataId (l : Leader) (instanceName : Text) : Option Text :=
  (l.coreStoreAssignment.getD []).coreIdOf instanceName

/-- The new mapping is kept and stored. -/
def saveMapping (l : Leader) (m : Slots) : Leader :=
  ({ l with coreStoreAssignment := some m } : Leader).issue
    (.kv (.put coreStoreAssignmentKey (.slots m)))

/-- `_reassign_core_stores` up to its first suspension. -/
def reassignCoreStores (rt : Runtime) (l : Leader) : Leader :=
  match l.members.bind fun members =>
      reassign rt.order members (l.coreStoreAssignment.getD []) with
  | none => l.reassignmentFailed
  | some r =>
    (l.saveMapping r.coreStoreAssignment).suspend
      (.savingMapping r.existingActive r.inactiveMembers)

/-- The next delete of `_reassign_core_stores`. -/
def removeNext (l : Leader) : List Text → Leader
  | key :: keys => (l.issue (.kv (.delete key))).suspend (.removing keys)
  | [] => l

/-- The keys that are deleted for members that have left. -/
def removedKeys (rt : Runtime) (inactiveMembers : List Text) : List Text :=
  (rt.order.iter inactiveMembers).flatMap fun id => [assignmentPrefix ++ id, membershipPrefix ++ id]

/-- The next put or delete of `_reassign_core_stores`. -/
def assignNext (rt : Runtime) (l : Leader) (newMembers inactiveMembers : List Text) : Leader :=
  match newMembers with
  | id :: newMembers =>
    (l.issue (.kv (.put (assignmentKey id) (.coreId (l.coreDataId id))))).suspend
      (.assigning newMembers inactiveMembers)
  | [] => l.removeNext (removedKeys rt inactiveMembers)

/-- The ids of the members that had no slot. -/
def newMembers (rt : Runtime) (members : List Instance) (existingActive : List Text) : List Text :=
  rt.order.iter ((members.map Instance.id).dedup.filter (· ∉ existingActive))

/-- `_track_members` and the coroutines it waits for, after an answer; nothing for an answer of
another kind. -/
def resumeTracking (rt : Runtime) (l : Leader) : Task → Answer → Option Leader
  | .scheduled index, .elapsed => some (l.suspend (.tracking index))
  | .tracking index, .timeout => some (l.trackAgain index)
  | .tracking index, .failed => some (l.suspend (.sleeping index))
  | .tracking index, .members tmpIndex results =>
    if l.halted then some l
    else if results = [] then some (l.suspend (.bailingOut index))
    else if index = tmpIndex then some (l.trackAgain index)
    else match activeMembers results with
      | none => some (l.suspend (.sleeping tmpIndex))
      | some members => some (l.suspend (.checkingState tmpIndex (updatedMembers rt members)))
  | .bailingOut index, .lostLeadership raised =>
    some (if raised then l.suspend (.sleeping index) else l.trackAgain index)
  | .checkingState index _, .failed => some (l.trackAgain index)
  | .checkingState index updated, .keys assignments =>
    some (if isTemporalState updated assignments ∨ updated = l.members then l.trackAgain index
      else l.suspend (.updatingReferences index updated))
  | .updatingReferences index updated, .keys _ =>
    -- the mapping is read by a coroutine of its own
    some ((l.suspend .gettingMapping).membersChanged index updated)
  | .updatingReferences index updated, .failed => some (l.membersChanged index updated)
  | .sleeping index, .elapsed => some (l.trackAgain index)
  | _, _ => none

/-- `_get_core_store_mappings` after an answer. -/
def resumeMapping (l : Leader) : Task → Answer → Option Leader
  | .gettingMapping, .mapping none =>
    some ((l.issue (.kv (.put coreStoreAssignmentKey (.slots [])))).suspend .creatingMapping)
  | .gettingMapping, .mapping (some none) => some l
  | .gettingMapping, .mapping (some (some m)) => some { l with coreStoreAssignment := some m }
  | .creatingMapping, .done true => some (l.suspend .rereadingMapping)
  | .creatingMapping, .done false => some l
  | .rereadingMapping, .mapping (some (some m)) => some { l with coreStoreAssignment := some m }
  | .rereadingMapping, .mapping _ => some l
  | .gettingMapping, .failed => some l
  | .creatingMapping, .failed => some l
  | .rereadingMapping, .failed => some l
  | _, _ => none

/-- `_reassign_core_stores` after an answer. -/
def resumeReassignment (rt : Runtime) (l : Leader) : Task → Answer → Option Leader
  | .savingMapping existingActive inactiveMembers, .done _ => match l.members with
    | some members => some (assignNext rt l (newMembers rt members existingActive) inactiveMembers)
    | none => some l.reassignmentFailed
  | .assigning newMembers inactiveMembers, .done _ =>
    some (assignNext rt l newMembers inactiveMembers)
  | .removing keys, .done _ => some (l.removeNext keys)
  | .savingMapping _ _, .failed => some l.reassignmentFailed
  | .assigning _ _, .failed => some l.reassignmentFailed
  | .removing _, .failed => some l.reassignmentFailed
  | _, _ => none

/-- A task is resumed with an answer. -/
def resume (rt : Runtime) (l : Leader) (t : Task) (a : Answer) : Option Leader :=
  ((resumeTracking rt l t a).or (resumeMapping l t a)).or (resumeReassignment rt l t a)

/-- What happens to a leader. -/
inductive Event where
  | answer (i : ℕ) (a : Answer)
  | soakTimer
  | stop
  deriving DecidableEq

/-- The leader while one of its tasks runs. -/
def without (l : Leader) (i : ℕ) : Leader := { l with tasks := l.tasks.eraseIdx i }

/-- A step of a leader.  Answers that no task waits for are ignored. -/
def step (rt : Runtime) (l : Leader) : Event → Leader
  | .answer i a => match l.tasks[i]? with
    | some t => (resume rt (l.without i) t a).getD l
    | none => l
  | .soakTimer =>
    if l.soakTimer = .pending then reassignCoreStores rt { l with soakTimer := .called } else l
  | .stop => l.stop

/-- A run of a leader. -/
def run (rt : Runtime) (l : Leader) (events : List Event) : Leader := events.foldl (step rt) l

/-! ## Leaders that have been stopped -/

section Stopped

variable {rt : Runtime} {l : Leader}

/-- The leader puts nothing, deletes nothing and does not arm its timer, whatever happens. -/
def Silent (rt : Runtime) (l : Leader) : Prop := ∀ events, (run rt l events).issued = l.issued

/-- A task with which a leader can be stopped.  The tasks that wait for the list of members come to
the test of `halted`; the others have nothing left to do.  A reassignment that fails arms the timer,
unless the timer was pending and has been cancelled by `stop`. -/
def Quiet (rt : Runtime) (l : Leader) : Task → Prop
  | .scheduled _ | .tracking _ | .bailingOut _ | .sleeping _ => True
  | .checkingState _ updated => updated = l.members
  | .updatingReferences _ _ | .gettingMapping => False
  | .creatingMapping | .rereadingMapping => True
  | .savingMapping existingActive inactiveMembers =>
    (l.soakTimer = .pending ∨ l.soakTimer = .cancelled) ∧
      ∀ members, l.members = some members →
        newMembers rt members existingActive = [] ∧ inactiveMembers = []
  | .assigning newMembers inactiveMembers =>
    (l.soakTimer = .pending ∨ l.soakTimer = .cancelled) ∧ newMembers = [] ∧ inactiveMembers = []
  | .removing keys => (l.soakTimer = .pending ∨ l.soakTimer = .cancelled) ∧ keys = []

theorem soakTimer_stop_ne (l : Leader) : l.stop.soakTimer ≠ .pending := by
  rw [stop]
  split
  · exact nofun
  · assumption

theorem soakTimer_stop_iff (l : Leader) :
    l.stop.soakTimer = .pending ∨ l.stop.soakTimer = .cancelled ↔
      l.soakTimer = .pending ∨ l.soakTimer = .cancelled := by
  cases h : l.soakTimer <;> simp [stop, h]

theorem quiet_stop_iff (t : Task) : l.stop.Quiet rt t ↔ l.Quiet rt t := by
  have hmembers : l.stop.members = l.members := rfl
  cases t <;> simp only [Quiet, soakTimer_stop_iff, hmembers]

/-! ### Quiet tasks -/

/-- A step that adds only quiet tasks and issues nothing. -/
structure Rests (rt : Runtime) (l l' : Leader) : Prop where
  halted : l'.halted = l.halted
  members : l'.members = l.members
  soakTimer : l'.soakTimer = l.soakTimer
  issued : l'.issued = l.issued
  tasks : ∀ t ∈ l'.tasks, t ∈ l.tasks ∨ l.Quiet rt t

theorem Rests.refl (l : Leader) : Rests rt l l := ⟨rfl, rfl, rfl, rfl, fun _ ht => .inl ht⟩

variable {t : Task} {l' : Leader}

theorem Rests.suspend (h : l.Quiet rt t) : Rests rt l (l.suspend t) := by
  refine ⟨rfl, rfl, rfl, rfl, fun t' ht' => ?_⟩
  rcases mem_append.1 ht' with ht' | ht'
  · exact .inl ht'
  · rw [mem_singleton] at ht'
    exact .inr (ht' ▸ h)

theorem Rests.setAssignment (m : Option Slots) : Rests rt l { l with coreStoreAssignment := m } :=
  ⟨rfl, rfl, rfl, rfl, fun _ ht => .inl ht⟩

theorem Rests.trackAgain (h : l.halted = true) (index : ℕ) : Rests rt l (l.trackAgain index) := by
  rw [Leader.trackAgain, if_pos h]
  exact Rests.refl l

theorem reassignmentFailed_of_cancelled (h : l.soakTimer = .cancelled) :
    l.reassignmentFailed = l := by
  rw [reassignmentFailed, restartSoakTimer, if_pos h]
  rfl

variable {a : Answer}

/-- A quiet task of a halted leader rests, or waits for the members again. -/
theorem rests_resumeTracking (hhalted : l.halted = true) (ht : l.Quiet rt t)
    (h : resumeTracking rt l t a = some l') : Rests rt l l' := by
  unfold resumeTracking at h
  split at h
  case h_1 => cases h; exact Rests.suspend trivial
  case h_2 => cases h; exact Rests.trackAgain hhalted _
  case h_3 => cases h; exact Rests.suspend trivial
  case h_4 =>
    rw [if_pos hhalted] at h
    cases h
    exact Rests.refl l
  case h_5 =>
    cases h
    split
    · exact Rests.suspend trivial
    · exact Rests.trackAgain hhalted _
  case h_6 => cases h; exact Rests.trackAgain hhalted _
  case h_7 updated _ =>
    cases h
    have hsame : updated = l.members := ht
    rw [if_pos (.inr hsame)]
    exact Rests.trackAgain hhalted _
  case h_8 => exact absurd ht id
  case h_9 => exact absurd ht id
  case h_10 => cases h; exact Rests.trackAgain hhalted _
  case h_11 => cases h

theorem rests_resumeMapping (ht : l.Quiet rt t) (h : resumeMapping l t a = some l') :
    Rests rt l l' := by
  unfold resumeMapping at h
  split at h
  case h_1 => exact absurd ht id
  case h_2 => exact absurd ht id
  case h_3 => exact absurd ht id
  case h_4 => cases h; exact Rests.suspend trivial
  case h_6 => cases h; exact Rests.setAssignment _
  case h_11 => cases h
  all_goals
    cases h
    exact Rests.refl l

theorem assignNext_nil (l : Leader) : assignNext rt l [] [] = l := by
  have hiter : rt.order.iter [] = [] := perm_nil.1 (rt.order.iter_perm [])
  rw [assignNext, removedKeys, hiter]
  rfl

theorem rests_resumeReassignment (htimer : l.soakTimer ≠ .pending) (ht : l.Quiet rt t)
    (h : resumeReassignment rt l t a = some l') : Rests rt l l' := by
  -- the timer of a reassignment that is quiet has been cancelled
  have hfailed : (l.soakTimer = .pending ∨ l.soakTimer = .cancelled) →
      Rests rt l l.reassignmentFailed := by
    intro hcancelled
    rw [reassignmentFailed_of_cancelled (hcancelled.resolve_left htimer)]
    exact Rests.refl l
  unfold resumeReassignment at h
  split at h
  case h_1 =>
    obtain ⟨hcancelled, hnothing⟩ := ht
    split at h
    · next members hmembers =>
      obtain ⟨hnew, rfl⟩ := hnothing members hmembers
      rw [hnew, assignNext_nil] at h
      cases h
      exact Rests.refl l
    · cases h
      exact hfailed hcancelled
  case h_2 =>
    obtain ⟨-, rfl, rfl⟩ := ht
    rw [assignNext_nil] at h
    cases h
    exact Rests.refl l
  case h_3 =>
    obtain ⟨-, rfl⟩ := ht
    cases h
    exact Rests.refl l
  case h_7 => cases h
  all_goals
    cases h
    exact hfailed ht.1

/-- A leader that has been stopped with quiet tasks only. -/
structure Deposed (rt : Runtime) (l : Leader) : Prop where
  halted : l.halted = true
  soakTimer : l.soakTimer ≠ .pending
  quiet : ∀ t ∈ l.tasks, l.Quiet rt t

theorem quiet_congr (hmembers : l'.members = l.members) (htimer : l'.soakTimer = l.soakTimer)
    (t : Task) : l'.Quiet rt t ↔ l.Quiet rt t := by
  cases t <;> simp only [Quiet, hmembers, htimer]

theorem Deposed.of_rests (h : Deposed rt l) (hrests : Rests rt l l') :
    Deposed rt l' where
  halted := hrests.halted.trans h.halted
  soakTimer := hrests.soakTimer ▸ h.soakTimer
  quiet t ht := (quiet_congr hrests.members hrests.soakTimer t).2
    ((hrests.tasks t ht).elim (h.quiet t) id)

/-- **A step of a stopped leader with quiet tasks issues nothing, and leaves quiet tasks.** -/
theorem Deposed.step (h : Deposed rt l) (e : Event) :
    Deposed rt (step rt l e) ∧ (step rt l e).issued = l.issued := by
  rcases e with ⟨i, a⟩ | _ | _
  · rw [Leader.step]
    split
    · next t ht =>
      have hmem : t ∈ l.tasks := mem_of_getElem? ht
      have herased : Deposed rt (l.without i) :=
        ⟨h.halted, h.soakTimer, fun t' ht' => (quiet_congr rfl rfl t').2
          (h.quiet t' (mem_of_mem_eraseIdx ht'))⟩
      have hquiet : Quiet rt (l.without i) t :=
        (quiet_congr rfl rfl t).2 (h.quiet t hmem)
      rcases hres : resume rt (l.without i) t a with _ | l'
      · exact ⟨h, rfl⟩
      · rw [resume, Option.or_eq_some_iff, Option.or_eq_some_iff] at hres
        have hrests : Rests rt (l.without i) l' := by
          rcases hres with (hres | ⟨-, hres⟩) | ⟨-, hres⟩
          · exact rests_resumeTracking herased.halted hquiet hres
          · exact rests_resumeMapping hquiet hres
          · exact rests_resumeReassignment herased.soakTimer hquiet hres
        exact ⟨herased.of_rests hrests, hrests.issued⟩
    · exact ⟨h, rfl⟩
  · rw [Leader.step, if_neg h.soakTimer]
    exact ⟨h, rfl⟩
  · exact ⟨⟨rfl, soakTimer_stop_ne l, fun t ht => (quiet_stop_iff t).2 (h.quiet t ht)⟩, rfl⟩

theorem Deposed.silent (h : Deposed rt l) : Silent rt l := by
  intro events
  induction events generalizing l with
  | nil => rfl
  | cons e events ih =>
    obtain ⟨hnext, hissued⟩ := h.step e
    rw [run, foldl_cons]
    exact (ih hnext).trans hissued

/-! ### Tasks that are not quiet -/

/-- Something more can be issued. -/
def Noisy (rt : Runtime) (l : Leader) : Prop := ∃ events, (run rt l events).issued ≠ l.issued

theorem noisy_of_step (e : Event)
    (h : (step rt l e).issued ≠ l.issued ∨ Noisy rt (step rt l e)) : Noisy rt l := by
  rcases h with h | ⟨events, h⟩
  · exact ⟨[e], h⟩
  · by_cases hsame : (step rt l e).issued = l.issued
    · exact ⟨e :: events, hsame ▸ h⟩
    · exact ⟨[e], hsame⟩

/-- A task that is there can be resumed. -/
theorem exists_step_eq (rt : Runtime) (ht : t ∈ l.tasks) :
    ∃ i, ∀ l', resume rt (l.without i) t a = some l' →
      step rt l (.answer i a) = l' := by
  obtain ⟨i, hi⟩ := getElem?_of_mem ht
  refine ⟨i, fun l' hl' => ?_⟩
  rw [step, hi]
  dsimp only
  rw [hl', Option.getD_some]

theorem issued_issue_ne (l : Leader) (e : Effect) : (l.issue e).issued ≠ l.issued := by
  exact fun h => cons_ne_nil _ _ (append_right_eq_self.1 h)

theorem noisy_of_gettingMapping (h : .gettingMapping ∈ l.tasks) : Noisy rt l := by
  obtain ⟨i, hi⟩ := exists_step_eq rt h (a := .mapping none)
  refine noisy_of_step (.answer i (.mapping none)) (.inl ?_)
  rw [hi _ rfl]
  exact issued_issue_ne _ _

/-- The list of members is stored, and the mapping read. -/
theorem mem_tasks_membersChanged (ht : t ∈ l.tasks) (index : ℕ) (updated : Option (List Instance)) :
    t ∈ (l.membersChanged index updated).tasks := by
  have hsuspend : ∀ (l' : Leader) (t' : Task), t ∈ l'.tasks → t ∈ (l'.suspend t').tasks :=
    fun _ _ h => mem_append_left _ h
  rw [membersChanged]
  split
  · next l' hl' =>
    rw [restartSoakTimer] at hl'
    split at hl'
    · cases hl'
    · cases hl'
      rw [Leader.trackAgain]
      split
      · exact ht
      · exact hsuspend _ _ ht
  · exact hsuspend _ _ ht

theorem noisy_of_updatingReferences {index : ℕ} {updated : Option (List Instance)}
    (h : .updatingReferences index updated ∈ l.tasks) : Noisy rt l := by
  obtain ⟨i, hi⟩ := exists_step_eq rt h (a := .keys [])
  refine noisy_of_step (.answer i (.keys [])) (.inr (noisy_of_gettingMapping ?_))
  rw [hi _ rfl]
  exact mem_tasks_membersChanged (mem_append_right _ mem_cons_self) _ _

theorem noisy_of_checkingState {index : ℕ} {updated : Option (List Instance)}
    (h : .checkingState index updated ∈ l.tasks) (hne : updated ≠ l.members) : Noisy rt l := by
  obtain ⟨i, hi⟩ := exists_step_eq rt h (a := .keys [])
  refine noisy_of_step (.answer i (.keys [])) (.inr ?_)
  have hstays : ¬ (isTemporalState updated [] = true ∨ updated = (l.without i).members) :=
    not_or.2 ⟨Bool.false_ne_true, hne⟩
  rw [hi _ rfl, if_neg hstays]
  exact noisy_of_updatingReferences (mem_append_right _ mem_cons_self)

/-- The tasks of a reassignment. -/
def IsReassignment : Task → Prop
  | .savingMapping _ _ | .assigning _ _ | .removing _ => True
  | _ => False

/-- A reassignment that fails arms the timer, if it has not been cancelled. -/
theorem noisy_of_failure (h : t ∈ l.tasks) (ht : IsReassignment t)
    (htimer : l.soakTimer ≠ .cancelled) : Noisy rt l := by
  obtain ⟨i, hi⟩ := exists_step_eq rt h (a := .failed)
  have hfailed : resume rt (l.without i) t .failed =
      some (reassignmentFailed (l.without i)) := by
    cases t <;> first | rfl | exact absurd ht id
  refine noisy_of_step (.answer i .failed) (.inl ?_)
  have htimer' : (l.without i).soakTimer ≠ .cancelled := htimer
  rw [hi _ hfailed, reassignmentFailed, restartSoakTimer, if_neg htimer']
  exact issued_issue_ne _ _

theorem issued_removeNext_ne {keys : List Text} (h : keys ≠ []) :
    (l.removeNext keys).issued ≠ l.issued := by
  rcases keys with _ | ⟨key, keys⟩
  · exact absurd rfl h
  · exact issued_issue_ne _ _

theorem removedKeys_eq_nil_iff {inactiveMembers : List Text} :
    removedKeys rt inactiveMembers = [] ↔ inactiveMembers = [] := by
  rw [removedKeys, flatMap_eq_nil_iff]
  constructor
  · intro h
    rw [eq_nil_iff_forall_not_mem]
    intro id hid
    exact cons_ne_nil _ _ (h id ((rt.order.iter_perm _).mem_iff.2 hid))
  · rintro rfl id hid
    exact absurd ((rt.order.iter_perm _).mem_iff.1 hid) not_mem_nil

theorem issued_assignNext_ne (rt : Runtime) {newMembers inactiveMembers : List Text}
    (h : ¬ (newMembers = [] ∧ inactiveMembers = [])) :
    (assignNext rt l newMembers inactiveMembers).issued ≠ l.issued := by
  rcases newMembers with _ | ⟨id, newMembers⟩
  · exact issued_removeNext_ne fun hkeys => h ⟨rfl, removedKeys_eq_nil_iff.1 hkeys⟩
  · exact issued_issue_ne _ _

/-- A leader that is stopped with a task that is not quiet can still issue something. -/
theorem noisy_of_not_quiet (ht : t ∈ l.tasks) (hnot : ¬ l.Quiet rt t) : Noisy rt l := by
  -- a reassignment whose next answer is a success
  have hdone : ∀ l' : ℕ → Leader, (∀ i, resume rt (l.without i) t (.done true) = some (l' i)) →
      (∀ i, (l' i).issued ≠ (l.without i).issued) → Noisy rt l := by
    intro l' hresume hissued
    obtain ⟨i, hi⟩ := exists_step_eq rt ht (a := .done true)
    refine noisy_of_step (.answer i (.done true)) (.inl ?_)
    rw [hi _ (hresume i)]
    exact hissued i
  cases t with
  | scheduled _ | tracking _ | bailingOut _ | sleeping _ => exact absurd trivial hnot
  | creatingMapping | rereadingMapping => exact absurd trivial hnot
  | checkingState index updated => exact noisy_of_checkingState ht hnot
  | updatingReferences index updated => exact noisy_of_updatingReferences ht
  | gettingMapping => exact noisy_of_gettingMapping ht
  | savingMapping existingActive inactiveMembers =>
    by_cases htimer : l.soakTimer = .cancelled
    · obtain ⟨members, hmembers, hsome⟩ : ∃ members, l.members = some members ∧
          ¬ (newMembers rt members existingActive = [] ∧ inactiveMembers = []) := by
        by_contra hnone
        push Not at hnone
        exact hnot ⟨.inr htimer, fun members hmembers => by
          by_contra h
          exact h (hnone members hmembers)⟩
      refine hdone _ (fun i => ?_) fun i => issued_assignNext_ne rt hsome
      rw [resume, resumeReassignment, show (l.without i).members = some members from hmembers]
      rfl
    · exact noisy_of_failure ht trivial htimer
  | assigning newMembers inactiveMembers =>
    by_cases htimer : l.soakTimer = .cancelled
    · exact hdone _ (fun _ => rfl) fun _ => issued_assignNext_ne rt fun h => hnot ⟨.inr htimer, h⟩
    · exact noisy_of_failure ht trivial htimer
  | removing keys =>
    by_cases htimer : l.soakTimer = .cancelled
    · exact hdone _ (fun _ => rfl) fun _ => issued_removeNext_ne fun h => hnot ⟨.inr htimer, h⟩
    · exact noisy_of_failure ht trivial htimer

/-- **A leader does nothing more after it has been stopped exactly if all its tasks are quiet.** -/
theorem silent_stop_iff (rt : Runtime) (l : Leader) :
    l.stop.Silent rt ↔ ∀ t ∈ l.tasks, l.Quiet rt t := by
  constructor
  · intro h t ht
    by_contra hnot
    obtain ⟨events, hevents⟩ :=
      noisy_of_not_quiet (l := l.stop) ht (mt (quiet_stop_iff t).1 hnot)
    exact hevents (h events)
  · intro h
    exact Deposed.silent ⟨rfl, soakTimer_stop_ne l, fun t ht => (quiet_stop_iff t).2 (h t ht)⟩

/-- Sets and dictionaries in the order of their lists, and no patterns. -/
def plainRuntime : Runtime where
  order := listOrder
  coreMatch := fun _ => none
  timestampMatch := fun _ => none
  dictIter := id
  dictIter_perm := fun _ => List.Perm.refl _

/-- The leader has received a first list of members, and waits for the assignments. -/
def checkingFirstMembers : Leader :=
  run plainRuntime started [.answer 0 .elapsed,
    .answer 0 (.members 7 [⟨membershipPrefix ++ "v1".toList, some "h1".toList, true⟩])]

/-- A leader that was stopped while it was waiting for the assignments arms its timer.  When the
timer has run out it stores a mapping and an assignment. -/
theorem deposed_leader_acts :
    checkingFirstMembers.stop.issued = [] ∧
      (run plainRuntime checkingFirstMembers.stop
        [.answer 0 (.keys []), .answer 0 (.keys []), .soakTimer, .answer 1 (.done true)]).issued =
      [.armSoakTimer,
        .kv (.put coreStoreAssignmentKey
          (.slots [("0001".toList, some ⟨"v1".toList, "h1".toList⟩)])),
        .kv (.put (assignmentKey "v1".toList) (.coreId (some "0001".toList)))] := by
  decide +kernel

end Stopped

end Leader

end Voltha.Cluster
