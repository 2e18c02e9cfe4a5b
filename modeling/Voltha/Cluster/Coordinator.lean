import Voltha.Cluster.Leader
import Voltha.Lib.Run

/-!
# Leadership

The leader election of `Coordinator` in `coordinator.py`.  A loop tries to acquire the leader key,
reads it back, asserts or gives up leadership, and watches the key until it changes.  Gaining
leadership makes and starts a `Leader`; losing it stops the leader and forgets it.

A leader whose list of members is empty gives up by itself: it calls `_just_lost_leadership`, which
stops it but leaves the flag `i_am_leader` set.  The coordinator then keeps the leader key without a
leader, and its next attempt to give up leadership raises an error.

* `Inv.step`: what the steps keep that are not such a call.
* `agrees_iff`: **the flag and the leader agree in all states of a run, and giving up leadership
  never raises, exactly if no leader that has not been stopped receives an empty list of members**.
-/

namespace Voltha.Cluster

open List Option
open Hex

/-! ## Steps of a leader -/

namespace Leader

variable {rt : Runtime} {l l' : Leader}

/-- The leader is halted as before, and has no new task that gives up leadership. -/
structure Advances (l l' : Leader) : Prop where
  halted : l'.halted = l.halted
  tasks : ∀ t ∈ l'.tasks, t ∈ l.tasks ∨ ∀ index, t ≠ .bailingOut index

theorem Advances.refl (l : Leader) : Advances l l := ⟨rfl, fun _ ht => .inl ht⟩

theorem Advances.trans {l'' : Leader} (h : Advances l l') (h' : Advances l' l'') :
    Advances l l'' := by
  refine ⟨h'.halted.trans h.halted, fun t ht => ?_⟩
  rcases h'.tasks t ht with ht | ht
  · exact h.tasks t ht
  · exact .inr ht

/-- A step that changes only the other fields. -/
theorem Advances.of_eq (hhalted : l'.halted = l.halted) (htasks : l'.tasks = l.tasks) :
    Advances l l' := ⟨hhalted, fun _ ht => .inl (htasks ▸ ht)⟩

variable {t : Task} {a : Answer}

theorem Advances.suspend (l : Leader) (ht : ∀ index, t ≠ .bailingOut index) :
    Advances l (l.suspend t) := by
  refine ⟨rfl, fun t' ht' => ?_⟩
  rcases mem_append.1 ht' with ht' | ht'
  · exact .inl ht'
  · rw [mem_singleton] at ht'
    exact .inr (ht' ▸ ht)

open Advances

theorem Advances.issue_suspend (l : Leader) (e : Effect) (ht : ∀ index, t ≠ .bailingOut index) :
    Advances l ((l.issue e).suspend t) :=
  (of_eq rfl rfl : Advances l (l.issue e)).trans (suspend _ ht)

theorem Advances.trackAgain (l : Leader) (index : ℕ) : Advances l (l.trackAgain index) := by
  rw [Leader.trackAgain]
  split
  · exact refl l
  · exact suspend l (by rintro _ ⟨⟩)

theorem Advances.restartSoakTimer (h : l.restartSoakTimer = some l') : Advances l l' := by
  rw [Leader.restartSoakTimer] at h
  split at h
  · cases h
  · cases h
    exact of_eq rfl rfl

section

variable (l : Leader)

theorem Advances.membersChanged (index : ℕ) (updated : Option (List Instance)) :
    Advances l (l.membersChanged index updated) := by
  have hset : Advances l { l with members := updated } := of_eq rfl rfl
  rw [Leader.membersChanged]
  split
  · next l' hl' =>
    exact (hset.trans (restartSoakTimer hl')).trans (trackAgain l' index)
  · exact hset.trans (suspend _ (by rintro _ ⟨⟩))

theorem Advances.reassignmentFailed : Advances l l.reassignmentFailed := by
  rw [Leader.reassignmentFailed]
  rcases h : l.restartSoakTimer with _ | l'
  · exact refl l
  · exact restartSoakTimer h

theorem Advances.removeNext (keys : List Text) : Advances l (l.removeNext keys) := by
  rcases keys with _ | ⟨key, keys⟩
  · exact refl l
  · exact issue_suspend l _ fun _ => nofun

theorem Advances.assignNext (newMembers inactiveMembers : List Text) :
    Advances l (assignNext rt l newMembers inactiveMembers) := by
  rcases newMembers with _ | ⟨id, newMembers⟩
  · exact removeNext l _
  · exact issue_suspend l _ fun _ => nofun

theorem Advances.reassignCoreStores : Advances l (reassignCoreStores rt l) := by
  rw [Leader.reassignCoreStores]
  split
  · exact reassignmentFailed l
  · exact (of_eq rfl rfl : Advances l (l.saveMapping _)).trans
      (suspend _ fun _ => nofun)

end

/-- A task that receives an empty list of members while the leader is not halted. -/
def GivesUp (l : Leader) (t : Task) (a : Answer) : Prop :=
  l.halted = false ∧ (∃ index, t = .tracking index) ∧ ∃ index, a = .members index []

theorem Advances.resumeTracking (h : resumeTracking rt l t a = some l') (hnot : ¬ l.GivesUp t a) :
    Advances l l' := by
  unfold Leader.resumeTracking at h
  split at h
  case h_4 index tmpIndex results =>
    split at h
    · cases h
      exact refl l
    · next hhalted =>
      split at h
      · next hresults =>
        subst hresults
        exact absurd ⟨Bool.eq_false_iff.2 hhalted, ⟨index, rfl⟩, ⟨tmpIndex, rfl⟩⟩ hnot
      · split at h
        · cases h
          exact trackAgain l _
        · split at h
          · cases h
            exact suspend l fun _ => nofun
          · cases h
            exact suspend l fun _ => nofun
  case h_5 =>
    cases h
    split
    · exact suspend l fun _ => nofun
    · exact trackAgain l _
  case h_7 =>
    cases h
    split
    · exact trackAgain l _
    · exact suspend l fun _ => nofun
  case h_8 =>
    cases h
    exact (suspend l (t := .gettingMapping) fun _ => nofun).trans
      (membersChanged _ _ _)
  case h_9 => cases h; exact membersChanged l _ _
  case h_11 => cases h
  all_goals
    cases h
    first
      | exact trackAgain l _
      | exact suspend l fun _ => nofun

theorem Advances.resumeMapping (h : resumeMapping l t a = some l') : Advances l l' := by
  unfold Leader.resumeMapping at h
  split at h
  case h_1 => cases h; exact issue_suspend l _ fun _ => nofun
  case h_4 => cases h; exact suspend l fun _ => nofun
  case h_11 => cases h
  all_goals
    cases h
    exact of_eq rfl rfl

theorem Advances.resumeReassignment (h : resumeReassignment rt l t a = some l') :
    Advances l l' := by
  unfold Leader.resumeReassignment at h
  split at h
  case h_1 =>
    split at h
    · cases h
      exact assignNext l _ _
    · cases h
      exact reassignmentFailed l
  case h_2 => cases h; exact assignNext l _ _
  case h_3 => cases h; exact removeNext l _
  case h_7 => cases h
  all_goals
    cases h
    exact reassignmentFailed l

theorem Advances.resume (h : resume rt l t a = some l') (hnot : ¬ l.GivesUp t a) :
    Advances l l' := by
  rw [Leader.resume, or_eq_some_iff, or_eq_some_iff] at h
  rcases h with (h | ⟨-, h⟩) | ⟨-, h⟩
  · exact resumeTracking h hnot
  · exact resumeMapping h
  · exact resumeReassignment h

/-- An answer to which the leader gives up leadership. -/
def GivesUpOn (l : Leader) (i : ℕ) (a : Answer) : Prop := ∃ t, l.tasks[i]? = some t ∧ l.GivesUp t a

/-- **The other steps of a leader.** -/
theorem advances_answer {i : ℕ} (hnot : ¬ l.GivesUpOn i a) :
    Advances l (step rt l (.answer i a)) := by
  rw [step]
  split
  · next t ht =>
    have herased : Advances l (l.without i) :=
      ⟨rfl, fun t ht => .inl (mem_of_mem_eraseIdx ht)⟩
    rcases hres : Leader.resume rt (l.without i) t a with _ | l'
    · exact refl l
    · exact herased.trans (Advances.resume hres fun h => hnot ⟨t, ht, h⟩)
  · exact refl l

theorem advances_soakTimer : Advances l (step rt l .soakTimer) := by
  rw [step]
  split
  · exact (of_eq rfl rfl : Advances l { l with soakTimer := .called }).trans
      (Advances.reassignCoreStores _)
  · exact refl l

/-- A leader that gives up has one task that is in the call of the coordinator. -/
theorem step_of_givesUpOn (rt : Runtime) {i : ℕ} (h : l.GivesUpOn i a) :
    ∃ index, step rt l (.answer i a) = (l.without i).suspend (.bailingOut index) := by
  obtain ⟨t, ht, hhalted, ⟨index, rfl⟩, ⟨tmpIndex, rfl⟩⟩ := h
  refine ⟨index, ?_⟩
  have hhalted' : ¬ (l.without i).halted = true := by
    rw [show (l.without i).halted = false from hhalted]
    exact Bool.false_ne_true
  rw [step, ht]
  dsimp only
  rw [Leader.resume, Leader.resumeTracking, if_neg hhalted', if_pos rfl]
  rfl

end Leader

/-! ## The coordinator -/

/-- The record under the leader key. -/
structure LeaderRecord where
  session : Option Text
  value : Text
  modifyIndex : ℕ
  deriving DecidableEq

/-- Where `_leadership_tracking_loop` waits. -/
inductive LoopState where
  /-- for the delay before the next attempt -/
  | delaying
  /-- for the leader key to be acquired -/
  | acquiring
  /-- for the leader key to be read back -/
  | readingBack (result : Bool)
  /-- for a change of the leader key -/
  | watching (index : ℕ) (last : LeaderRecord)
  deriving DecidableEq

structure Coordinator where
  instanceId : Text
  sessionId : Option Text
  iAmLeader : Bool
  leaderId : Option Text
  /-- the position of the present leader among all that have been made -/
  leader : Option ℕ
  leaders : List Leader
  loop : LoopState
  /-- whether `_halt_leader` has raised an error -/
  raised : Bool
  deriving DecidableEq

namespace Coordinator

/-- The coordinator when its loop is started. -/
def init (instanceId : Text) : Coordinator where
  instanceId := instanceId
  sessionId := none
  iAmLeader := false
  leaderId := none
  leader := none
  leaders := []
  loop := .delaying
  raised := false

/-- `_just_gained_leadership`. -/
def justGainedLeadership (c : Coordinator) : Coordinator :=
  { c with leader := some c.leaders.length, leaders := c.leaders ++ [Leader.started] }

/-- `_halt_leader`, and whether it raised an error: without a leader, the variable that it returns
has no value. -/
def haltLeader (c : Coordinator) : Coordinator × Bool :=
  match c.leader with
  | some j => ({ c with leaders := c.leaders.modify j Leader.stop, leader := none }, false)
  | none => ({ c with raised := true }, true)

/-- `_assert_leadership`. -/
def assertLeadership (c : Coordinator) : Coordinator :=
  if c.iAmLeader then c
  else justGainedLeadership { c with iAmLeader := true, leaderId := some c.instanceId }

/-- `_assert_nonleadership`, and whether it raised an error. -/
def assertNonleadership (c : Coordinator) (leaderId : Text) : Coordinator × Bool :=
  if c.iAmLeader then haltLeader { c with iAmLeader := false, leaderId := some leaderId }
  else ({ c with leaderId := some leaderId }, false)

/-- The loop after it has read the leader key back. -/
def readBack (c : Coordinator) (result : Bool) (index : ℕ) : Option LeaderRecord → Coordinator
  | none => { c with loop := .delaying }
  | some record =>
    if result then
      if record.session = none then { c with loop := .delaying }
      else if record.session = c.sessionId then
        { c.assertLeadership with loop := .watching index record }
      else { c with loop := .watching index record }
    else
      let (c, raised) := c.assertNonleadership record.value
      { c with loop := if raised then .delaying else .watching index record }

/-- The loop after a change of the leader key, or of its index. -/
def keyChanged (c : Coordinator) (last : LeaderRecord) (index : ℕ) (updated : Option LeaderRecord) :
    Coordinator :=
  if updated = some last then { c with loop := .watching index last }
  else if c.iAmLeader then { (c.assertNonleadership c.instanceId).1 with loop := .delaying }
  else { c with loop := .delaying }

/-- The loop after an answer to its watch; nothing is a timeout. -/
def watched (c : Coordinator) : Option (ℕ × Option LeaderRecord) → Coordinator
  | none => c
  | some (index, updated) => match c.loop with
    | .watching _ last => c.keyChanged last index updated
    | _ => c

/-- The position of a task that gives up leadership. -/
def givingUp (l : Leader) : Option ℕ :=
  l.tasks.findIdx? fun t => match t with
    | .bailingOut _ => true
    | _ => false

/-- An event of a leader.  A leader that gives up calls the coordinator within the same step. -/
def leaderStep (rt : Runtime) (c : Coordinator) (j : ℕ) (e : Leader.Event) : Coordinator :=
  match c.leaders[j]? with
  | none => c
  | some l =>
    let l' := Leader.step rt l e
    let c := { c with leaders := c.leaders.set j l' }
    match givingUp l' with
    | none => c
    | some i =>
      let (c, raised) := c.haltLeader
      { c with leaders := c.leaders.modify j fun l =>
          Leader.step rt l (.answer i (.lostLeadership raised)) }

/-- What happens to a coordinator. -/
inductive Event where
  | delayOver
  | lockResult (result : Bool)
  | leaderKey (index : ℕ) (record : Option LeaderRecord)
  | watchResult (answer : Option (ℕ × Option LeaderRecord))
  | failure
  | newSession (sessionId : Text)
  | leaderAnswer (j i : ℕ) (a : Answer)
  | leaderTimer (j : ℕ)
  deriving DecidableEq

/-- A step of a coordinator.  Answers that the loop does not wait for are ignored. -/
def step (rt : Runtime) (c : Coordinator) : Event → Coordinator
  | .delayOver => if c.loop = .delaying then { c with loop := .acquiring } else c
  | .lockResult result =>
    if c.loop = .acquiring then { c with loop := .readingBack result } else c
  | .leaderKey index record => match c.loop with
    | .readingBack result => c.readBack result index record
    | _ => c
  | .watchResult answer => c.watched answer
  | .failure => { c with loop := .delaying }
  | .newSession sessionId => { c with sessionId := some sessionId }
  | .leaderAnswer j i a => leaderStep rt c j (.answer i a)
  | .leaderTimer j => leaderStep rt c j .soakTimer

/-! ## Agreement -/

/-- The coordinator has a leader that was started and not stopped. -/
def HasActiveLeader (c : Coordinator) : Prop :=
  ∃ j l, c.leader = some j ∧ c.leaders[j]? = some l ∧ l.halted = false

/-- The flag and the leader agree. -/
def Agrees (c : Coordinator) : Prop := c.iAmLeader = true ↔ c.HasActiveLeader

/-- What the steps keep as long as no leader gives up by itself. -/
structure Inv (c : Coordinator) : Prop where
  flag : c.iAmLeader = true ↔ c.leader.isSome = true
  active : ∀ j l, c.leaders[j]? = some l → (l.halted = false ↔ c.leader = some j)
  bound : ∀ j, c.leader = some j → j < c.leaders.length
  idle : ∀ l ∈ c.leaders, ∀ index, Task.bailingOut index ∉ l.tasks
  raised : c.raised = false

variable {rt : Runtime} {c : Coordinator}

section

variable (h : c.Inv)
include h

theorem Inv.agrees : c.Agrees := by
  rw [Agrees, h.flag, isSome_iff_exists]
  constructor
  · rintro ⟨j, hj⟩
    have hlt := h.bound j hj
    exact ⟨j, _, hj, getElem?_eq_getElem hlt,
      (h.active j _ (getElem?_eq_getElem hlt)).2 hj⟩
  · rintro ⟨j, l, hj, -⟩
    exact ⟨j, hj⟩

omit h in
theorem Inv.init (instanceId : Text) : (init instanceId).Inv where
  flag := iff_of_false Bool.false_ne_true Bool.false_ne_true
  active _ _ h := nomatch h
  bound _ h := nomatch h
  idle _ h := nomatch h
  raised := rfl

/-- The fields of the invariant are unchanged. -/
theorem Inv.of_eq {c' : Coordinator} (hflag : c'.iAmLeader = c.iAmLeader)
    (hleader : c'.leader = c.leader) (hleaders : c'.leaders = c.leaders)
    (hraised : c'.raised = c.raised) : c'.Inv where
  flag := by rw [hflag, hleader]; exact h.flag
  active := by rw [hleader, hleaders]; exact h.active
  bound := by rw [hleader, hleaders]; exact h.bound
  idle := by rw [hleaders]; exact h.idle
  raised := hraised.trans h.raised

theorem Inv.assertLeadership : c.assertLeadership.Inv := by
  rw [Coordinator.assertLeadership]
  split
  · exact h
  · next hflag =>
    have hnone : c.leader = none := by
      rwa [h.flag, not_isSome_iff_eq_none] at hflag
    refine ⟨iff_of_true rfl rfl, fun j l hl => ?_, fun j hj => ?_, fun l hl index => ?_, h.raised⟩
    · have hl' : (c.leaders ++ [Leader.started])[j]? = some l := hl
      rw [getElem?_append] at hl'
      split at hl'
      · next hlt =>
        have hhalted := h.active j l hl'
        rw [hnone] at hhalted
        have hne : c.leaders.length ≠ j := Nat.ne_of_gt hlt
        constructor
        · intro hl
          exact absurd (hhalted.1 hl) nofun
        · intro hj
          exact absurd (some_inj.1 hj) hne
      · next hge =>
        have hj : j - c.leaders.length = 0 := by
          by_contra hpos
          rw [getElem?_eq_none (by simp only [length_singleton]; omega)] at hl'
          cases hl'
        rw [hj] at hl'
        cases hl'
        exact iff_of_true rfl (congrArg some (show c.leaders.length = j by omega))
    · have hj' : c.leaders.length = j := some_inj.1 hj
      have hlen : (c.leaders ++ [Leader.started]).length = c.leaders.length + 1 :=
        length_append
      exact hj' ▸ hlen ▸ Nat.lt_succ_self _
    · rcases mem_append.1 hl with hl | hl
      · exact h.idle l hl index
      · rw [mem_singleton] at hl
        subst hl
        simp [Leader.started]

/-- Giving up leadership stops the leader, and raises no error. -/
theorem Inv.assertNonleadership (leaderId : Text) :
    (c.assertNonleadership leaderId).1.Inv ∧ (c.assertNonleadership leaderId).2 = false := by
  rw [Coordinator.assertNonleadership]
  split
  · next hflag =>
    obtain ⟨j, hj⟩ := isSome_iff_exists.1 (h.flag.1 hflag)
    rw [haltLeader, show ({ c with iAmLeader := false, leaderId := some leaderId } :
      Coordinator).leader = some j from hj]
    refine ⟨⟨iff_of_false Bool.false_ne_true Bool.false_ne_true, fun j' l hl => ?_, nofun,
      fun l hl index => ?_, h.raised⟩, rfl⟩
    · refine iff_of_false (fun hhalted => ?_) nofun
      have hl' : (c.leaders.modify j Leader.stop)[j']? = some l := hl
      rw [getElem?_modify] at hl'
      obtain ⟨l₀, hl₀, rfl⟩ := map_eq_some_iff.1 hl'
      split at hhalted
      · cases hhalted
      · next hne =>
        have hactive := (h.active j' l₀ hl₀).1 hhalted
        exact hne (some_inj.1 (hj.symm.trans hactive))
    · have hl' : l ∈ c.leaders.modify j Leader.stop := hl
      obtain ⟨j', hj'⟩ := getElem?_of_mem hl'
      rw [getElem?_modify] at hj'
      obtain ⟨l₀, hl₀, rfl⟩ := map_eq_some_iff.1 hj'
      have hidle := h.idle l₀ (mem_of_getElem? hl₀) index
      split
      · exact hidle
      · exact hidle
  · exact ⟨h.of_eq rfl rfl rfl rfl, rfl⟩

theorem Inv.readBack (result : Bool) (index : ℕ) (record : Option LeaderRecord) :
    (c.readBack result index record).Inv := by
  rcases record with _ | record
  · exact h.of_eq rfl rfl rfl rfl
  · rw [Coordinator.readBack]
    split
    · split
      · exact h.of_eq rfl rfl rfl rfl
      · split
        · exact h.assertLeadership.of_eq rfl rfl rfl rfl
        · exact h.of_eq rfl rfl rfl rfl
    · exact (h.assertNonleadership record.value).1.of_eq rfl rfl rfl rfl

theorem Inv.keyChanged (last : LeaderRecord) (index : ℕ) (updated : Option LeaderRecord) :
    (c.keyChanged last index updated).Inv := by
  rw [Coordinator.keyChanged]
  split
  · exact h.of_eq rfl rfl rfl rfl
  · split
    · exact (h.assertNonleadership c.instanceId).1.of_eq rfl rfl rfl rfl
    · exact h.of_eq rfl rfl rfl rfl

theorem Inv.watched (answer : Option (ℕ × Option LeaderRecord)) : (c.watched answer).Inv := by
  rcases answer with _ | ⟨index, updated⟩
  · exact h
  · rw [Coordinator.watched]
    split
    · exact h.keyChanged _ index updated
    · exact h

omit h in
theorem givingUp_eq_none_iff {l : Leader} :
    givingUp l = none ↔ ∀ index, Task.bailingOut index ∉ l.tasks := by
  rw [givingUp, findIdx?_eq_none_iff]
  constructor
  · intro h index hmem
    have := h _ hmem
    cases this
  · intro h t ht
    cases t with
    | bailingOut index => exact absurd ht (h index)
    | _ => rfl

/-- A step of a leader that does not give up. -/
theorem Inv.leaderStep {j : ℕ} {e : Leader.Event}
    (hadv : ∀ l, c.leaders[j]? = some l → Leader.Advances l (Leader.step rt l e)) :
    (leaderStep rt c j e).Inv := by
  rw [Coordinator.leaderStep]
  rcases hl : c.leaders[j]? with _ | l
  · exact h
  · have hadv := hadv l hl
    have hidle : ∀ index, Task.bailingOut index ∉ (Leader.step rt l e).tasks := by
      intro index hmem
      rcases hadv.tasks _ hmem with hmem | hne
      · exact h.idle l (mem_of_getElem? hl) index hmem
      · exact hne index rfl
    dsimp only
    rw [givingUp_eq_none_iff.2 hidle]
    refine ⟨h.flag, fun j' l' hl' => ?_, fun j' hj' => ?_, fun l' hl' index => ?_, h.raised⟩
    · rw [getElem?_set] at hl'
      split at hl'
      · next hj =>
        split at hl'
        · cases hl'
          rw [hadv.halted]
          exact hj ▸ h.active j l hl
        · cases hl'
      · exact h.active j' l' hl'
    · rw [length_set]
      exact h.bound j' hj'
    · rcases mem_or_eq_of_mem_set hl' with hl' | rfl
      · exact h.idle l' hl' index
      · exact hidle index

/-- An active leader gives up by itself. -/
def GivesUp (c : Coordinator) : Event → Prop
  | .leaderAnswer j i a => ∃ l, c.leaders[j]? = some l ∧ l.GivesUpOn i a
  | _ => False

/-- **The steps in which no leader gives up by itself keep the invariant.** -/
theorem Inv.step {e : Event} (he : ¬ c.GivesUp e) : (step rt c e).Inv := by
  rcases e with _ | result | ⟨index, record⟩ | answer | _ | sessionId | ⟨j, i, a⟩ | j
  · rw [Coordinator.step]
    split
    · exact h.of_eq rfl rfl rfl rfl
    · exact h
  · rw [Coordinator.step]
    split
    · exact h.of_eq rfl rfl rfl rfl
    · exact h
  · rw [Coordinator.step]
    split
    · exact h.readBack _ index record
    · exact h
  · exact h.watched answer
  · exact h.of_eq rfl rfl rfl rfl
  · exact h.of_eq rfl rfl rfl rfl
  · exact h.leaderStep fun l hl => Leader.advances_answer fun hgives => he ⟨l, hl, hgives⟩
  · exact h.leaderStep fun l hl => Leader.advances_soakTimer

/-- When a leader gives up by itself, the flag stays set. -/
theorem not_agrees_of_givesUp {e : Event} (he : c.GivesUp e) : ¬ (step rt c e).Agrees := by
  rcases e with _ | _ | _ | _ | _ | _ | ⟨j, i, a⟩ | _
  all_goals try exact absurd he id
  obtain ⟨l, hl, hgives⟩ := he
  have hhalted : l.halted = false := by
    obtain ⟨t, -, hhalted, -⟩ := hgives
    exact hhalted
  have hleader : c.leader = some j := (h.active j l hl).1 hhalted
  have hflag : c.iAmLeader = true := h.flag.2 (by rw [hleader]; rfl)
  obtain ⟨index, hstep⟩ := Leader.step_of_givesUpOn rt hgives
  obtain ⟨i', hi'⟩ : ∃ i', givingUp (Leader.step rt l (.answer i a)) = some i' := by
    rw [← isSome_iff_exists, ← ne_none_iff_isSome, hstep]
    intro hnone
    exact givingUp_eq_none_iff.1 hnone index (mem_append_right _ mem_cons_self)
  have hnone : (Coordinator.step rt c (.leaderAnswer j i a)).leader = none ∧
      (Coordinator.step rt c (.leaderAnswer j i a)).iAmLeader = c.iAmLeader := by
    rw [Coordinator.step, Coordinator.leaderStep, hl]
    dsimp only
    rw [hi', haltLeader]
    rw [hleader]
    exact ⟨rfl, rfl⟩
  intro hagrees
  obtain ⟨j', -, hj', -⟩ := hagrees.1 (hnone.2.trans hflag)
  rw [hnone.1] at hj'
  cases hj'

end

/-- **The flag and the leader agree after every step of a run, and giving up leadership never
raises an error, exactly if no leader gives up by itself.** -/
theorem agrees_iff (rt : Runtime) (instanceId : Text) (events : List Event) :
    AllAlong (step rt) (fun c e => ¬ c.GivesUp e) (init instanceId) events ↔
      ∀ events', events' <+: events →
        (events'.foldl (step rt) (init instanceId)).Agrees ∧
          (events'.foldl (step rt) (init instanceId)).raised = false :=
  allAlong_iff (I := Inv) (J := fun c => c.Agrees ∧ c.raised = false)
    (fun _ h => ⟨h.agrees, h.raised⟩) (fun _ _ h he => h.step he)
    (fun _ _ h he hJ => not_agrees_of_givesUp h (not_not.1 he) hJ.1) (Inv.init instanceId)

/-- A coordinator has become the leader, and its leader receives an empty list of members. -/
def emptyAnswer : List Event :=
  [.newSession "s".toList, .delayOver, .lockResult true,
    .leaderKey 3 (some ⟨some "s".toList, "v1".toList, 3⟩),
    .leaderAnswer 0 0 .elapsed, .leaderAnswer 0 0 (.members 5 [])]

/-- The flag is set and there is no leader.  When the leader key goes, giving up leadership raises
an error. -/
theorem leaderless_flag :
    let c := emptyAnswer.foldl (step Leader.plainRuntime) (init "v1".toList)
    c.iAmLeader = true ∧ c.leader = none ∧
      (step Leader.plainRuntime c (.watchResult (some (9, none)))).raised = true := by
  decide +kernel

end Coordinator

end Voltha.Cluster
