import Voltha.Mib.MibSynchronizer

/-!
# When the MIB synchronizer goes on

A machine that is not disabled should wait for something: for a task that the current state has
made, or for a delayed call that the current state knows what to do with.

Entering a state sets up one of the two, whatever was there before (`progresses_onEnter`), and
neither can be lost while the state lasts: only a stop cancels calls and tasks, and a task that ends
leaves a call behind.  There is one exception.  The callback of the resynchronization takes the
lengths of the differences, but the task reports `None` where it has found none; the callback then
raises, and no trigger is asked for.  `progresses_iff` says that this is all that can go wrong.
-/

namespace Voltha.Mib
namespace MibSynchronizer

open List

/-- A task that the entry of the current state has made waits or runs. -/
def Waits (s : MibSynchronizer) : Prop :=
  ∃ task ∈ s.tasks, task.cls.state = s.state ∧ task.visit = s.visits

/-- A delayed call is due, sooner or later, that pulls a trigger which the current state knows. -/
def Due (s : MibSynchronizer) : Prop := ∃ c ∈ s.calls, (dest c.trigger s.state).isSome

/-- The machine is disabled or waits for something. -/
def Progresses (s : MibSynchronizer) : Prop := s.state = .disabled ∨ s.Waits ∨ s.Due

instance (s : MibSynchronizer) : Decidable s.Progresses := by
  unfold Progresses Waits Due
  infer_instance

variable {D : Delays} {s s' : MibSynchronizer}

/-! ## Entering a state -/

theorem progresses_callLater {t : Trigger} (h : (dest t s.state).isSome) (delay activation : ℕ) :
    (s.callLater delay t activation).Progresses :=
  .inr (.inr ⟨_, mem_append_right _ (mem_singleton_self _), h⟩)

theorem progresses_queueTask {cls : TaskClass} (h : cls.state = s.state) :
    (s.queueTask cls).Progresses :=
  .inr (.inl ⟨_, mem_append_right _ (mem_singleton_self _), h, rfl⟩)

/-- **Entering a state sets up what the machine waits for there.** -/
theorem progresses_onEnter (haudit : 0 < D.auditDelay) (s : MibSynchronizer) (now : ℕ) :
    (s.onEnter D now).Progresses := by
  unfold onEnter
  split <;> rename_i hstate
  · exact .inl ((onEnterDisabled_state D s).trans hstate)
  · have hseed : s.seedDatabase.state = .starting := (seedDatabase_adds s).state.trans hstate
    unfold onEnterStarting
    dsimp only
    split
    · exact progresses_callLater (by dsimp only; rw [hseed]; rfl) _ _
    · exact progresses_callLater (by dsimp only; rw [hseed]; rfl) _ _
  · exact progresses_queueTask hstate.symm
  · exact progresses_queueTask hstate.symm
  · unfold onEnterInSync
    rw [if_pos haudit]
    exact progresses_callLater (by rw [saveLastSync]; dsimp only; rw [hstate]; rfl) _ _
  · exact progresses_callLater (by dsimp only; rw [hstate]; rfl) _ _
  · unfold onEnterAuditing
    split
    · exact progresses_callLater (by rw [hstate]; rfl) _ _
    · exact progresses_queueTask hstate.symm
  · exact progresses_queueTask hstate.symm

/-! ## What the machine waits for stays -/

section

variable (h : s.Progresses)
include h

/-- A task ends, and its callback leaves a call behind. -/
theorem Progresses.ended {task : QueuedTask} {c : Call} (hadds : Adds (s.endTask task) s' [c])
    (hfollows : FollowsUp task c) : s'.Progresses := by
  have hstate : s'.state = s.state := hadds.state
  have hvisits : s'.visits = s.visits := hadds.visits
  have hcalls : s'.calls = s.calls ++ [c] := hadds.calls
  have htasks : s'.tasks = s.tasks.erase task := hadds.tasks
  rcases h with h | ⟨task', hmem, hcls, hvisit⟩ | ⟨c', hmem, hdest'⟩
  · exact .inl (hstate.trans h)
  · by_cases heq : task' = task
    · -- the call of the callback takes the place of the task
      refine .inr (.inr ⟨c, ?_, ?_⟩)
      · rw [hcalls]
        exact mem_append_right _ (mem_singleton_self c)
      · rw [hstate, ← hcls, heq]
        exact hfollows.known
    · refine .inr (.inl ⟨task', ?_, ?_, ?_⟩)
      · rw [htasks]
        exact (List.mem_erase_of_ne heq).mpr hmem
      · rw [hstate]
        exact hcls
      · rw [hvisits]
        exact hvisit
  · refine .inr (.inr ⟨c', ?_, ?_⟩)
    · rw [hcalls]
      exact mem_append_left _ hmem
    · rw [hstate]
      exact hdest'

omit h in
theorem Progresses.pull (haudit : 0 < D.auditDelay) (h : s.Progresses) (t : Trigger) (now : ℕ) :
    (s.pull D t now).Progresses := by
  unfold MibSynchronizer.pull
  split
  · exact h
  · exact progresses_onEnter haudit _ now

omit h in
theorem Progresses.fire (haudit : 0 < D.auditDelay) (h : s.Progresses) (id now : ℕ) :
    (s.fire D id now).Progresses := by
  unfold MibSynchronizer.fire
  split
  · exact h
  · rename_i c hc
    unfold MibSynchronizer.pull
    split
    · -- the state does not know the trigger, so the call was not the one that the machine waits for
      rename_i hnone
      rcases h with h | h | ⟨c', hmem, hdest⟩
      · exact .inl h
      · exact .inr (.inl h)
      · refine .inr (.inr ⟨c', (List.mem_erase_of_ne ?_).mpr hmem, hdest⟩)
        rintro rfl
        rw [hnone] at hdest
        cases hdest
    · exact progresses_onEnter haudit _ now

end

variable {id : ℕ}

/-! ## Runs -/

/-- A resynchronization task with the given id runs. -/
def resyncs (s : MibSynchronizer) (id : ℕ) : Bool :=
  match s.taskOf id with
  | some task => task.running && task.cls = .mibResync
  | none => false

theorem resyncs_iff :
    s.resyncs id = true ↔
      ∃ task, s.taskOf id = some task ∧ task.running = true ∧ task.cls = .mibResync := by
  unfold resyncs
  rcases s.taskOf id with _ | task
  · simp
  · simp

/-- When a resynchronization task reports, it has found differences of all three kinds. -/
def ReportsAllKinds (s : MibSynchronizer) : Event → Prop
  | .succeed id (.differences onOltOnly onOnuOnly attrDiffs) =>
    s.resyncs id = true → onOltOnly ≠ [] ∧ onOnuOnly ≠ [] ∧ attrDiffs ≠ []
  | _ => True

instance (s : MibSynchronizer) (e : Event) : Decidable (s.ReportsAllKinds e) := by
  unfold ReportsAllKinds
  split <;> infer_instance

/-- When a resynchronization task reports, one trigger is asked for, and it is one of the two that
say how the resynchronization has ended. -/
def SchedulesEnd (D : Delays) (s : MibSynchronizer) : Event → Prop
  | .succeed id (.differences onOltOnly onOnuOnly attrDiffs) =>
    s.resyncs id = true → ∃ c,
      (s.step D (.succeed id (.differences onOltOnly onOnuOnly attrDiffs))).calls = s.calls ++ [c] ∧
      (c.trigger = .success ∨ c.trigger = .diffsFound)
  | _ => True

/-- What a running resynchronization task does with its report. -/
theorem succeed_of_resyncs {task : QueuedTask} (htask : s.taskOf id = some task)
    (hrunning : task.running = true) (hcls : task.cls = .mibResync) (l l' : List Instance)
    (l'' : List InstanceAttribute) :
    s.succeed id (.differences l l' l'') =
      (resyncSuccess task.activation (performMibResync l l' l'') (s.endTask task)).2 := by
  unfold succeed
  rw [htask]
  dsimp only
  rw [if_pos hrunning]
  unfold onSuccess
  rw [hcls]
  rfl

/-- **The report of a resynchronization leads to a trigger exactly when differences of all three
kinds were found.** -/
theorem schedulesEnd_iff (e : Event) : SchedulesEnd D s e ↔ s.ReportsAllKinds e := by
  cases e with
  | succeed id value =>
    cases value with
    | differences l l' l'' =>
      refine forall_congr' fun hresyncs => ?_
      obtain ⟨task, htask, hrunning, hcls⟩ := resyncs_iff.mp hresyncs
      rw [step, succeed_of_resyncs htask hrunning hcls]
      constructor
      · rintro ⟨c, hcalls, -⟩
        by_contra hall
        have hsome : l = [] ∨ l' = [] ∨ l'' = [] := by
          by_contra hne
          push Not at hne
          exact hall hne
        have hnone := (resyncSuccess_raises (s.endTask task) task.activation hsome).2.calls
        rw [hcalls] at hnone
        exact absurd (append_cancel_left hnone) (cons_ne_nil c [])
      · rintro ⟨hl, hl', hl''⟩
        obtain ⟨c, hadds, htrigger, -⟩ :=
          resyncSuccess_adds (s.endTask task) task.activation hl hl' hl''
        exact ⟨c, hadds.calls, .inr htrigger⟩
    | _ => exact Iff.rfl
  | _ => exact Iff.rfl

/-- The report of a resynchronization that has found differences of all three kinds does not end in
an exception. -/
theorem Progresses.turn (h : s.Progresses) {e : Event} (hturn : Turn s s' e)
    (hreports : s.ReportsAllKinds e) : s'.Progresses := by
  cases hturn with
  | kept running hadds =>
    have hcalls : s'.calls = s.calls := hadds.calls.trans (append_nil _)
    unfold Progresses Waits Due
    rw [hcalls, hadds.state, hadds.visits, hadds.tasks]
    refine h.imp_right (Or.imp_left ?_)
    rintro ⟨task, hmem, hwaits⟩
    exact ⟨_, mem_map_of_mem hmem, hwaits⟩
  | ended _ hadds hfollows => exact h.ended hadds hfollows
  | raised htask hrunning hcls hnot _ =>
    exact absurd (hreports (resyncs_iff.mpr ⟨_, htask, hrunning, hcls⟩)) hnot

theorem Progresses.step (haudit : 0 < D.auditDelay) (h : s.Progresses) {e : Event}
    (hreports : s.ReportsAllKinds e) : (s.step D e).Progresses := by
  cases e with
  | pull t now => exact h.pull haudit t now
  | fire id now => exact h.fire haudit id now
  | _ => exact h.turn (step_turn D nofun nofun) hreports

/-- **The synchronizer never stalls, and every report of a resynchronization leads to a trigger,
exactly in the runs in which each resynchronization finds differences of all three kinds.** -/
theorem progresses_iff (haudit : 0 < D.auditDelay) (database : Option DeviceRecord)
    (events : List Event) :
    AllAlong (step D) (fun s e => (s.step D e).Progresses ∧ SchedulesEnd D s e) (init database)
        events ↔
      AllAlong (step D) ReportsAllKinds (init database) events := by
  refine allAlong_congr (I := Progresses) (fun s e _ h => h.1) (fun s e h => ?_) (.inl rfl)
  rw [schedulesEnd_iff]
  exact ⟨fun hboth => hboth.2, fun hreports => ⟨h.step haudit hreports, hreports⟩⟩

/-- The delays that `__init__` has as defaults. -/
def defaultDelays : Delays := ⟨5, 15, 300⟩

/-- An ONU is uploaded, audited, found to differ in its MIB data sync, and resynchronized. -/
def resyncEvents (report : Value) : List Event :=
  [.pull .start 0, .fire 0 0, .begin 0, .succeed 0 .text, .fire 1 1, .fire 2 16, .begin 1,
    .succeed 1 (.mds 7), .fire 3 17, .begin 2, .succeed 2 report]

/-- A resynchronization that finds differences of all three kinds. -/
theorem progresses_sample :
    AllAlong (step defaultDelays)
      (fun s e => (s.step defaultDelays e).Progresses ∧ SchedulesEnd defaultDelays s e) (init none)
      (resyncEvents (.differences [(2, 0)] [(11, 1)] [(6, 257, "vendor_id")])) :=
  (progresses_iff (by decide) none _).mpr (by decide)

/-- A resynchronization that finds one instance which only the ONU has: the synchronizer stays in
its state, without a task and without a call. -/
theorem resync_stalls :
    let s := (resyncEvents (.differences [] [(11, 1)] [])).foldl (step defaultDelays) (init none)
    s.state = .resynchronizing ∧ s.tasks = [] ∧ s.calls = [] ∧ ¬ s.Progresses := by
  decide

end MibSynchronizer
end Voltha.Mib
