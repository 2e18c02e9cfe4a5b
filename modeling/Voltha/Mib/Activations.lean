import Voltha.Mib.MibSynchronizer

/-!
# What a stop leaves behind

A stop should end an activation of the MIB synchronizer: no trigger stays scheduled, and no task is
left whose callbacks could schedule one, so that whatever the next activation does goes back to that
activation.

Entering `disabled` cancels the call in `_deferred` and then stops the current task.  Two things can
be left.  Stopping a task cancels its deferred, which runs the callback of the state for failures,
and that asks for a `timeout` again, after the calls were cancelled.  And of several calls, which
there are once a trigger has been pulled by hand, only the last one is in `_deferred`.

`quiet_stop_iff` says when nothing is left.  If all stops of a run are like that, everything the
machine waits for belongs to the present activation (`Current`), and no transition goes back to an
earlier one (`staysStopped_iff`).
-/

namespace Voltha.Mib
namespace MibSynchronizer

open List

variable {D : Delays} {s s' : MibSynchronizer}

/-- No trigger is scheduled, and there is no task whose callbacks could schedule one. -/
def Quiet (s : MibSynchronizer) : Prop := s.calls = [] ∧ s.tasks = []

/-- No task is queued or runs, and no call is scheduled but the one in `_deferred`. -/
def AtRest (s : MibSynchronizer) : Prop := s.tasks = [] ∧ ∀ c ∈ s.calls, some c.id = s.deferred

instance (s : MibSynchronizer) : Decidable s.Quiet :=
  inferInstanceAs (Decidable (_ ∧ _))

instance (s : MibSynchronizer) : Decidable s.AtRest :=
  inferInstanceAs (Decidable (_ ∧ _))

/-! ## The stop -/

theorem cancelDeferred_calls_eq_nil :
    s.cancelDeferred.calls = [] ↔ ∀ c ∈ s.calls, some c.id = s.deferred := by
  unfold cancelDeferred
  rw [filter_eq_nil_iff]
  simp only [ne_eq, decide_not, Bool.not_eq_true', decide_eq_false_iff_not, not_not]

variable {task : QueuedTask}

/-- Stopping a task that waits or runs leaves the call of its callback. -/
theorem not_quiet_stopTask {id : ℕ} (htask : s.taskOf id = some task) :
    ¬ (s.stopTask D id).Quiet := by
  unfold stopTask
  unfold taskOf at htask
  rw [htask]
  obtain ⟨c, hadds, -⟩ := onFailure_adds D (s.endTask task) task
  rintro ⟨hcalls, -⟩
  rw [hadds.calls] at hcalls
  exact absurd hcalls (append_ne_nil_of_right_ne_nil _ (cons_ne_nil c []))

theorem stopTask_of_none {id : ℕ} (htask : s.taskOf id = none) : s.stopTask D id = s := by
  unfold stopTask
  unfold taskOf at htask
  rw [htask]

/-- **A stop leaves nothing behind exactly when the machine was at rest.** -/
theorem quiet_onEnterDisabled_iff : (s.onEnterDisabled D).Quiet ↔ s.AtRest := by
  unfold onEnterDisabled AtRest
  rw [← cancelDeferred_calls_eq_nil]
  rcases hcurrent : s.currentTask with _ | id
  · have hcurrent' : s.cancelDeferred.currentTask = none := hcurrent
    dsimp only
    rw [hcurrent']
    exact and_comm
  · have hcurrent' : s.cancelDeferred.currentTask = some id := hcurrent
    dsimp only
    rw [hcurrent']
    dsimp only
    -- the machine as the task is stopped
    set s₁ : MibSynchronizer :=
      { s.cancelDeferred with mibDbInSync := false, currentTask := none } with hs₁
    rcases htask : s₁.taskOf id with _ | task
    · rw [stopTask_of_none htask]
      exact and_comm
    · refine ⟨fun hquiet => absurd hquiet (not_quiet_stopTask htask), fun hrest => ?_⟩
      have hmem : task ∈ s.tasks := mem_of_find?_eq_some htask
      rw [hrest.1] at hmem
      cases hmem

theorem pull_stop (s : MibSynchronizer) (now : ℕ) :
    s.pull D .stop now = (s.enter .stop .disabled).onEnterDisabled D := by
  have hdest : dest .stop s.state = some .disabled := by cases s.state <;> rfl
  unfold pull
  rw [hdest]
  rfl

theorem quiet_stop_iff (now : ℕ) : (s.pull D .stop now).Quiet ↔ s.AtRest := by
  rw [pull_stop, quiet_onEnterDisabled_iff]
  exact Iff.rfl

/-! ## What belongs to the present activation -/

/-- Whatever the machine waits for belongs to the present activation. -/
structure Current (s : MibSynchronizer) : Prop where
  calls : ∀ c ∈ s.calls, c.activation = s.activation ∧ c.trigger ≠ .stop
  tasks : ∀ task ∈ s.tasks, task.activation = s.activation

theorem Current.of_quiet (h : s.Quiet) : Current s where
  calls c hc := by
    rw [h.1] at hc
    cases hc
  tasks task htask := by
    rw [h.2] at htask
    cases htask

/-- Fewer calls and tasks. -/
theorem Current.sub (h : Current s) (hact : s'.activation = s.activation)
    (hcalls : s'.calls ⊆ s.calls) (htasks : s'.tasks ⊆ s.tasks) : Current s' where
  calls c hc := by
    rw [hact]
    exact h.calls c (hcalls hc)
  tasks task htask := by
    rw [hact]
    exact h.tasks task (htasks htask)

variable {t : Trigger}

section

variable (h : Current s)
include h

theorem Current.callLater (ht : t ≠ .stop) (delay : ℕ) :
    Current (s.callLater delay t s.activation) where
  calls c hc := by
    rcases mem_append.mp hc with hc | hc
    · exact h.calls c hc
    · rw [mem_singleton.mp hc]
      exact ⟨rfl, ht⟩
  tasks := h.tasks

theorem Current.queueTask (cls : TaskClass) : Current (s.queueTask cls) where
  calls := h.calls
  tasks task htask := by
    rcases mem_append.mp htask with htask | htask
    · exact h.tasks task htask
    · rw [mem_singleton.mp htask]
      rfl

/-- A task ends; what its callback asks for belongs to the same activation. -/
theorem Current.ended (hmem : task ∈ s.tasks) {new : List Call}
    (hadds : Adds (s.endTask task) s' new) (hnew : ∀ c ∈ new, FollowsUp task c) :
    Current s' where
  calls c hc := by
    rw [hadds.calls] at hc
    rw [hadds.activation]
    rcases mem_append.mp hc with hc | hc
    · exact h.calls c hc
    · exact ⟨(hnew c hc).activation.trans (h.tasks task hmem), (hnew c hc).ne_stop⟩
  tasks task' htask' := by
    rw [hadds.tasks] at htask'
    rw [hadds.activation]
    exact h.tasks task' (mem_of_mem_erase htask')

theorem Current.onEnterStarting : Current s.onEnterStarting := by
  have hadds := seedDatabase_adds s
  have hcalls : s.seedDatabase.calls ⊆ s.calls := by
    rw [hadds.calls, append_nil]
    exact List.Subset.refl _
  have htasks : s.seedDatabase.tasks ⊆ s.tasks := by
    rw [hadds.tasks]
    exact List.Subset.refl _
  have hseed : Current { s.seedDatabase with subscribed := true } :=
    h.sub hadds.activation hcalls htasks
  unfold MibSynchronizer.onEnterStarting
  dsimp only
  split
  · exact hseed.callLater (t := .uploadMib) (nomatch ·) 0
  · exact hseed.callLater (t := .examineMds) (nomatch ·) 0

/-- Entering a state other than `disabled` sets up calls and tasks of the present activation. -/
theorem Current.onEnter (hne : s.state ≠ .disabled) (now : ℕ) : Current (s.onEnter D now) := by
  unfold MibSynchronizer.onEnter
  split
  · contradiction
  · exact h.onEnterStarting
  · exact Current.queueTask (s := { s with mibDbInSync := false }) ⟨h.calls, h.tasks⟩ .mibUpload
  · exact Current.queueTask (s := { s with
      mibDataSync := (s.database.map DeviceRecord.mibDataSync).getD 0
      mibDbInSync := false }) ⟨h.calls, h.tasks⟩ .getMds
  · unfold onEnterInSync
    have hsaved : Current { s.saveLastSync now with mibDbInSync := true } := ⟨h.calls, h.tasks⟩
    split
    · exact hsaved.callLater (t := .auditMib) (nomatch ·) D.auditDelay
    · exact hsaved
  · exact Current.callLater (s := { s with mibDbInSync := false }) (t := .auditMib)
      ⟨h.calls, h.tasks⟩ (nomatch ·) 1
  · unfold onEnterAuditing
    split
    · exact h.callLater (t := .forceResync) (nomatch ·) 0
    · exact h.queueTask .mibAudit
  · exact h.queueTask .mibResync

end

/-! ## Steps -/

/-- The invariant of runs without stops that leave something behind. -/
structure ActivationInv (s : MibSynchronizer) : Prop where
  current : Current s
  quiet : s.state = .disabled → s.Quiet

/-- The stops come when the machine is at rest. -/
def StopsAtRest (s : MibSynchronizer) : Event → Prop
  | .pull .stop _ => s.AtRest
  | _ => True

instance (s : MibSynchronizer) (e : Event) : Decidable (s.StopsAtRest e) := by
  unfold StopsAtRest
  split <;> infer_instance

/-- After a stop the machine is disabled with nothing scheduled and no task to schedule anything,
and a call that causes a transition goes back to the present activation. -/
def StaysStopped (D : Delays) (s : MibSynchronizer) : Event → Prop
  | .pull .stop now =>
    (s.step D (.pull .stop now)).state = .disabled ∧ (s.step D (.pull .stop now)).Quiet
  | .fire id _ => ∀ c, s.callOf id = some c → (dest c.trigger s.state).isSome →
      c.activation = s.activation
  | _ => True

theorem dest_start {st d : State} (h : dest .start st = some d) :
    st = .disabled ∧ d = .starting := by
  cases st <;> cases h
  exact ⟨rfl, rfl⟩

theorem dest_ne_disabled {st d : State} (h : dest t st = some d) (ht : t ≠ .stop) :
    d ≠ .disabled := by
  rintro rfl
  cases t
  case stop => exact absurd rfl ht
  all_goals cases st <;> cases h

section

variable (h : ActivationInv s)
include h

/-- A trigger other than a stop. -/
theorem ActivationInv.pull (ht : t ≠ .stop) (now : ℕ) : ActivationInv (s.pull D t now) := by
  unfold MibSynchronizer.pull
  split
  · exact h
  · rename_i d hd
    have hne : d ≠ .disabled := dest_ne_disabled hd ht
    have hcurrent : Current (s.enter t d) := by
      by_cases hstart : t = .start
      · rw [hstart] at hd
        exact .of_quiet (h.quiet (dest_start hd).1)
      · refine h.current.sub ?_ (List.Subset.refl _) (List.Subset.refl _)
        unfold enter
        exact if_neg hstart
    refine ⟨hcurrent.onEnter hne now, fun hdisabled => ?_⟩
    rw [onEnter_state] at hdisabled
    exact absurd hdisabled hne

theorem ActivationInv.fire (id now : ℕ) : ActivationInv (s.fire D id now) := by
  unfold MibSynchronizer.fire
  split
  · exact h
  · rename_i c hc
    have hmem : c ∈ s.calls := mem_of_find?_eq_some hc
    refine ActivationInv.pull ⟨?_, fun hdisabled => ?_⟩ (h.current.calls c hmem).2 now
    · exact h.current.sub rfl (erase_subset ..) (List.Subset.refl _)
    · have hquiet := h.quiet hdisabled
      rw [hquiet.1] at hmem
      cases hmem

/-- A task ends, which the machine does not see while it is disabled. -/
theorem ActivationInv.ended (hmem : task ∈ s.tasks) {new : List Call}
    (hadds : Adds (s.endTask task) s' new) (hnew : ∀ c ∈ new, FollowsUp task c) :
    ActivationInv s' := by
  refine ⟨h.current.ended hmem hadds hnew, fun hdisabled => ?_⟩
  rw [hadds.state] at hdisabled
  have hquiet := h.quiet hdisabled
  rw [hquiet.2] at hmem
  cases hmem

theorem ActivationInv.turn {e : Event} (hturn : Turn s s' e) : ActivationInv s' := by
  cases hturn with
  | kept running hadds =>
    have hcalls : s'.calls = s.calls := hadds.calls.trans (append_nil _)
    refine ⟨⟨?_, ?_⟩, fun hdisabled => ?_⟩
    · rw [hcalls, hadds.activation]
      exact h.current.calls
    · rw [hadds.tasks, hadds.activation]
      exact forall_mem_map.mpr h.current.tasks
    · obtain ⟨hc, ht⟩ := h.quiet (hadds.state ▸ hdisabled)
      exact ⟨hcalls.trans hc, by rw [hadds.tasks, ht]; rfl⟩
  | ended hmem hadds hfollows =>
    exact h.ended hmem hadds fun c hc => mem_singleton.mp hc ▸ hfollows
  | raised htask _ _ _ hadds => exact h.ended (mem_of_find?_eq_some htask) hadds nofun

theorem ActivationInv.step {e : Event} (hrest : s.StopsAtRest e) : ActivationInv (s.step D e) := by
  cases e with
  | pull t now =>
    by_cases ht : t = .stop
    · subst ht
      have hquiet : (s.pull D .stop now).Quiet := (quiet_stop_iff now).mpr hrest
      exact ⟨.of_quiet hquiet, fun _ => hquiet⟩
    · exact h.pull ht now
  | fire id now => exact h.fire id now
  | _ => exact h.turn (step_turn D nofun nofun)

theorem staysStopped_step_iff (e : Event) : StaysStopped D s e ↔ s.StopsAtRest e := by
  cases e with
  | pull t now =>
    cases t with
    | stop =>
      have hstate : (s.pull D .stop now).state = .disabled := by
        rw [pull_stop, onEnterDisabled_state]
        rfl
      exact ⟨fun hstop => (quiet_stop_iff now).mp hstop.2,
        fun hrest => ⟨hstate, (quiet_stop_iff now).mpr hrest⟩⟩
    | _ => exact Iff.rfl
  | fire id now =>
    exact ⟨fun _ => trivial, fun _ c hc _ => (h.current.calls c (mem_of_find?_eq_some hc)).1⟩
  | _ => exact Iff.rfl

end

/-- **A stopped synchronizer stays stopped, and no transition goes back to an earlier activation,
exactly in the runs in which every stop comes when no task is queued or runs and no call is
scheduled but the last one made.** -/
theorem staysStopped_iff (D : Delays) (database : Option DeviceRecord) (events : List Event) :
    AllAlong (step D) (StaysStopped D) (init database) events ↔
      AllAlong (step D) StopsAtRest (init database) events := by
  have hinit : ActivationInv (init database) := ⟨.of_quiet ⟨rfl, rfl⟩, fun _ => ⟨rfl, rfl⟩⟩
  exact allAlong_congr (fun s e h hstays => h.step ((staysStopped_step_iff h e).mp hstays))
    (fun s e h => staysStopped_step_iff h e) hinit

/-- A stop during the upload, and a second start. -/
def restartEvents : List Event :=
  [.pull .start 0, .fire 0 0, .pull .stop 1, .pull .start 2, .fire 2 2]

/-- The stop leaves a timeout behind, and after the second start that timeout ends the upload which
belongs to the second activation. -/
theorem stop_leaves_timeout :
    ¬ AllAlong (step ⟨5, 15, 300⟩) (StaysStopped ⟨5, 15, 300⟩) (init none) restartEvents ∧
    let stopped := (restartEvents.take 3).foldl (step ⟨5, 15, 300⟩) (init none)
    let restarted := restartEvents.foldl (step ⟨5, 15, 300⟩) (init none)
    stopped.state = .disabled ∧ stopped.calls = [⟨1, 5, .timeout, 1⟩] ∧
      restarted.state = .uploading ∧ restarted.activation = 2 ∧
      restarted.callOf 1 = some ⟨1, 5, .timeout, 1⟩ ∧
      (restarted.step ⟨5, 15, 300⟩ (.fire 1 6)).state = .starting := by
  refine ⟨?_, by decide⟩
  rintro ⟨-, -, ⟨-, hquiet⟩, -⟩
  exact absurd hquiet (by decide)

end MibSynchronizer
end Voltha.Mib
