import Voltha.Omci.TaskRunner

/-!
# Stopping the task runner

`stop` stops the tasks that run, so that their deferreds fire.  Its second loop is to cancel the
tasks that wait, but goes over the priorities and swallows the exceptions of `d.cancel()`, so that
the deferreds of these tasks never fire.  A runner that is not active does nothing at all.

`stop_completes_iff`: the states that `stop` clears up.
-/

namespace Voltha.Omci.TaskRunner

open List Function

variable {T : Tasks} {task : ℕ} {outcome : Outcome}

/-- The deferreds, and whether the runner is active. -/
def frame (r : TaskRunner) : (ℕ → Option Outcome) × (ℕ → Bool) × Bool :=
  (r.outcome, r.stopped, r.active)

theorem frame_onOutcome (r : TaskRunner) : (onOutcome T task outcome r).frame = r.frame := by
  cases outcome with
  | success =>
    rw [onOutcome, onTaskSuccess]
    split <;> rfl
  | failure =>
    rw [onOutcome, onTaskFailure]
    split
    · rfl
    · split
      · split <;> rfl
      · rfl

/-- A deferred fires once. -/
theorem frame_fireDeferred (r : TaskRunner) : (r.fireDeferred T task outcome).frame =
    (update r.outcome task (some ((r.outcome task).getD outcome)), r.stopped, r.active) := by
  rw [fireDeferred]
  split
  · next hnone =>
    have hiter : ∀ n r, ((onOutcome T task outcome)^[n] r).frame = r.frame := by
      intro n
      induction n with
      | zero => exact fun _ => rfl
      | succ n ih => exact fun r => (ih _).trans (frame_onOutcome r)
    rw [hiter, hnone]
    rfl
  · next hne =>
    obtain ⟨o, ho⟩ := Option.ne_none_iff_exists'.mp hne
    rw [ho, Option.getD_some, ← ho, update_eq_self]
    rfl

/-- A task that was not stopped has fired after it is stopped. -/
theorem stopTask_fired (r : TaskRunner) (task task' : ℕ) :
    ((r.stopTask T task).outcome task' ≠ none ↔
        r.outcome task' ≠ none ∨ task' = task ∧ r.stopped task' = false) ∧
      ((r.stopTask T task).stopped task' = false ↔ task' ≠ task ∧ r.stopped task' = false) ∧
      (r.stopTask T task).active = r.active := by
  rw [stopTask]
  split
  · next hs =>
    have hne : ¬ (task' = task ∧ r.stopped task' = false) := by
      rintro ⟨rfl, hs'⟩
      cases hs.symm.trans hs'
    refine ⟨by rw [or_iff_left hne], ⟨fun h => ⟨fun heq => hne ⟨heq, h⟩, h⟩, And.right⟩, rfl⟩
  · next hs =>
    have hf : (fireDeferred T { r with stopped := update r.stopped task true } task
      .failure).frame = _ := frame_fireDeferred _
    simp only [frame, Prod.mk.injEq] at hf
    rw [hf.1, hf.2.1, hf.2.2]
    by_cases heq : task' = task
    · subst heq
      simp [hs]
    · simp [heq]

theorem stopTasks_fired (task' : ℕ) : ∀ (tasks : List ℕ) (r : TaskRunner),
    ((tasks.foldl (stopTask T) r).outcome task' ≠ none ↔
        r.outcome task' ≠ none ∨ task' ∈ tasks ∧ r.stopped task' = false) ∧
      (tasks.foldl (stopTask T) r).active = r.active
  | [], r => by simp
  | task :: tasks, r => by
    obtain ⟨ho, ha⟩ := stopTasks_fired task' tasks (r.stopTask T task)
    obtain ⟨ho', hs', ha'⟩ := stopTask_fired (T := T) r task task'
    refine ⟨?_, ha.trans ha'⟩
    rw [foldl_cons, ho, ho', hs', mem_cons]
    tauto

/-- `stop` completes every task, and the runner can be started again with empty queues: `start`
asks for an inactive runner without running tasks. -/
structure StopCompletes (T : Tasks) (r : TaskRunner) : Prop where
  fired : ∀ task, Pending r.pendingQueue task ∨ task ∈ r.runningQueue →
    (r.stop T).outcome task ≠ none
  pending : ∀ task, ¬ Pending (r.stop T).pendingQueue task
  running : (r.stop T).runningQueue = []
  inactive : (r.stop T).active = false

/-- **`stop` completes every task exactly when each task that waits or runs is one of an active
runner, and has fired or runs and was not stopped before.** -/
theorem stop_completes_iff (r : TaskRunner) :
    StopCompletes T r ↔ ∀ task, Pending r.pendingQueue task ∨ task ∈ r.runningQueue →
      r.active = true ∧
        (r.outcome task ≠ none ∨ task ∈ r.runningQueue ∧ r.stopped task = false) := by
  by_cases ha : r.active = true
  · have ht := Trimmed.stopTasks (T := T) r.runningQueue
      { r with active := false, pendingQueue := [], runningQueue := [] }
    have hf := fun task => stopTasks_fired (T := T) task r.runningQueue
      { r with active := false, pendingQueue := [], runningQueue := [] }
    rw [← show r.stop T = _ from if_pos ha] at ht
    simp only [← show r.stop T = _ from if_pos ha] at hf
    constructor
    · exact fun hc task hmem => ⟨ha, (hf task).1.mp (hc.fired task hmem)⟩
    · intro hc
      refine ⟨fun task hmem => (hf task).1.mpr (hc task hmem).2, fun task hp => ?_,
        subset_nil.mp ht.running, (hf 0).2⟩
      obtain ⟨p, l, hl, -⟩ := ht.of_pending hp
      cases hl
  · have hstop : r.stop T = r := if_neg ha
    constructor
    · intro hc task hmem
      have hp := hc.pending task
      have hr := hc.running
      rw [hstop] at hp hr
      rw [hr] at hmem
      exact absurd (hmem.resolve_right not_mem_nil) hp
    · intro hc
      have hnone : ∀ task, ¬ (Pending r.pendingQueue task ∨ task ∈ r.runningQueue) :=
        fun task hmem => ha (hc task hmem).1
      refine ⟨fun task hmem => absurd hmem (hnone task), fun task hp => ?_, ?_, ?_⟩
      · exact hnone task (.inl (hstop ▸ hp))
      · rw [hstop]
        exact eq_nil_iff_forall_not_mem.mpr fun task hmem => hnone task (.inr hmem)
      · rw [hstop]
        exact Bool.eq_false_iff.mpr ha

/-- Two exclusive tasks are queued; the second one waits when the runner is stopped. -/
theorem stop_strands_pending :
    let r := [Event.start, .queueTask 2, .queueTask 4].foldl (step sampleTasks) init
    r.pendingQueue = [(200, [4])] ∧ (r.stop sampleTasks).outcome 4 = none ∧
      (r.stop sampleTasks).pendingQueue = [] := by
  decide

end Voltha.Omci.TaskRunner
