import Voltha.Lib.OrderedDict
import Voltha.Lib.Run

/-!
# The task runner

`TaskRunner` runs the OMCI tasks of a device.  Tasks wait in one list for each priority; the next
one to run is the first of the highest priority, unless an exclusive task runs or it is exclusive
itself and others run.  The scheduler is entered from every handler, and again from the reactor.

A task is named by its `task_id`.  Its deferred fires once: with success or failure when the task
reports its end, or with failure when the task is stopped, which also takes the deferred away from
the task.  Callbacks that others add to the deferred run after those of the runner, so that what
they do is a later event.

* `Trimmed`: what all handlers do to the queues, but for the start of a task and `queue_task`: tasks
  only leave them.
* `Inv`: the order of the lists and the starts so far; it is kept by a trim, a start and an append.
* `safe_run`: an exclusive task runs alone, no task waits and runs at the same time or runs twice,
  and tasks start in the order of their priorities and of their coming, if no task is queued that
  waits or was started before.
-/

namespace Voltha.Omci

open List hiding get
open OrderedDict

/-- How a deferred has fired. -/
inductive Outcome where
  | success
  | failure
  deriving DecidableEq

/-- What the reactor was asked to call later. -/
inductive Later where
  | runNextTask
  | start (task : ℕ)
  deriving DecidableEq

/-- The attributes of the tasks, by task id. -/
structure Tasks where
  priority : ℕ → ℕ
  exclusive : ℕ → Bool

/-- A task was put into the running queue; `pending` is what was waiting then. -/
structure Start where
  task : ℕ
  pending : List (ℕ × List ℕ)
  deriving DecidableEq

/-- `TaskRunner`, with the deferreds of the tasks and the calls that wait in the reactor.  The last
four fields are for the statements only: the starts so far, the tasks whose `start` was executed,
and when each task was last queued. -/
structure TaskRunner where
  /-- `_pending_queue`, by priority -/
  pendingQueue : List (ℕ × List ℕ)
  /-- the keys of `_running_queue` -/
  runningQueue : List ℕ
  active : Bool
  successfulTasks : ℕ
  failedTasks : ℕ
  /-- how `task.deferred` has fired -/
  outcome : ℕ → Option Outcome
  /-- `task._deferred` is `None` -/
  stopped : ℕ → Bool
  /-- how often `queue_task` has added its callbacks -/
  attached : ℕ → ℕ
  calls : List Later
  starts : List Start
  ran : List ℕ
  queuedAt : ℕ → ℕ
  clock : ℕ

namespace TaskRunner

def init : TaskRunner where
  pendingQueue := []
  runningQueue := []
  active := false
  successfulTasks := 0
  failedTasks := 0
  outcome _ := none
  stopped _ := false
  attached _ := 0
  calls := []
  starts := []
  ran := []
  queuedAt _ := 0
  clock := 0

/-- The list of a priority; an empty one is taken out. -/
def setQueue (pending : List (ℕ × List ℕ)) (priority : ℕ) (l : List ℕ) : List (ℕ × List ℕ) :=
  if l = [] then pending.filter (·.1 ≠ priority) else insert priority l pending

variable (T : Tasks)

/-- The first task of the highest priority, with what waits behind it. -/
def head (pending : List (ℕ × List ℕ)) : Option (ℕ × ℕ × List ℕ) :=
  match (pending.map Prod.fst).max? with
  | none => none
  | some highest =>
    match get pending highest with
    | some (task :: rest) => some (highest, task, rest)
    | _ => none

/-- The first task of the priority is put into the running queue, and its start is asked for. -/
def startHead (r : TaskRunner) (highest task : ℕ) (rest : List ℕ) : TaskRunner :=
  { r with
    pendingQueue := setQueue r.pendingQueue highest rest
    runningQueue := if task ∈ r.runningQueue then r.runningQueue else r.runningQueue ++ [task]
    calls := r.calls ++ [.start task]
    starts := r.starts ++ [⟨task, setQueue r.pendingQueue highest rest⟩] }

open Function

/-- The task comes to the end of a list. -/
def enqueue (r : TaskRunner) (priority : ℕ) (l : List ℕ) (task : ℕ) : TaskRunner :=
  { r with
    pendingQueue := insert priority (l ++ [task]) r.pendingQueue
    queuedAt := update r.queuedAt task r.clock
    clock := r.clock + 1 }

/-- One round of `_run_next_task`: the state after the start of a task, if one can start.  A list
without tasks at the highest priority ends the recursion of the source with a logged
`RuntimeError`, and nothing starts. -/
def startNext (r : TaskRunner) : Option TaskRunner :=
  if r.active = true ∧ ¬ r.runningQueue.any T.exclusive then
    match head r.pendingQueue with
    | none => none
    | some (highest, task, rest) =>
      if T.exclusive task = true ∧ r.runningQueue ≠ [] then none
      else some (r.startHead highest task rest)
  else none

/-- The number of waiting tasks. -/
def pendingTasks (r : TaskRunner) : ℕ := (r.pendingQueue.flatMap Prod.snd).length

/-- Rounds of `_run_next_task`, as long as a task can start. -/
def rounds : ℕ → TaskRunner → TaskRunner
  | 0, r => r
  | fuel + 1, r =>
    match startNext T r with
    | none => r
    | some r' => rounds fuel r'

/-- `_run_next_task`. -/
def runNextTask (r : TaskRunner) : TaskRunner := rounds T (r.pendingTasks + 1) r

/-- `reactor.callLater(0, ...)`. -/
def callLater (r : TaskRunner) (call : Later) : TaskRunner := { r with calls := r.calls ++ [call] }

/-- `_on_task_success`. -/
def onTaskSuccess (r : TaskRunner) (task : ℕ) : TaskRunner :=
  if task ∈ r.runningQueue then
    { r with
      successfulTasks := r.successfulTasks + 1
      runningQueue := r.runningQueue.filter (· ≠ task) }.callLater .runNextTask
  else r.callLater .runNextTask

/-- `_on_task_failure`.  A task that does not run may still be waiting. -/
def onTaskFailure (r : TaskRunner) (task : ℕ) : TaskRunner :=
  if task ∈ r.runningQueue then
    { r with
      failedTasks := r.failedTasks + 1
      runningQueue := r.runningQueue.filter (· ≠ task) }.callLater .runNextTask
  else if r.pendingQueue.any fun q => task ∈ q.2 then
    match get r.pendingQueue (T.priority task) with
    | none => r.callLater .runNextTask
    | some l =>
      { r with
        pendingQueue := setQueue r.pendingQueue (T.priority task) (l.erase task)
        }.callLater .runNextTask
  else r.callLater .runNextTask

/-- The callback of `queue_task` for an outcome. -/
def onOutcome (task : ℕ) : Outcome → TaskRunner → TaskRunner
  | .success, r => r.onTaskSuccess task
  | .failure, r => r.onTaskFailure T task

/-- The deferred of the task is fired, unless it has fired. -/
def fireDeferred (r : TaskRunner) (task : ℕ) (outcome : Outcome) : TaskRunner :=
  if r.outcome task = none then
    (onOutcome T task outcome)^[r.attached task]
      { r with outcome := update r.outcome task (some outcome) }
  else r

/-- The task reports its end. -/
def report (r : TaskRunner) (task : ℕ) (outcome : Outcome) : TaskRunner :=
  if r.stopped task then r else r.fireDeferred T task outcome

/-- `Task.stop`, which cancels the deferred. -/
def stopTask (r : TaskRunner) (task : ℕ) : TaskRunner :=
  if r.stopped task then r
  else { r with stopped := update r.stopped task true }.fireDeferred T task .failure

/-- `start`. -/
def start (r : TaskRunner) : TaskRunner :=
  if r.active = false ∧ r.runningQueue = [] then { r with active := true }.runNextTask T else r

/-- `stop`.  The loop that should cancel the waiting tasks goes over priorities, and does
nothing. -/
def stop (r : TaskRunner) : TaskRunner :=
  if r.active then
    r.runningQueue.foldl (stopTask T)
      { r with active := false, pendingQueue := [], runningQueue := [] }
  else r

/-- There is a list of the priority. -/
def listed (r : TaskRunner) (priority : ℕ) : TaskRunner :=
  if (get r.pendingQueue priority).isSome then r
  else { r with pendingQueue := insert priority [] r.pendingQueue }

/-- `task.deferred.addCallbacks`: the callbacks of a deferred that has fired run at once. -/
def addCallbacks (r : TaskRunner) (task : ℕ) : TaskRunner :=
  match r.outcome task with
  | none => { r with attached := update r.attached task (r.attached task + 1) }
  | some outcome => onOutcome T task outcome r

/-- `queue_task`.  For a task without a deferred it raises when the list of its priority is
there. -/
def queueTask (r : TaskRunner) (task : ℕ) : TaskRunner :=
  if r.stopped task then r.listed (T.priority task)
  else
    let added := (r.listed (T.priority task)).addCallbacks T task
    match get added.pendingQueue (T.priority task) with
    | none => added
    | some l => (added.enqueue (T.priority task) l task).runNextTask T

/-- `cancel_task`. -/
def cancelTask (r : TaskRunner) (task : ℕ) : TaskRunner :=
  if task ∈ r.runningQueue then (r.stopTask T task).callLater .runNextTask
  else if r.pendingQueue.any fun q => task ∈ q.2 then r.report T task .failure
  else r

/-- `Task.start`: a task whose deferred has fired or is gone raises. -/
def startTask (r : TaskRunner) (task : ℕ) : TaskRunner :=
  if r.stopped task = false ∧ r.outcome task = none then { r with ran := r.ran ++ [task] } else r

/-- The reactor makes one of the calls. -/
def make (r : TaskRunner) (i : ℕ) : TaskRunner :=
  match r.calls[i]? with
  | none => r
  | some .runNextTask => { r with calls := r.calls.eraseIdx i }.runNextTask T
  | some (.start task) => { r with calls := r.calls.eraseIdx i }.startTask task

end TaskRunner

/-- What happens to the runner. -/
inductive Event where
  | queueTask (task : ℕ)
  | start
  | stop
  | cancelTask (task : ℕ)
  | report (task : ℕ) (outcome : Outcome)
  | stopTask (task : ℕ)
  | make (i : ℕ)

/-- The runner after an event. -/
def TaskRunner.step (T : Tasks) (r : TaskRunner) : Event → TaskRunner
  | .queueTask task => r.queueTask T task
  | .start => r.start T
  | .stop => r.stop T
  | .cancelTask task => r.cancelTask T task
  | .report task outcome => r.report T task outcome
  | .stopTask task => r.stopTask T task
  | .make i => r.make T i

/-! ## The tasks that wait -/

/-- The task waits in one of the lists. -/
def Pending (pending : List (ℕ × List ℕ)) (task : ℕ) : Prop :=
  ∃ p l, get pending p = some l ∧ task ∈ l

/-- Whether a task waits can be decided. -/
instance Pending.decidable (pending : List (ℕ × List ℕ)) (task : ℕ) :
    Decidable (Pending pending task) :=
  decidable_of_iff
    (∃ p ∈ pending.map Prod.fst, task ∈ (get pending p).getD []) <| by
    constructor
    · rintro ⟨p, -, hmem⟩
      rcases hget : get pending p with _ | l
      · rw [hget] at hmem
        exact absurd hmem not_mem_nil
      · rw [hget] at hmem
        exact ⟨p, l, hget, hmem⟩
    · rintro ⟨p, l, hget, hmem⟩
      refine ⟨p, mem_map.mpr ⟨(p, l), mem_of_lookup hget, rfl⟩, ?_⟩
      rw [hget]
      exact hmem

variable {task : ℕ}

section Lists

variable {pending : List (ℕ × List ℕ)} {p p' : ℕ} {l l' : List ℕ}

theorem get_of_setQueue (h : get (TaskRunner.setQueue pending p l) p' = some l') :
    p' = p ∧ l' = l ∨ p' ≠ p ∧ get pending p' = some l' := by
  rw [TaskRunner.setQueue] at h
  split at h
  · rw [OrderedDict.get, lookup_filter_ne] at h
    split at h
    · cases h
    · next hne => exact .inr ⟨hne, h⟩
  · rw [get_insert] at h
    split at h
    · next heq => exact .inl ⟨heq, (Option.some.inj h).symm⟩
    · next hne => exact .inr ⟨hne, h⟩

theorem mem_keys_of_get (h : get pending p = some l) : p ∈ pending.map Prod.fst :=
  mem_map.mpr ⟨(p, l), mem_of_lookup h, rfl⟩

/-- The head is the first task of a list, and no list is of a higher priority. -/
theorem head_eq_some {rest : List ℕ} (h : TaskRunner.head pending = some (p, task, rest)) :
    get pending p = some (task :: rest) ∧
      ∀ p' l', get pending p' = some l' → p' ≤ p := by
  rw [TaskRunner.head] at h
  rcases hmax : (pending.map Prod.fst).max? with _ | highest
  · rw [hmax] at h
    cases h
  · rw [hmax] at h
    dsimp only at h
    split at h
    · next hget =>
      cases h
      refine ⟨hget, fun p' l' hget' => ?_⟩
      exact (max?_eq_some_iff.mp hmax).2 p' (mem_keys_of_get hget')
    · cases h

end Lists

/-! ## Tasks leave the queues -/

/-- The calls of `start` that wait in the reactor. -/
def scheduled (calls : List Later) : List ℕ :=
  calls.filterMap fun
    | .start task => some task
    | .runNextTask => none

/-- Tasks may have left the queues, and nothing else that matters for the order has changed. -/
structure Trimmed (r r' : TaskRunner) : Prop where
  pending : ∀ p l', get r'.pendingQueue p = some l' →
    l' = [] ∨ ∃ l, get r.pendingQueue p = some l ∧ l'.Sublist l
  running : r'.runningQueue ⊆ r.runningQueue
  starts : r'.starts = r.starts
  ran : r'.ran = r.ran
  scheduled : scheduled r'.calls = scheduled r.calls
  queuedAt : r'.queuedAt = r.queuedAt
  clock : r'.clock = r.clock

namespace Trimmed

variable {T : Tasks} {r r' r'' : TaskRunner}

/-- The queues are the same. -/
theorem of_eq (hp : r'.pendingQueue = r.pendingQueue) (hr : r'.runningQueue = r.runningQueue)
    (hs : r'.starts = r.starts) (hran : r'.ran = r.ran) (hc : Omci.scheduled r'.calls =
      Omci.scheduled r.calls) (hq : r'.queuedAt = r.queuedAt) (hclock : r'.clock = r.clock) :
    Trimmed r r' where
  pending _ l' h := .inr ⟨l', hp ▸ h, Sublist.refl l'⟩
  running := hr ▸ Subset.refl _
  starts := hs
  ran := hran
  scheduled := hc
  queuedAt := hq
  clock := hclock

theorem refl (r : TaskRunner) : Trimmed r r := of_eq rfl rfl rfl rfl rfl rfl rfl

theorem trans (h : Trimmed r r') (h' : Trimmed r' r'') : Trimmed r r'' where
  pending p l hl := by
    rcases h'.pending p l hl with hnil | ⟨l', hl', hsub⟩
    · exact .inl hnil
    · rcases h.pending p l' hl' with rfl | ⟨l'', hl'', hsub'⟩
      · exact .inl (sublist_nil.mp hsub)
      · exact .inr ⟨l'', hl'', hsub.trans hsub'⟩
  running := Subset.trans h'.running h.running
  starts := h'.starts.trans h.starts
  ran := h'.ran.trans h.ran
  scheduled := h'.scheduled.trans h.scheduled
  queuedAt := h'.queuedAt.trans h.queuedAt
  clock := h'.clock.trans h.clock

theorem of_pending (h : Trimmed r r') (hp : Pending r'.pendingQueue task) :
    Pending r.pendingQueue task := by
  obtain ⟨p, l', hl', hmem⟩ := hp
  rcases h.pending p l' hl' with rfl | ⟨l, hl, hsub⟩
  · exact absurd hmem not_mem_nil
  · exact ⟨p, l, hl, hsub.subset hmem⟩

theorem callLater (h : Trimmed r r') : Trimmed r (r'.callLater .runNextTask) := by
  refine h.trans (of_eq rfl rfl rfl rfl ?_ rfl rfl)
  rw [TaskRunner.callLater, Omci.scheduled, filterMap_append]
  exact append_nil _

section

variable (r : TaskRunner)

/-- A task leaves the running queue. -/
theorem ended (task successful failed : ℕ) :
    Trimmed r { r with
      successfulTasks := successful
      failedTasks := failed
      runningQueue := r.runningQueue.filter (· ≠ task) } where
  pending _ l' h := .inr ⟨l', h, Sublist.refl l'⟩
  running := fun _ h => (mem_filter.mp h).1
  starts := rfl
  ran := rfl
  scheduled := rfl
  queuedAt := rfl
  clock := rfl

theorem onTaskSuccess (task : ℕ) : Trimmed r (r.onTaskSuccess task) := by
  rw [TaskRunner.onTaskSuccess]
  split
  · exact (ended r task _ _).callLater
  · exact (refl r).callLater

theorem onTaskFailure (task : ℕ) : Trimmed r (r.onTaskFailure T task) := by
  rw [TaskRunner.onTaskFailure]
  split
  · exact (ended r task _ _).callLater
  · split
    · split
      · exact (refl r).callLater
      · next l hl =>
        -- a waiting task leaves its list
        refine callLater ⟨fun p l' hl' => ?_, Subset.refl _, rfl, rfl, rfl, rfl, rfl⟩
        rcases get_of_setQueue hl' with ⟨rfl, rfl⟩ | ⟨-, hget⟩
        · exact .inr ⟨l, hl, erase_sublist⟩
        · exact .inr ⟨l', hget, Sublist.refl l'⟩
    · exact (refl r).callLater

section

variable (task : ℕ) (outcome : Outcome)

theorem onOutcome : Trimmed r (TaskRunner.onOutcome T task outcome r) := by
  cases outcome with
  | success => exact onTaskSuccess r task
  | failure => exact onTaskFailure r task

omit r in
theorem onOutcomes (n : ℕ) (r : TaskRunner) :
    Trimmed r ((TaskRunner.onOutcome T task outcome)^[n] r) := by
  induction n generalizing r with
  | zero => exact refl r
  | succ n ih => exact (onOutcome r task outcome).trans (ih _)

theorem fireDeferred : Trimmed r (r.fireDeferred T task outcome) := by
  rw [TaskRunner.fireDeferred]
  split
  · refine trans ?_ (onOutcomes task outcome _ _)
    exact of_eq rfl rfl rfl rfl rfl rfl rfl
  · exact refl r

theorem report : Trimmed r (r.report T task outcome) := by
  rw [TaskRunner.report]
  split
  · exact refl r
  · exact fireDeferred r task outcome

end

theorem stopTask (task : ℕ) : Trimmed r (r.stopTask T task) := by
  rw [TaskRunner.stopTask]
  split
  · exact refl r
  · refine trans ?_ (fireDeferred _ task .failure)
    exact of_eq rfl rfl rfl rfl rfl rfl rfl

omit r in
theorem stopTasks (tasks : List ℕ) (r : TaskRunner) :
    Trimmed r (tasks.foldl (TaskRunner.stopTask T) r) := by
  induction tasks generalizing r with
  | nil => exact refl r
  | cons task tasks ih => exact (stopTask r task).trans (ih _)

theorem stop : Trimmed r (r.stop T) := by
  rw [TaskRunner.stop]
  split
  · refine trans ?_ (stopTasks _ _)
    exact ⟨fun p l h => (nomatch h), nil_subset _, rfl, rfl, rfl, rfl, rfl⟩
  · exact refl r

theorem cancelTask (task : ℕ) : Trimmed r (r.cancelTask T task) := by
  rw [TaskRunner.cancelTask]
  split
  · exact (stopTask r task).callLater
  · split
    · exact report r task .failure
    · exact refl r

theorem listed (priority : ℕ) : Trimmed r (r.listed priority) := by
  rw [TaskRunner.listed]
  split
  · exact refl r
  · refine ⟨fun p l' hl' => ?_, Subset.refl _, rfl, rfl, rfl, rfl, rfl⟩
    rw [get_insert] at hl'
    split at hl'
    · exact .inl (Option.some.inj hl').symm
    · exact .inr ⟨l', hl', Sublist.refl l'⟩

theorem added (task : ℕ) : Trimmed r ((r.listed (T.priority task)).addCallbacks T task) := by
  refine (listed r (T.priority task)).trans ?_
  rw [TaskRunner.addCallbacks]
  split
  · exact of_eq rfl rfl rfl rfl rfl rfl rfl
  · exact onOutcome _ task _

end

end Trimmed

/-- The calls of `start`, when one of the calls is made. -/
theorem scheduled_split {calls : List Later} {i : ℕ} {call : Later} (hi : calls[i]? = some call) :
    scheduled calls =
        scheduled (calls.take i) ++ (scheduled [call] ++ scheduled (calls.drop (i + 1))) ∧
      scheduled (calls.eraseIdx i) =
        scheduled (calls.take i) ++ scheduled (calls.drop (i + 1)) := by
  obtain ⟨hlt, hget⟩ := List.getElem?_eq_some_iff.mp hi
  have hsplit : calls = calls.take i ++ ([call] ++ calls.drop (i + 1)) := by
    rw [← hget, singleton_append, getElem_cons_drop, take_append_drop]
  constructor
  · conv_lhs => rw [hsplit]
    simp only [scheduled, filterMap_append]
  · rw [eraseIdx_eq_take_drop_succ, scheduled, filterMap_append]
    rfl

/-! ## The invariant -/

/-- The tasks that were started. -/
def TaskRunner.started (r : TaskRunner) : List ℕ := r.starts.map Start.task

/-- What is known between the steps of the runner. -/
structure Inv (T : Tasks) (r : TaskRunner) : Prop where
  home : ∀ p l, get r.pendingQueue p = some l → ∀ task ∈ l, T.priority task = p
  /-- a list is in the order in which its tasks were queued -/
  sorted : ∀ p l, get r.pendingQueue p = some l →
    l.Pairwise fun task task' => r.queuedAt task < r.queuedAt task'
  waiting : ∀ task, Pending r.pendingQueue task → r.queuedAt task < r.clock ∧ task ∉ r.started
  running : ∀ task ∈ r.runningQueue, task ∈ r.started
  alone : ∀ task ∈ r.runningQueue, T.exclusive task = true → ∀ task' ∈ r.runningQueue, task' = task
  once : r.started.Nodup
  before : ∀ task ∈ r.started, r.queuedAt task < r.clock
  order : ∀ st ∈ r.starts, ∀ task, Pending st.pending task →
    T.priority task ≤ T.priority st.task ∧
      (T.priority task = T.priority st.task → r.queuedAt st.task < r.queuedAt task)
  ran : (r.ran ++ scheduled r.calls).Nodup
  ranStarted : ∀ task ∈ r.ran ++ scheduled r.calls, task ∈ r.started

namespace Inv

variable {T : Tasks} {r r' : TaskRunner}

theorem init (T : Tasks) : Inv T TaskRunner.init where
  home _ _ h := nomatch h
  sorted _ _ h := nomatch h
  waiting := nofun
  running _ h := nomatch h
  alone _ h := nomatch h
  once := nodup_nil
  before _ h := nomatch h
  order _ h := nomatch h
  ran := nodup_nil
  ranStarted _ h := nomatch h

section

variable (h : Inv T r)
include h

/-- Tasks that leave the queues do not matter. -/
theorem trimmed (ht : Trimmed r r') : Inv T r' where
  home p l' hl' task hmem := by
    rcases ht.pending p l' hl' with rfl | ⟨l, hl, hsub⟩
    · exact absurd hmem not_mem_nil
    · exact h.home p l hl task (hsub.subset hmem)
  sorted p l' hl' := by
    rw [ht.queuedAt]
    rcases ht.pending p l' hl' with rfl | ⟨l, hl, hsub⟩
    · exact Pairwise.nil
    · exact (h.sorted p l hl).sublist hsub
  waiting task hp := by
    rw [ht.queuedAt, ht.clock, TaskRunner.started, ht.starts]
    exact h.waiting task (ht.of_pending hp)
  running task hmem := by
    rw [TaskRunner.started, ht.starts]
    exact h.running task (ht.running hmem)
  alone task hmem hex task' hmem' := h.alone task (ht.running hmem) hex task' (ht.running hmem')
  once := by
    rw [TaskRunner.started, ht.starts]
    exact h.once
  before := by
    rw [TaskRunner.started, ht.starts, ht.queuedAt, ht.clock]
    exact h.before
  order := by
    rw [ht.starts, ht.queuedAt]
    exact h.order
  ran := by
    rw [ht.ran, ht.scheduled]
    exact h.ran
  ranStarted := by
    rw [ht.ran, ht.scheduled, TaskRunner.started, ht.starts]
    exact h.ranStarted

/-- What is left of the waiting tasks when the head of the lists is taken. -/
theorem pending_setQueue {p : ℕ} {rest : List ℕ}
    (hhead : TaskRunner.head r.pendingQueue = some (p, task, rest)) {task' : ℕ}
    (hp : Pending (TaskRunner.setQueue r.pendingQueue p rest) task') :
    Pending r.pendingQueue task' ∧ T.priority task' ≤ T.priority task ∧
      (T.priority task' = T.priority task → r.queuedAt task < r.queuedAt task') ∧
      task' ≠ task := by
  obtain ⟨hget, hmax⟩ := head_eq_some hhead
  have hprio := h.home p _ hget task mem_cons_self
  obtain ⟨p', l', hl', hmem⟩ := hp
  rcases get_of_setQueue hl' with ⟨rfl, rfl⟩ | ⟨hne, hl⟩
  · have hlt := (pairwise_cons.mp (h.sorted p' _ hget)).1 task' hmem
    have hmem' := mem_cons_of_mem task hmem
    refine ⟨⟨p', _, hget, hmem'⟩, ?_, fun _ => hlt, ?_⟩
    · rw [hprio, h.home p' _ hget task' hmem']
    · rintro rfl
      exact Nat.lt_irrefl _ hlt
  · have hprio' := h.home p' l' hl task' hmem
    refine ⟨⟨p', l', hl, hmem⟩, ?_, fun heq => ?_, ?_⟩
    · rw [hprio, hprio']
      exact hmax p' l' hl
    · exact absurd (hprio'.symm.trans (heq.trans hprio)) hne
    · rintro rfl
      exact hne (hprio'.symm.trans hprio)

omit h in
/-- When a task starts, and what it changes. -/
theorem startNext_eq_some (hr : TaskRunner.startNext T r = some r') :
    ∃ p task rest, r.runningQueue.any T.exclusive = false ∧
      TaskRunner.head r.pendingQueue = some (p, task, rest) ∧
      (T.exclusive task = true → r.runningQueue = []) ∧
      r' = r.startHead p task rest := by
  rw [TaskRunner.startNext] at hr
  split at hr
  · next hactive =>
    split at hr
    · cases hr
    · next p task rest hhead =>
      split at hr
      · cases hr
      · next hex =>
        refine ⟨p, task, rest, Bool.eq_false_iff.mpr hactive.2, hhead, fun he => ?_,
          (Option.some.inj hr).symm⟩
        by_contra hne
        exact hex ⟨he, hne⟩
  · cases hr

/-- **The start of a task keeps the invariant.** -/
theorem startNext (hr : TaskRunner.startNext T r = some r') : Inv T r' := by
  obtain ⟨p, task, rest, hnone, hhead, hempty, rfl⟩ := startNext_eq_some hr
  obtain ⟨hget, -⟩ := head_eq_some hhead
  obtain ⟨hlt, hnew⟩ := h.waiting task ⟨p, _, hget, mem_cons_self⟩
  have happ : (r.startHead p task rest).started = r.started ++ [task] := by
    rw [TaskRunner.started, TaskRunner.startHead, map_append]
    rfl
  have hstarted : ∀ {task'}, task' ∈ (r.startHead p task rest).started ↔
      task' ∈ r.started ∨ task' = task := by
    intro task'
    rw [happ, mem_append, mem_singleton]
  have hmemrun : ∀ {task'}, task' ∈ (r.startHead p task rest).runningQueue →
      task' ∈ r.runningQueue ∨ task' = task := by
    intro task' hmem
    rw [TaskRunner.startHead] at hmem
    split at hmem
    · exact .inl hmem
    · rcases mem_append.mp hmem with hmem | hmem
      · exact .inl hmem
      · exact .inr (mem_singleton.mp hmem)
  have hsched : (r.startHead p task rest).ran ++ scheduled (r.startHead p task rest).calls =
      (r.ran ++ scheduled r.calls) ++ [task] := by
    rw [TaskRunner.startHead, scheduled, filterMap_append, append_assoc]
    rfl
  refine ⟨?_, ?_, ?_, ?_, ?_, ?_, ?_, ?_, ?_, ?_⟩
  · intro p' l' hl' task' hmem
    rcases get_of_setQueue hl' with ⟨rfl, rfl⟩ | ⟨-, hl⟩
    · exact h.home p' _ hget task' (mem_cons_of_mem _ hmem)
    · exact h.home p' l' hl task' hmem
  · intro p' l' hl'
    rcases get_of_setQueue hl' with ⟨rfl, rfl⟩ | ⟨-, hl⟩
    · exact (h.sorted p' _ hget).of_cons
    · exact h.sorted p' l' hl
  · intro task' hp
    obtain ⟨hp', -, -, hne⟩ := h.pending_setQueue hhead hp
    refine ⟨(h.waiting task' hp').1, ?_⟩
    rw [hstarted, not_or]
    exact ⟨(h.waiting task' hp').2, hne⟩
  · intro task' hmem
    rw [hstarted]
    exact (hmemrun hmem).imp_left (h.running task')
  · -- no exclusive task runs, and an exclusive one starts alone
    intro task' hmem hex task'' hmem''
    rw [any_eq_false] at hnone
    rcases hmemrun hmem with hmem | rfl
    · exact absurd hex (hnone task' hmem)
    · rcases hmemrun hmem'' with hmem'' | hmem''
      · rw [hempty hex] at hmem''
        cases hmem''
      · exact hmem''
  · rw [happ, nodup_append]
    refine ⟨h.once, nodup_singleton _, ?_⟩
    rintro task' hmem task'' hmem'' rfl
    rw [mem_singleton.mp hmem''] at hmem
    exact hnew hmem
  · intro task' hmem
    rcases hstarted.mp hmem with hmem | rfl
    · exact h.before task' hmem
    · exact hlt
  · intro st hst task' hp
    rcases mem_append.mp hst with hst | hst
    · exact h.order st hst task' hp
    · rw [mem_singleton.mp hst] at hp ⊢
      obtain ⟨-, hle, hlt', -⟩ := h.pending_setQueue hhead hp
      exact ⟨hle, hlt'⟩
  · rw [hsched, nodup_append]
    refine ⟨h.ran, nodup_singleton _, ?_⟩
    rintro task' hmem task'' hmem'' rfl
    rw [mem_singleton.mp hmem''] at hmem
    exact hnew (h.ranStarted _ hmem)
  · intro task' hmem
    rw [hsched] at hmem
    rw [hstarted]
    rcases mem_append.mp hmem with hmem | hmem
    · exact .inl (h.ranStarted task' hmem)
    · exact .inr (mem_singleton.mp hmem)

omit h in
theorem rounds (fuel : ℕ) (h : Inv T r) : Inv T (TaskRunner.rounds T fuel r) := by
  induction fuel generalizing r with
  | zero => exact h
  | succ fuel ih =>
    rw [TaskRunner.rounds]
    split
    · exact h
    · next r' hr => exact ih (h.startNext hr)

theorem runNextTask : Inv T (r.runNextTask T) := h.rounds _

omit h in
/-- A start takes a task from the lists. -/
theorem pendingTasks_startNext (hr : TaskRunner.startNext T r = some r') :
    r'.pendingTasks < r.pendingTasks := by
  obtain ⟨p, task, rest, -, hhead, -, rfl⟩ := startNext_eq_some hr
  obtain ⟨hget, -⟩ := head_eq_some hhead
  rw [TaskRunner.pendingTasks, TaskRunner.pendingTasks, TaskRunner.startHead, TaskRunner.setQueue]
  split
  · -- the list of the priority goes as a whole
    have hlen := ((filter_append_perm (fun q : ℕ × List ℕ => decide (q.1 ≠ p))
      r.pendingQueue).flatMap_right Prod.snd).length_eq
    have hmem : task ∈ (r.pendingQueue.filter fun q => !decide (q.1 ≠ p)).flatMap Prod.snd :=
      mem_flatMap.mpr ⟨(p, task :: rest), mem_filter.mpr ⟨mem_of_lookup hget, by simp⟩,
        mem_cons_self⟩
    have hpos := length_pos_of_mem hmem
    rw [flatMap_append, length_append] at hlen
    dsimp only
    omega
  · have hlen := length_flatMap_insert rest hget
    rw [length_cons] at hlen
    dsimp only
    omega

omit h in
/-- `_run_next_task` goes on until no task can start. -/
theorem startNext_runNextTask : TaskRunner.startNext T (r.runNextTask T) = none := by
  suffices hfuel : ∀ (fuel : ℕ) (r : TaskRunner), r.pendingTasks < fuel →
      TaskRunner.startNext T (TaskRunner.rounds T fuel r) = none from
    hfuel _ r (Nat.lt_succ_self _)
  intro fuel
  induction fuel with
  | zero => exact fun r hlt => absurd hlt (Nat.not_lt_zero _)
  | succ fuel ih =>
    intro r hlt
    rw [TaskRunner.rounds]
    split
    · next hr => exact hr
    · next r' hr =>
      have hless := pendingTasks_startNext hr
      exact ih r' (by omega)

/-! ### New tasks and calls of the reactor -/

/-- A task comes to the end of the list of its priority. -/
theorem append {l : List ℕ} (hl : get r.pendingQueue (T.priority task) = some l)
    (hp : ¬ Pending r.pendingQueue task) (hs : task ∉ r.started) :
    Inv T (r.enqueue (T.priority task) l task) := by
  have hget : ∀ {p' l'}, get (insert (T.priority task) (l ++ [task])
      r.pendingQueue) p' = some l' → p' = T.priority task ∧ l' = l ++ [task] ∨
        get r.pendingQueue p' = some l' := by
    intro p' l' hl'
    rw [get_insert] at hl'
    split at hl'
    · next heq => exact .inl ⟨heq, (Option.some.inj hl').symm⟩
    · exact .inr hl'
  -- the times of the tasks that wait or were started are as before
  have hwait : ∀ {task'}, Pending r.pendingQueue task' →
      Function.update r.queuedAt task r.clock task' = r.queuedAt task' := by
    intro task' hp'
    refine Function.update_of_ne ?_ _ _
    rintro rfl
    exact hp hp'
  have hstart : ∀ {task'}, task' ∈ r.started →
      Function.update r.queuedAt task r.clock task' = r.queuedAt task' := by
    intro task' hs'
    refine Function.update_of_ne ?_ _ _
    rintro rfl
    exact hs hs'
  refine ⟨?_, ?_, ?_, h.running, h.alone, h.once, ?_, ?_, h.ran, h.ranStarted⟩
  · intro p' l' hl' task' hmem
    rcases hget hl' with ⟨rfl, rfl⟩ | hl'
    · rcases mem_append.mp hmem with hmem | hmem
      · exact h.home _ l hl task' hmem
      · rw [mem_singleton.mp hmem]
    · exact h.home p' l' hl' task' hmem
  · intro p' l' hl'
    have hold : ∀ {l''}, get r.pendingQueue p' = some l'' → l''.Pairwise
        fun task₁ task₂ => Function.update r.queuedAt task r.clock task₁ <
          Function.update r.queuedAt task r.clock task₂ := by
      intro l'' hl''
      refine (h.sorted p' l'' hl'').imp_of_mem ?_
      intro task₁ task₂ h₁ h₂ hlt
      rwa [hwait ⟨p', l'', hl'', h₁⟩, hwait ⟨p', l'', hl'', h₂⟩]
    rcases hget hl' with ⟨rfl, rfl⟩ | hl'
    · dsimp only [TaskRunner.enqueue]
      rw [pairwise_append]
      refine ⟨hold hl, pairwise_singleton _ _, ?_⟩
      intro task₁ h₁ task₂ h₂
      rw [mem_singleton.mp h₂, hwait ⟨_, l, hl, h₁⟩, Function.update_self]
      exact (h.waiting task₁ ⟨_, l, hl, h₁⟩).1
    · exact hold hl'
  · rintro task' ⟨p', l', hl', hmem⟩
    have hold : Pending r.pendingQueue task' →
        Function.update r.queuedAt task r.clock task' < r.clock + 1 ∧ task' ∉ r.started := by
      intro hp'
      obtain ⟨hlt, hnew⟩ := h.waiting task' hp'
      rw [hwait hp']
      exact ⟨Nat.lt_succ_of_lt hlt, hnew⟩
    rcases hget hl' with ⟨rfl, rfl⟩ | hl'
    · rcases mem_append.mp hmem with hmem | hmem
      · exact hold ⟨_, l, hl, hmem⟩
      · rw [mem_singleton.mp hmem]
        dsimp only [TaskRunner.enqueue]
        rw [Function.update_self]
        exact ⟨Nat.lt_succ_self _, hs⟩
    · exact hold ⟨p', l', hl', hmem⟩
  · intro task' hs'
    dsimp only [TaskRunner.enqueue]
    rw [hstart hs']
    exact Nat.lt_succ_of_lt (h.before task' hs')
  · intro st hst task' hp'
    have hs' : st.task ∈ r.started := mem_map_of_mem hst
    obtain ⟨hle, hlt⟩ := h.order st hst task' hp'
    refine ⟨hle, fun heq => ?_⟩
    dsimp only [TaskRunner.enqueue]
    rw [hstart hs']
    by_cases hne : task' = task
    · rw [hne, Function.update_self]
      exact h.before st.task hs'
    · rw [Function.update_of_ne hne]
      exact hlt heq

/-- The reactor calls `start` of a task. -/
theorem startTask {i : ℕ} (hi : r.calls[i]? = some (.start task)) :
    Inv T ({ r with calls := r.calls.eraseIdx i }.startTask task) := by
  obtain ⟨hall, herase⟩ := scheduled_split hi
  have hran : (r.ran ++ scheduled r.calls).Perm
      ((r.ran ++ [task]) ++ scheduled (r.calls.eraseIdx i)) := by
    rw [hall, herase, append_assoc]
    exact Perm.append_left _ (perm_append_comm_assoc _ _ _)
  have hsub : (r.ran ++ scheduled (r.calls.eraseIdx i)).Sublist (r.ran ++ scheduled r.calls) := by
    rw [hall, herase]
    exact Sublist.append_left (Sublist.append_left (sublist_append_right _ _) _) _
  rw [TaskRunner.startTask]
  split
  · refine { h with ran := ?_, ranStarted := fun task' hmem => ?_ }
    · exact hran.nodup_iff.mp h.ran
    · exact h.ranStarted task' (hran.mem_iff.mpr hmem)
  · refine { h with ran := ?_, ranStarted := fun task' hmem => ?_ }
    · exact h.ran.sublist hsub
    · exact h.ranStarted task' (hsub.subset hmem)

/-- The reactor makes a call. -/
theorem make (i : ℕ) : Inv T (r.make T i) := by
  rw [TaskRunner.make]
  split
  · exact h
  · next hi =>
    refine runNextTask (h.trimmed (Trimmed.of_eq rfl rfl rfl rfl ?_ rfl rfl))
    obtain ⟨hall, herase⟩ := scheduled_split hi
    rw [hall, herase]
    rfl
  · next task hi => exact h.startTask hi

theorem queueTask (hp : ¬ Pending r.pendingQueue task) (hs : task ∉ r.started) :
    Inv T (r.queueTask T task) := by
  have hadded := Trimmed.added (T := T) r task
  rw [TaskRunner.queueTask]
  dsimp only
  split
  · exact h.trimmed (Trimmed.listed r (T.priority task))
  · split
    · exact h.trimmed hadded
    · next l hl =>
      refine ((h.trimmed hadded).append hl (fun hp' => hp (hadded.of_pending hp')) ?_).runNextTask
      rw [TaskRunner.started, hadded.starts]
      exact hs

end

end Inv

/-! ## Runs -/

/-- A task that is queued neither waits nor was started before. -/
def QueuesNew (r : TaskRunner) : Event → Prop
  | .queueTask task => ¬ Pending r.pendingQueue task ∧ task ∉ r.started
  | _ => True

instance QueuesNew.decidable (r : TaskRunner) : ∀ event, Decidable (QueuesNew r event)
  | .queueTask task =>
    inferInstanceAs (Decidable (¬ Pending r.pendingQueue task ∧ task ∉ r.started))
  | .start => isTrue trivial
  | .stop => isTrue trivial
  | .cancelTask _ => isTrue trivial
  | .report _ _ => isTrue trivial
  | .stopTask _ => isTrue trivial
  | .make _ => isTrue trivial

theorem Inv.step {T : Tasks} {r : TaskRunner} (h : Inv T r) {event : Event}
    (hnew : QueuesNew r event) : Inv T (r.step T event) := by
  cases event with
  | queueTask task => exact h.queueTask hnew.1 hnew.2
  | start =>
    rw [TaskRunner.step, TaskRunner.start]
    split
    · exact Inv.runNextTask (h.trimmed (Trimmed.of_eq rfl rfl rfl rfl rfl rfl rfl))
    · exact h
  | stop => exact h.trimmed (Trimmed.stop r)
  | cancelTask task => exact h.trimmed (Trimmed.cancelTask r task)
  | report task outcome => exact h.trimmed (Trimmed.report r task outcome)
  | stopTask task => exact h.trimmed (Trimmed.stopTask r task)
  | make i => exact h.make i

/-- What the runner is to guarantee. -/
structure Safe (T : Tasks) (r : TaskRunner) : Prop where
  /-- an exclusive task that runs is the only one that does -/
  exclusive : ∀ task ∈ r.runningQueue, T.exclusive task = true →
    ∀ task' ∈ r.runningQueue, task' = task
  /-- no task waits and runs -/
  disjoint : ∀ task, Pending r.pendingQueue task → task ∉ r.runningQueue
  /-- no task is started twice -/
  once : r.started.Nodup ∧ r.ran.Nodup
  /-- when a task was started, those that waited were of lower priority, or of the same one and
  queued later -/
  order : ∀ st ∈ r.starts, ∀ task, Pending st.pending task →
    T.priority task ≤ T.priority st.task ∧
      (T.priority task = T.priority st.task → r.queuedAt st.task < r.queuedAt task)

theorem Inv.safe {T : Tasks} {r : TaskRunner} (h : Inv T r) : Safe T r where
  exclusive := h.alone
  disjoint task hp hmem := (h.waiting task hp).2 (h.running task hmem)
  once := ⟨h.once, (nodup_append.mp h.ran).1⟩
  order := h.order

/-- **Exclusivity and order of the task runner**, after every sequence of events in which only
tasks are queued that neither wait nor were started before. -/
theorem safe_run (T : Tasks) (events : List Event)
    (hnew : AllAlong (TaskRunner.step T) QueuesNew TaskRunner.init events) :
    Safe T (events.foldl (TaskRunner.step T) TaskRunner.init) :=
  (AllAlong.foldl (I := Inv T) (fun _ _ h hn => h.step hn) hnew (Inv.init T)).safe

/-- Tasks of two priorities; those with even ids are exclusive. -/
def sampleTasks : Tasks := ⟨fun task => if task < 3 then 128 else 200, fun task => task % 2 = 0⟩

/-- Five tasks are queued, one is cancelled while it waits, and the others run and end. -/
def sampleEvents : List Event :=
  [.queueTask 1, .queueTask 2, .queueTask 3, .queueTask 4, .start, .queueTask 5, .make 0,
    .cancelTask 2, .report 3 .success, .make 1, .report 4 .failure]

theorem safe_run_sample :
    Safe sampleTasks (sampleEvents.foldl (TaskRunner.step sampleTasks) TaskRunner.init) :=
  safe_run sampleTasks sampleEvents (by decide)

/-- A task that is queued twice waits and runs at the same time, if it is exclusive, and starts
twice, if it is not. -/
theorem queued_twice_runs_twice :
    let exclusive := [Event.start, .queueTask 2, .queueTask 2].foldl
      (TaskRunner.step sampleTasks) TaskRunner.init
    let shared := [Event.start, .queueTask 1, .queueTask 1, .make 0, .make 0].foldl
      (TaskRunner.step sampleTasks) TaskRunner.init
    (exclusive.runningQueue = [2] ∧ exclusive.pendingQueue = [(128, [2])]) ∧
      shared.ran = [1, 1] := by
  decide

end Voltha.Omci
