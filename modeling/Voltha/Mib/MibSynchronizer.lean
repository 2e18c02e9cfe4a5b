import Voltha.Lib.Act
import Voltha.Lib.Run

/-!
# The MIB synchronizer

`MibSynchronizer` keeps the copy of an ONU's MIB that the adapter holds in step with the ONU.  It is
a state machine.  Entering a state either asks the reactor to pull a trigger later or hands a task
to the task runner, with one callback for its success and one for its failure; the callbacks again
ask the reactor for a trigger.

What the machine has asked for is part of its state here: `calls` are the delayed calls that the
reactor still holds, and `tasks` are the tasks that wait or run in the task runner with the
callbacks of the machine on their deferreds.  The order in which calls come due and tasks end is
left open, as is whoever pulls a trigger from outside: a run is any list of events.

A trigger that the current state does not know raises `MachineError`, in the reactor or at its
caller, and changes nothing.

## What the numbers in calls and tasks are for

`activation` counts the starts of the machine and `visits` its transitions.  Every task remembers
both, and a call remembers the activation it goes back to: that of the state that made it or, for a
call made by a callback, that of the task.  No definition reads these numbers.
-/

namespace Voltha.Mib

/-- `DEFAULT_STATES`. -/
inductive State where
  | disabled
  | starting
  | uploading
  | examiningMds
  | inSync
  | outOfSync
  | auditing
  | resynchronizing
  deriving DecidableEq

inductive Trigger where
  | start
  | uploadMib
  | examineMds
  | success
  | timeout
  | mismatch
  | auditMib
  | forceResync
  | diffsFound
  | stop
  deriving DecidableEq

/-- An entry of a transition table; no source stands for the wildcard. -/
structure Transition where
  trigger : Trigger
  source : Option State
  dest : State
  deriving DecidableEq

/-- `DEFAULT_TRANSITIONS`. -/
def defaultTransitions : List Transition := [
  ⟨.start, some .disabled, .starting⟩,
  ⟨.uploadMib, some .starting, .uploading⟩,
  ⟨.examineMds, some .starting, .examiningMds⟩,
  ⟨.success, some .uploading, .inSync⟩,
  ⟨.timeout, some .uploading, .starting⟩,
  ⟨.success, some .examiningMds, .inSync⟩,
  ⟨.timeout, some .examiningMds, .starting⟩,
  ⟨.mismatch, some .examiningMds, .uploading⟩,
  ⟨.auditMib, some .inSync, .auditing⟩,
  ⟨.auditMib, some .outOfSync, .auditing⟩,
  ⟨.success, some .auditing, .inSync⟩,
  ⟨.timeout, some .auditing, .starting⟩,
  ⟨.mismatch, some .auditing, .resynchronizing⟩,
  ⟨.forceResync, some .auditing, .resynchronizing⟩,
  ⟨.success, some .resynchronizing, .inSync⟩,
  ⟨.diffsFound, some .resynchronizing, .outOfSync⟩,
  ⟨.timeout, some .resynchronizing, .outOfSync⟩,
  ⟨.stop, none, .disabled⟩]

/-- Where a trigger leads from a state; nowhere, if the state does not know it. -/
def dest (t : Trigger) (s : State) : Option State :=
  (defaultTransitions.find? fun e => e.trigger = t ∧ (e.source = none ∨ e.source = some s)).map
    Transition.dest

/-- A delayed call of the reactor. -/
structure Call where
  id : ℕ
  delay : ℕ
  trigger : Trigger
  activation : ℕ
  deriving DecidableEq

/-- The keys of `mib_sync_tasks`. -/
inductive TaskClass where
  | mibUpload
  | getMds
  | mibAudit
  | mibResync
  deriving DecidableEq

/-- The state whose entry makes a task of the class, and whose callbacks the task gets. -/
def TaskClass.state : TaskClass → State
  | .mibUpload => .uploading
  | .getMds => .examiningMds
  | .mibAudit => .auditing
  | .mibResync => .resynchronizing

/-- A task in the queues of the task runner, with the callbacks of the machine on its deferred,
which has not fired. -/
structure QueuedTask where
  id : ℕ
  cls : TaskClass
  running : Bool
  activation : ℕ
  visit : ℕ
  deriving DecidableEq

/-- The columns of the device's row in the MIB database that the machine reads. -/
structure DeviceRecord where
  mibDataSync : ℕ
  lastSync : Option ℕ
  deriving DecidableEq

/-- An instance of a managed entity: class and instance id. -/
abbrev Instance := ℕ × ℕ

/-- An attribute of an instance. -/
abbrev InstanceAttribute := ℕ × ℕ × String

/-- The delays given to `__init__`, in seconds. -/
structure Delays where
  timeoutDelay : ℕ
  auditDelay : ℕ
  resyncDelay : ℕ

/-- `MibSynchronizer`, with the delayed calls and the tasks it waits for. -/
structure MibSynchronizer where
  state : State
  /-- `_deferred`, the last delayed call that was made -/
  deferred : Option ℕ
  currentTask : Option ℕ
  taskDeferred : Option ℕ
  mibDataSync : ℕ
  lastMibDbSync : Option ℕ
  deviceInDb : Bool
  onOltOnlyDiffs : Option (List Instance)
  onOnuOnlyDiffs : Option (List Instance)
  attrDiffs : Option (List InstanceAttribute)
  /-- the subscriptions to OMCI responses are set up -/
  subscribed : Bool
  /-- `mib_db_in_sync` of the device -/
  mibDbInSync : Bool
  /-- the device's row in the database -/
  database : Option DeviceRecord
  calls : List Call
  tasks : List QueuedTask
  nextCall : ℕ
  nextTask : ℕ
  activation : ℕ
  visits : ℕ

/-- What a task hands to its callback: the upload a text, the MDS tasks the MIB data sync of the
ONU, and the resynchronization the differences that it has found. -/
inductive Value where
  | text
  | mds (value : ℕ)
  | differences (onOltOnly onOnuOnly : List Instance) (attrDiffs : List InstanceAttribute)
  deriving DecidableEq

/-- The dictionary that `MibResyncTask` hands to its callback. -/
structure ResyncResults where
  onOltOnly : Option (List Instance)
  onOnuOnly : Option (List Instance)
  attrDiffs : Option (List InstanceAttribute)

/-- `perform_mib_resync`, the results it reports after the comparison of the databases. -/
def performMibResync (onOltOnly onOnuOnly : List Instance)
    (attrDiffs : List InstanceAttribute) : ResyncResults where
  onOltOnly := if onOltOnly.length ≠ 0 then some onOltOnly else none
  onOnuOnly := if onOnuOnly.length ≠ 0 then some onOnuOnly else none
  attrDiffs := if attrDiffs.length ≠ 0 then some attrDiffs else none

/-- A callback has raised. -/
inductive CallbackError where
  | typeError
  deriving DecidableEq

/-- `len(l)`. -/
def len {σ α : Type} : Option (List α) → Act σ CallbackError ℕ
  | none => Act.raise .typeError
  | some l => pure l.length

namespace MibSynchronizer

/-- `__init__`, for a database that may know the device from an earlier life. -/
def init (database : Option DeviceRecord) : MibSynchronizer where
  state := .disabled
  deferred := none
  currentTask := none
  taskDeferred := none
  mibDataSync := 0
  lastMibDbSync := none
  deviceInDb := false
  onOltOnlyDiffs := none
  onOnuOnlyDiffs := none
  attrDiffs := none
  subscribed := false
  mibDbInSync := false
  database := database
  calls := []
  tasks := []
  nextCall := 0
  nextTask := 0
  activation := 0
  visits := 0

/-- `self._deferred = reactor.callLater(delay, trigger)`. -/
def callLater (s : MibSynchronizer) (delay : ℕ) (trigger : Trigger) (activation : ℕ) :
    MibSynchronizer :=
  { s with
    calls := s.calls ++ [⟨s.nextCall, delay, trigger, activation⟩]
    deferred := some s.nextCall
    nextCall := s.nextCall + 1 }

/-- A task is made and queued, and gets its callbacks. -/
def queueTask (s : MibSynchronizer) (cls : TaskClass) : MibSynchronizer :=
  { s with
    tasks := s.tasks ++ [⟨s.nextTask, cls, false, s.activation, s.visits⟩]
    currentTask := some s.nextTask
    taskDeferred := some s.nextTask
    nextTask := s.nextTask + 1 }

/-- None of the three differences is set. -/
def noDiffs (s : MibSynchronizer) : Bool :=
  s.onOltOnlyDiffs.isNone && s.onOnuOnlyDiffs.isNone && s.attrDiffs.isNone

/-! ## Entering a state -/

variable (D : Delays)

/-- `_seed_database`. -/
def seedDatabase (s : MibSynchronizer) : MibSynchronizer :=
  if s.deviceInDb then s
  else
    match s.database with
    | none => { s with database := some ⟨0, none⟩, deviceInDb := true }
    | some r =>
      { s with mibDataSync := r.mibDataSync, lastMibDbSync := r.lastSync, deviceInDb := true }

def onEnterStarting (s : MibSynchronizer) : MibSynchronizer :=
  let s := { s.seedDatabase with subscribed := true }
  if s.lastMibDbSync = none then s.callLater 0 .uploadMib s.activation
  else s.callLater 0 .examineMds s.activation

def onEnterUploading (s : MibSynchronizer) : MibSynchronizer :=
  { s with mibDbInSync := false }.queueTask .mibUpload

def onEnterExaminingMds (s : MibSynchronizer) : MibSynchronizer :=
  { s with
    mibDataSync := (s.database.map DeviceRecord.mibDataSync).getD 0
    mibDbInSync := false }.queueTask .getMds

/-- `last_mib_db_sync`, the setter. -/
def saveLastSync (s : MibSynchronizer) (now : ℕ) : MibSynchronizer :=
  { s with
    lastMibDbSync := some now
    database := s.database.map fun r => { r with lastSync := some now } }

def onEnterInSync (s : MibSynchronizer) (now : ℕ) : MibSynchronizer :=
  let s := { s.saveLastSync now with mibDbInSync := true }
  if 0 < D.auditDelay then s.callLater D.auditDelay .auditMib s.activation else s

/-- The update of the ONU is still to be written in the source: with or without differences, all
that is done is to ask for an audit. -/
def onEnterOutOfSync (s : MibSynchronizer) : MibSynchronizer :=
  { s with mibDbInSync := false }.callLater 1 .auditMib s.activation

/-- When the next resynchronization is forced. -/
def nextResync (s : MibSynchronizer) (now : ℕ) : ℕ :=
  match s.lastMibDbSync with
  | some last => last + D.resyncDelay
  | none => now

def onEnterAuditing (s : MibSynchronizer) (now : ℕ) : MibSynchronizer :=
  if s.nextResync D now ≤ now then s.callLater 0 .forceResync s.activation
  else s.queueTask .mibAudit

def onEnterResynchronizing (s : MibSynchronizer) : MibSynchronizer := s.queueTask .mibResync

/-! ## The callbacks of the tasks -/

/-- `failure`, in every state with a task. -/
def onFailure (s : MibSynchronizer) (task : QueuedTask) : MibSynchronizer :=
  let s := { s with currentTask := none }
  let s := match task.cls with
    | .mibResync =>
      { s with onOltOnlyDiffs := none, onOnuOnlyDiffs := none, attrDiffs := none }
    | _ => s
  s.callLater D.timeoutDelay .timeout task.activation

/-- `success` of `on_enter_resynchronizing`. -/
def resyncSuccess (activation : ℕ) (results : ResyncResults) :
    Act MibSynchronizer CallbackError Unit := do
  Act.modify fun s => { s with currentTask := none }
  let n ← len results.onOltOnly
  Act.modify fun s => { s with onOltOnlyDiffs := if n ≠ 0 then results.onOltOnly else none }
  let n ← len results.onOnuOnly
  Act.modify fun s => { s with onOnuOnlyDiffs := if n ≠ 0 then results.onOnuOnly else none }
  let n ← len results.attrDiffs
  Act.modify fun s => { s with attrDiffs := if n ≠ 0 then results.attrDiffs else none }
  Act.modify fun s =>
    if s.noDiffs then s.callLater 0 .success activation
    else s.callLater 0 .diffsFound activation

/-- `success`, by the class of the task; `none` for a value that its task does not report.
An exception of the callback ends in the deferred. -/
def onSuccess (s : MibSynchronizer) (task : QueuedTask) : Value → Option MibSynchronizer
  | .text =>
    match task.cls with
    | .mibUpload => some ({ s with currentTask := none }.callLater 0 .success task.activation)
    | _ => none
  | .mds onuMdsValue =>
    match task.cls with
    | .getMds =>
      let s := { s with currentTask := none }
      some (if s.mibDataSync = onuMdsValue then s.callLater 0 .success task.activation
        else s.callLater 0 .mismatch task.activation)
    | .mibAudit =>
      let s := { s with currentTask := none }
      some (if s.mibDataSync = onuMdsValue then s.callLater 0 .success task.activation
        else { s with mibDbInSync := false }.callLater 0 .mismatch task.activation)
    | _ => none
  | .differences onOltOnly onOnuOnly attrDiffs =>
    match task.cls with
    | .mibResync =>
      some (resyncSuccess task.activation (performMibResync onOltOnly onOnuOnly attrDiffs) s).2
    | _ => none

/-! ## Stopping -/

/-- `_cancel_deferred`.  The loop goes over `[d1, d1]`, so that the deferred of the task is dropped
without being cancelled. -/
def cancelDeferred (s : MibSynchronizer) : MibSynchronizer :=
  { s with
    deferred := none
    taskDeferred := none
    calls := s.calls.filter fun c => some c.id ≠ s.deferred }

/-- The deferred of a task has fired. -/
def endTask (s : MibSynchronizer) (task : QueuedTask) : MibSynchronizer :=
  { s with tasks := s.tasks.erase task }

/-- `task.stop()`: its deferred is cancelled, which fires the callback for failures. -/
def stopTask (s : MibSynchronizer) (id : ℕ) : MibSynchronizer :=
  match s.tasks.find? fun task => task.id = id with
  | none => s
  | some task => (s.endTask task).onFailure D task

def onEnterDisabled (s : MibSynchronizer) : MibSynchronizer :=
  let s := { s.cancelDeferred with mibDbInSync := false }
  let s' := { s with currentTask := none }
  let s := match s.currentTask with
    | none => s'
    | some id => s'.stopTask D id
  { s with subscribed := false }

/-! ## The machine -/

/-- `on_enter_<state>` of the state just entered. -/
def onEnter (s : MibSynchronizer) (now : ℕ) : MibSynchronizer :=
  match s.state with
  | .disabled => s.onEnterDisabled D
  | .starting => s.onEnterStarting
  | .uploading => s.onEnterUploading
  | .examiningMds => s.onEnterExaminingMds
  | .inSync => s.onEnterInSync D now
  | .outOfSync => s.onEnterOutOfSync
  | .auditing => s.onEnterAuditing D now
  | .resynchronizing => s.onEnterResynchronizing

/-- The machine goes over to a state; a start begins an activation. -/
def enter (s : MibSynchronizer) (t : Trigger) (d : State) : MibSynchronizer :=
  { s with
    state := d
    visits := s.visits + 1
    activation := if t = .start then s.activation + 1 else s.activation }

/-- A trigger is pulled. -/
def pull (s : MibSynchronizer) (t : Trigger) (now : ℕ) : MibSynchronizer :=
  match dest t s.state with
  | none => s
  | some d => (s.enter t d).onEnter D now

/-- `increment_mib_data_sync`. -/
def incrementMibDataSync (s : MibSynchronizer) : MibSynchronizer :=
  let mds := if 255 < s.mibDataSync + 1 then 0 else s.mibDataSync + 1
  { s with
    mibDataSync := mds
    database := s.database.map fun r => { r with mibDataSync := mds } }

/-- `on_mib_reset_response`, for a reset that has succeeded. -/
def onMibResetResponse (s : MibSynchronizer) : MibSynchronizer :=
  if s.state = .uploading ∧ s.subscribed = true then
    { s with
      mibDbInSync := false
      mibDataSync := 0
      database := s.database.map fun r => { r with mibDataSync := 0 } }
  else s

end MibSynchronizer

/-- The commands of which the machine hears the responses. -/
inductive Command where
  | create
  | set
  | delete
  deriving DecidableEq

namespace MibSynchronizer

/-- `on_create_response`, `on_set_response` and `on_delete_response`, for a success that has changed
the database.  The handler of set responses logs a state in which it should not be called, and goes
on. -/
def onResponse (s : MibSynchronizer) : Command → MibSynchronizer
  | .set => if s.subscribed then s.incrementMibDataSync else s
  | .create | .delete =>
    if s.subscribed = true ∧ s.state ≠ .disabled ∧ s.state ≠ .uploading then s.incrementMibDataSync
    else s

end MibSynchronizer

/-- What happens to the machine: someone pulls a trigger, the reactor runs a delayed call, the task
runner starts a task, a task succeeds or fails, a response of the ONU comes in. -/
inductive Event where
  | pull (t : Trigger) (now : ℕ)
  | fire (call : ℕ) (now : ℕ)
  | begin (task : ℕ)
  | succeed (task : ℕ) (value : Value)
  | fail (task : ℕ)
  | mibReset
  | response (command : Command)
  deriving DecidableEq

namespace MibSynchronizer

variable (D : Delays)

/-- The delayed call with the given id. -/
def callOf (s : MibSynchronizer) (id : ℕ) : Option Call := s.calls.find? fun c => c.id = id

/-- The task with the given id. -/
def taskOf (s : MibSynchronizer) (id : ℕ) : Option QueuedTask := s.tasks.find? fun t => t.id = id

/-- The reactor runs a delayed call. -/
def fire (s : MibSynchronizer) (id now : ℕ) : MibSynchronizer :=
  match s.callOf id with
  | none => s
  | some c => { s with calls := s.calls.erase c }.pull D c.trigger now

/-- The task runner starts a task. -/
def beginTask (s : MibSynchronizer) (id : ℕ) : MibSynchronizer :=
  { s with tasks := s.tasks.map fun t => if t.id = id then { t with running := true } else t }

/-- A running task reports its value. -/
def succeed (s : MibSynchronizer) (id : ℕ) (value : Value) : MibSynchronizer :=
  match s.taskOf id with
  | none => s
  | some task =>
    if task.running then ((s.endTask task).onSuccess task value).getD s else s

/-- A task fails, or is cancelled by the task runner. -/
def fail (s : MibSynchronizer) (id : ℕ) : MibSynchronizer := s.stopTask D id

def step (s : MibSynchronizer) : Event → MibSynchronizer
  | .pull t now => s.pull D t now
  | .fire id now => s.fire D id now
  | .begin id => s.beginTask id
  | .succeed id value => s.succeed id value
  | .fail id => s.fail D id
  | .mibReset => s.onMibResetResponse
  | .response command => s.onResponse command

/-! ## What the callbacks do -/

/-- Only delayed calls have been added, and nothing else has changed on which triggers depend. -/
structure Adds (s s' : MibSynchronizer) (new : List Call) : Prop where
  state : s'.state = s.state
  visits : s'.visits = s.visits
  activation : s'.activation = s.activation
  tasks : s'.tasks = s.tasks
  calls : s'.calls = s.calls ++ new

/-- A call that a callback of the task may ask for. -/
structure FollowsUp (task : QueuedTask) (c : Call) : Prop where
  known : (dest c.trigger task.cls.state).isSome
  ne_stop : c.trigger ≠ .stop
  activation : c.activation = task.activation

section

variable (s : MibSynchronizer)
include s

theorem onFailure_adds (task : QueuedTask) :
    ∃ c, Adds s (s.onFailure D task) [c] ∧ FollowsUp task c := by
  refine ⟨⟨s.nextCall, D.timeoutDelay, .timeout, task.activation⟩, ?_, ?_, (nomatch ·), rfl⟩
  · unfold onFailure
    rcases task.cls
    all_goals exact ⟨rfl, rfl, rfl, rfl, rfl⟩
  · rcases task.cls
    all_goals rfl

/-- With differences of every kind, the callback of the resynchronization asks for one trigger. -/
theorem resyncSuccess_adds (activation : ℕ) {l l' : List Instance} {l'' : List InstanceAttribute}
    (hl : l ≠ []) (hl' : l' ≠ []) (hl'' : l'' ≠ []) :
    ∃ c, Adds s (resyncSuccess activation (performMibResync l l' l'') s).2 [c] ∧
      c.trigger = .diffsFound ∧ c.activation = activation := by
  rcases l with _ | ⟨x, l⟩
  · exact absurd rfl hl
  rcases l' with _ | ⟨x', l'⟩
  · exact absurd rfl hl'
  rcases l'' with _ | ⟨x'', l''⟩
  · exact absurd rfl hl''
  exact ⟨⟨s.nextCall, 0, .diffsFound, activation⟩, ⟨rfl, rfl, rfl, rfl, rfl⟩, rfl, rfl⟩

/-- Where a kind of difference is missing, the callback of the resynchronization takes the length of
`None`, and asks for no trigger. -/
theorem resyncSuccess_raises (activation : ℕ) {l l' : List Instance} {l'' : List InstanceAttribute}
    (h : l = [] ∨ l' = [] ∨ l'' = []) :
    (resyncSuccess activation (performMibResync l l' l'') s).1 = .error .typeError ∧
      Adds s (resyncSuccess activation (performMibResync l l' l'') s).2 [] := by
  have hnil : s.calls = s.calls ++ [] := (List.append_nil _).symm
  rcases l with _ | ⟨x, l⟩
  · exact ⟨rfl, rfl, rfl, rfl, rfl, hnil⟩
  rcases l' with _ | ⟨x', l'⟩
  · exact ⟨rfl, rfl, rfl, rfl, rfl, hnil⟩
  rcases l'' with _ | ⟨x'', l''⟩
  · exact ⟨rfl, rfl, rfl, rfl, rfl, hnil⟩
  · rcases h with h | h | h <;> cases h

omit s in
/-- The callback for success asks for one trigger, or for none where a resynchronization has not
found differences of every kind. -/
theorem onSuccess_adds {s s' : MibSynchronizer} {task : QueuedTask} {value : Value}
    (h : s.onSuccess task value = some s') :
    (∃ c, Adds s s' [c] ∧ FollowsUp task c) ∨ ∃ l l' l'', value = .differences l l' l'' ∧
      task.cls = .mibResync ∧ ¬ (l ≠ [] ∧ l' ≠ [] ∧ l'' ≠ []) ∧ Adds s s' [] := by
  -- a call for `t`, where the state of the task knows `t`
  have hone : ∀ {t : Trigger}, (dest t task.cls.state).isSome → t ≠ .stop →
      FollowsUp task ⟨s.nextCall, 0, t, task.activation⟩ := fun hknown hne => ⟨hknown, hne, rfl⟩
  rcases value with _ | onuMdsValue | ⟨l, l', l''⟩
  · rcases hcls : task.cls <;> simp only [onSuccess, hcls] at h hone <;> cases h
    exact .inl ⟨_, ⟨rfl, rfl, rfl, rfl, rfl⟩, hone (t := .success) rfl (nomatch ·)⟩
  · rcases hcls : task.cls <;> simp only [onSuccess, hcls] at h hone <;> cases h
    · split
      · exact .inl ⟨_, ⟨rfl, rfl, rfl, rfl, rfl⟩, hone (t := .success) rfl (nomatch ·)⟩
      · exact .inl ⟨_, ⟨rfl, rfl, rfl, rfl, rfl⟩, hone (t := .mismatch) rfl (nomatch ·)⟩
    · split
      · exact .inl ⟨_, ⟨rfl, rfl, rfl, rfl, rfl⟩, hone (t := .success) rfl (nomatch ·)⟩
      · exact .inl ⟨_, ⟨rfl, rfl, rfl, rfl, rfl⟩, hone (t := .mismatch) rfl (nomatch ·)⟩
  · rcases hcls : task.cls <;> simp only [onSuccess, hcls] at h hone <;> cases h
    by_cases hall : l ≠ [] ∧ l' ≠ [] ∧ l'' ≠ []
    · obtain ⟨c, hadds, htrigger, hact⟩ :=
        resyncSuccess_adds s task.activation hall.1 hall.2.1 hall.2.2
      refine .inl ⟨c, hadds, ?_, ?_, hact⟩
      · rw [htrigger, hcls]
        rfl
      · rw [htrigger]
        exact (nomatch ·)
    · refine .inr ⟨l, l', l'', rfl, rfl, hall, (resyncSuccess_raises s task.activation ?_).2⟩
      by_contra hne
      push Not at hne
      exact hall hne

/-! ## Entering a state keeps the state -/

theorem stopTask_state (id : ℕ) : (s.stopTask D id).state = s.state := by
  unfold stopTask
  split
  · rfl
  · obtain ⟨c, hadds, -⟩ := onFailure_adds D (s.endTask ‹_›) ‹_›
    exact hadds.state

theorem onEnterDisabled_state : (s.onEnterDisabled D).state = s.state := by
  unfold onEnterDisabled
  dsimp only
  split
  · rfl
  · exact stopTask_state D _ _

theorem seedDatabase_adds : Adds s s.seedDatabase [] := by
  have hnil : s.calls = s.calls ++ [] := (List.append_nil _).symm
  unfold seedDatabase
  split
  · exact ⟨rfl, rfl, rfl, rfl, hnil⟩
  · split <;> exact ⟨rfl, rfl, rfl, rfl, hnil⟩

theorem onEnter_state (now : ℕ) : (s.onEnter D now).state = s.state := by
  unfold onEnter
  split
  · exact onEnterDisabled_state D s
  · unfold onEnterStarting
    dsimp only
    split <;> exact (seedDatabase_adds s).state
  · rfl
  · rfl
  · unfold onEnterInSync
    split <;> rfl
  · rfl
  · unfold onEnterAuditing
    split <;> rfl
  · rfl

end

/-! ## What the events do that pull no trigger -/

/-- Tasks are changed at most in whether they run, or a task ends, and its callback asks for one
trigger or raises. -/
inductive Turn (s s' : MibSynchronizer) : Event → Prop where
  | kept {e : Event} (running : QueuedTask → Bool)
    (hadds : Adds { s with tasks := s.tasks.map fun t => { t with running := running t } } s' []) :
    Turn s s' e
  | ended {e : Event} {task : QueuedTask} {c : Call} (hmem : task ∈ s.tasks)
    (hadds : Adds (s.endTask task) s' [c]) (hfollows : FollowsUp task c) : Turn s s' e
  | raised {id : ℕ} {task : QueuedTask} {l l' : List Instance} {l'' : List InstanceAttribute}
    (htask : s.taskOf id = some task) (hrunning : task.running = true)
    (hcls : task.cls = .mibResync) (hnot : ¬ (l ≠ [] ∧ l' ≠ [] ∧ l'' ≠ []))
    (hadds : Adds (s.endTask task) s' []) : Turn s s' (.succeed id (.differences l l' l''))

variable {s s' : MibSynchronizer} {e : Event}

theorem Turn.same (hstate : s'.state = s.state) (hvisits : s'.visits = s.visits)
    (hactivation : s'.activation = s.activation) (htasks : s'.tasks = s.tasks)
    (hcalls : s'.calls = s.calls) : Turn s s' e :=
  .kept QueuedTask.running ⟨hstate, hvisits, hactivation, htasks.trans (List.map_id _).symm,
    hcalls.trans (List.append_nil _).symm⟩

theorem Turn.succeed (id : ℕ) (value : Value) :
    Turn s (s.succeed id value) (.succeed id value) := by
  unfold MibSynchronizer.succeed
  split
  · exact .same rfl rfl rfl rfl rfl
  · rename_i task htask
    split
    · rename_i hrunning
      rcases hs' : (s.endTask task).onSuccess task value with _ | s'
      · exact .same rfl rfl rfl rfl rfl
      · rw [Option.getD_some]
        rcases onSuccess_adds hs' with ⟨c, hadds, hfollows⟩ | ⟨l, l', l'', rfl, hcls, hnot, hadds⟩
        · exact .ended (List.mem_of_find?_eq_some htask) hadds hfollows
        · exact .raised htask hrunning hcls hnot hadds
    · exact .same rfl rfl rfl rfl rfl

/-- **Events that pull no trigger.** -/
theorem step_turn (hpull : ∀ t now, e ≠ .pull t now) (hfire : ∀ id now, e ≠ .fire id now) :
    Turn s (s.step D e) e := by
  cases e with
  | pull t now => exact absurd rfl (hpull t now)
  | fire id now => exact absurd rfl (hfire id now)
  | begin id =>
    refine .kept (fun t => t.id = id || t.running) ⟨rfl, rfl, rfl, ?_, (List.append_nil _).symm⟩
    refine List.map_congr_left fun t _ => ?_
    by_cases ht : t.id = id <;> simp [ht]
  | succeed id value => exact .succeed id value
  | fail id =>
    rw [step, fail, stopTask]
    split
    · exact .same rfl rfl rfl rfl rfl
    · rename_i task htask
      obtain ⟨c, hadds, hfollows⟩ := onFailure_adds D (s.endTask task) task
      exact .ended (List.mem_of_find?_eq_some htask) hadds hfollows
  | mibReset =>
    rw [step, onMibResetResponse]
    split
    · exact .same rfl rfl rfl rfl rfl
    · exact .same rfl rfl rfl rfl rfl
  | response command =>
    cases command <;> rw [step, onResponse] <;> split <;> exact .same rfl rfl rfl rfl rfl

end MibSynchronizer

end Voltha.Mib
