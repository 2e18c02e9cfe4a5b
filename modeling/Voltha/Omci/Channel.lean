import Voltha.Omci.OmciCc

/-!
# Enabling and disabling, and the messages that an ONU sends on its own

Setting `enabled` starts or stops the channel, and both are meant to flush it.  `flush` has a
`yield` in its body: a call of it makes a generator, and since nobody iterates the generator, no
line of the body is run.  What is outstanding when the channel is disabled stays in `_requests`,
and its deferreds are not cancelled.  For the same reason the flush in `send` takes nothing away.

A frame with the transaction id 0 goes to one of three queues of limited size.  Attribute value
changes are put into the queue of the alarms, and there is no count of the test results that found
their queue full.

* `drained_iff`: disabling drains the channel exactly if nothing is outstanding.
* `queues_apart_iff`: each queue is filled as if it were the only one exactly if the channel was
  not stopped before, attribute value changes come only while they are refused anyway, and test
  results find room.
-/

namespace Voltha.Omci

open OrderedDict Function Option

/-! ## The channel -/

/-- `DeferredQueue` with its limit, and the messages that it has handed out. -/
structure DeferredQueue (α : Type) where
  size : ℕ
  pending : List α := []
  /-- how many deferreds wait for a message -/
  waiting : ℕ := 0
  handed : List α := []

namespace DeferredQueue

variable {α : Type}

/-- `put`, with `none` for a `QueueOverflow`. -/
def put (q : DeferredQueue α) (x : α) : Option (DeferredQueue α) :=
  if 0 < q.waiting then some { q with waiting := q.waiting - 1, handed := q.handed ++ [x] }
  else if q.pending.length < q.size then some { q with pending := q.pending ++ [x] }
  else none

/-- `get`: the first message, or a deferred that waits for one. -/
def get (q : DeferredQueue α) : DeferredQueue α :=
  match q.pending with
  | x :: l => { q with pending := l, handed := q.handed ++ [x] }
  | [] => { q with waiting := q.waiting + 1 }

theorem ne_of_put {q q' : DeferredQueue α} {x : α} (h : q.put x = some q') : q' ≠ q := by
  rintro rfl
  rw [put] at h
  split at h
  · have hhanded := congrArg handed (some.inj h)
    simp at hhanded
  · split at h
    · have hpending := congrArg pending (some.inj h)
      simp at hpending
    · cases h

end DeferredQueue

/-- The messages that an ONU sends on its own. -/
inductive Autonomous where
  | alarm
  | avc
  | testResult
  deriving DecidableEq

/-- The value of `EntityOperations` for the message. -/
def Autonomous.msgType : Autonomous → ℕ
  | .alarm => 16
  | .avc => 17
  | .testResult => 27

/-- `OMCI_CC` with what depends on `enabled`. -/
structure Channel where
  cc : OmciCc
  enabled : Bool
  proxyAddress : Option String
  /-- `_alarm_queue`, `_avc_queue` and `_test_results_queue`, which are `None` after a stop -/
  queues : Option (Autonomous → DeferredQueue RxFrame)
  /-- `_rx_alarm_overflow` and `_rx_avc_overflow`; there is no count of test results -/
  overflow : Autonomous → ℕ
  rxOnuDiscards : ℕ

/-- `send` of a frame that may have a transaction id. -/
def OmciCc.sendFrame (c : OmciCc) (tid : Option ℤ) (timer transmitted : Bool) : OmciCc :=
  match tid with
  | none => c.send timer transmitted
  | some (.ofNat tid) =>
    if (get c.requests tid).isSome then c.sendFailed
    else if transmitted then c.sent tid timer
    else c.sendFailed
  | some (.negSucc _) => c.sendFailed

namespace Channel

/-- A new channel with the limits of its queues. -/
def init (limit : Autonomous → ℕ) : Channel where
  cc := .init
  enabled := false
  proxyAddress := none
  queues := some fun kind => { size := limit kind }
  overflow := fun _ => 0
  rxOnuDiscards := 0

/-- `flush`.  The call makes a generator that is never run. -/
def flush (c : Channel) (_maxAge : ℕ) : Channel := c

/-- `_start`, with the proxy address of the device. -/
def start (c : Channel) (proxyAddress : Option String) : Channel :=
  { c.flush 0 with proxyAddress }

/-- `_stop`. -/
def stop (c : Channel) : Channel := { c.flush 0 with proxyAddress := none, queues := none }

/-- `enabled` is set. -/
def setEnabled (c : Channel) (value : Bool) (proxyAddress : Option String) : Channel :=
  if c.enabled = value then c
  else if value then { c with enabled := true }.start proxyAddress
  else { c with enabled := false }.stop

/-- `MAX_OMCI_REQUEST_AGE`. -/
def maxOmciRequestAge : ℕ := 60

/-- `send`. -/
def send (c : Channel) (tid : Option ℤ) (timer transmitted : Bool) : Channel :=
  let c := c.flush maxOmciRequestAge
  if c.enabled = true ∧ c.proxyAddress.isSome then
    { c with cc := c.cc.sendFrame tid timer transmitted }
  else c

/-- `put` into one of the queues, with the counts after a `QueueOverflow`.  The exception that there
is no queue is logged in `receive_message`. -/
def put (c : Channel) (queue : Autonomous) (f : RxFrame) (overflow : Autonomous → ℕ) : Channel :=
  match c.queues with
  | none => c
  | some queues =>
    match (queues queue).put f with
    | some q => { c with queues := some (update queues queue q) }
    | none => { c with overflow }

/-- The counts with one more for a kind of messages. -/
def countOverflow (c : Channel) (kind : Autonomous) : Autonomous → ℕ :=
  update c.overflow kind (c.overflow kind + 1)

open Autonomous

/-- `_receive_onu_message`. -/
def receiveOnuMessage (c : Channel) (f : RxFrame) (msgType : ℕ) : Channel :=
  if msgType = alarm.msgType then c.put .alarm f (c.countOverflow .alarm)
  -- the queue is that of the alarms
  else if msgType = avc.msgType then c.put .alarm f (c.countOverflow .avc)
  else if msgType = testResult.msgType then c.put .testResult f c.overflow
  else { c with rxOnuDiscards := c.rxOnuDiscards + 1 }

/-- `receive_message` of a message with its decoded content and its type. -/
def receiveMessage (c : Channel) (d : Decoded) (msgType : ℕ) : Channel :=
  if c.enabled then
    let c := { c with cc := c.cc.receiveMessage d }
    match d with
    | .frame f => if f.tid = 0 then c.receiveOnuMessage f msgType else c
    | _ => c
  else c

/-- `get_alarm_message`, `get_avc_message` and `get_test_results`. -/
def getMessage (c : Channel) (kind : Autonomous) : Channel :=
  { c with queues := c.queues.map fun queues => update queues kind (queues kind).get }

/-! ## Disabling -/

/-- The channel `c` was drained when it became `c'`. -/
structure Drained (c c' : Channel) : Prop where
  none : ∀ r q, ¬ c'.cc.Outstanding r q
  cancelled : ∀ r q, c.cc.Outstanding r q → c'.cc.Called r
  discarded : ∀ queues, c'.queues = some queues → ∀ kind, (queues kind).pending = []

/-- What was outstanding still is, and what was in `_requests` still is. -/
structure Kept (c c' : OmciCc) : Prop where
  outstanding : ∀ r q, c.Outstanding r q → c'.Outstanding r q
  requests : ∀ tid r, get c.requests tid = some r →
    get c'.requests tid = some r

end Channel

namespace OmciCc

open Channel (Kept)

variable {c c' c'' : OmciCc}

theorem Same.kept (h : Same c c') : Kept c c' where
  outstanding _ _ := h.outstanding.mpr
  requests _ _ := by simp [h.requests]

theorem kept_sent (h : Same c c') {tid : ℕ}
    (hnone : (get c'.requests tid).isSome = false)
    (timer : Bool) : Kept c (c'.sent tid timer) where
  outstanding r q hq := by
    obtain ⟨hs, ha, hc⟩ := h.outstanding.mpr hq
    exact ⟨getElem?_sent.mpr (Or.inl hs), ha, hc⟩
  requests tid' r hr := by
    rw [← h.requests] at hr
    have hne : tid' ≠ tid := by
      rintro rfl
      simp [hr] at hnone
    exact (get_insert ..).trans ((if_neg hne).trans hr)

/-- Sending under an id that is not in use takes nothing out of `_requests`. -/
theorem kept_sendFrame (c : OmciCc) (tid : Option ℤ) (timer transmitted : Bool) :
    Kept c (c.sendFrame tid timer transmitted) := by
  have hbody : ∀ {c'} tid, Same c c' →
      Kept c (if (get c'.requests tid).isSome then c'.sendFailed
        else if transmitted then c'.sent tid timer else c'.sendFailed) := by
    intro c' tid h
    split
    · exact (h.trans (Same.sendFailed c')).kept
    · next hfree =>
      split
      · exact kept_sent h (by simpa using hfree) timer
      · exact (h.trans (Same.sendFailed c')).kept
  rcases tid with _ | tid | tid
  · exact hbody c.txTid (Same.getTxTid c)
  · exact hbody tid (Same.stats c c.stats)
  · exact (Same.sendFailed c).kept

end OmciCc

open Channel

/-- **Disabling drains the channel exactly if nothing is outstanding**, and sending never takes away
what is. -/
theorem drained_iff (c : Channel) (henabled : c.enabled = true) :
    (Drained c (c.setEnabled false none) ↔ ∀ r q, ¬ c.cc.Outstanding r q) ∧
      ∀ tid timer transmitted, Kept c.cc (c.send tid timer transmitted).cc := by
  have hstop : c.setEnabled false none = { c with enabled := false }.stop := by
    simp [setEnabled, henabled]
  refine ⟨⟨fun h r q => ?_, fun h => ?_⟩, fun tid timer transmitted => ?_⟩
  · rw [hstop] at h
    exact h.none r q
  · rw [hstop]
    exact ⟨h, fun r q hq => absurd hq (h r q), nofun⟩
  · rw [send, flush]
    split
    · exact OmciCc.kept_sendFrame c.cc tid timer transmitted
    · exact ⟨fun _ _ hq => hq, fun _ _ hr => hr⟩

/-- An enabled channel. -/
def Channel.sample : Channel := (init fun _ => 1).setEnabled true (some "address")

/-- A request was sent. -/
def Channel.busy : Channel := Channel.sample.send none true true

/-- The request was answered, and an alarm is in its queue. -/
def Channel.served : Channel :=
  (Channel.busy.receiveMessage (.frame ⟨1, 5⟩) 0).receiveMessage (.frame ⟨0, 7⟩)
    Autonomous.alarm.msgType

/-- Disabling drains the channel with the answered request and the alarm, and a second request
leaves the first one outstanding. -/
theorem drained_sample :
    Channel.served.cc.answered = [0] ∧
      (Channel.served.queues.map fun queues => (queues .alarm).pending) = some [⟨0, 7⟩] ∧
      Drained Channel.served (Channel.served.setEnabled false none) ∧
      (Channel.busy.send none true true).cc.Outstanding 0 ⟨1, true, 0⟩ := by
  refine ⟨by decide, by decide, (drained_iff Channel.served (by decide)).1.mpr ?_,
    ((drained_iff Channel.busy (by decide)).2 none true true).outstanding 0 _
      ⟨by decide, by decide, by decide⟩⟩
  rintro (_ | r) q ⟨hsent, hanswered, -⟩
  · exact hanswered (by decide)
  · cases hsent

/-- **A request that was sent is still outstanding after the channel was disabled.** -/
theorem disabled_not_drained :
    ¬ Drained Channel.busy (Channel.busy.setEnabled false none) := fun h =>
  h.none 0 ⟨1, true, 0⟩ ⟨by decide, by decide, by decide⟩

/-! ## The queues -/

/-- What happens to the queues: a frame with the transaction id 0 and some type and content arrives,
or a message is asked for. -/
inductive QueueEvent where
  | frame (msgType content : ℕ)
  | get (kind : Autonomous)

/-- The channel after an event. -/
def Channel.queueStep (c : Channel) : QueueEvent → Channel
  | .frame msgType content => c.receiveMessage (.frame ⟨0, content⟩) msgType
  | .get kind => c.getMessage kind

/-- A queue for one kind of messages only, with the number of the frames that it has refused. -/
def Autonomous.apart (kind : Autonomous) :
    DeferredQueue RxFrame × ℕ → QueueEvent → DeferredQueue RxFrame × ℕ
  | (q, refused), .frame msgType content =>
    if msgType = kind.msgType then
      match q.put ⟨0, content⟩ with
      | some q => (q, refused)
      | none => (q, refused + 1)
    else (q, refused)
  | (q, refused), .get kind' => (if kind' = kind then q.get else q, refused)

/-- Each queue is as if it had been the only one since the counts were `before`. -/
def Channel.Apart (before : Autonomous → ℕ) (c : Channel)
    (apart : Autonomous → DeferredQueue RxFrame × ℕ) : Prop :=
  c.queues = some (fun kind => (apart kind).1) ∧
    c.overflow = fun kind => before kind + (apart kind).2

/-- An attribute value change finds its own queue and that of the alarms full, and a test result
finds room. -/
def Channel.Fits (c : Channel) : QueueEvent → Prop
  | .frame msgType content => ∀ queues, c.queues = some queues →
    (msgType = Autonomous.avc.msgType →
      (queues .alarm).put ⟨0, content⟩ = none ∧ (queues .avc).put ⟨0, content⟩ = none) ∧
    (msgType = Autonomous.testResult.msgType → (queues .testResult).put ⟨0, content⟩ ≠ none)
  | .get _ => True

section Queues

variable {before : Autonomous → ℕ} {c : Channel} {apart : Autonomous → DeferredQueue RxFrame × ℕ}
  {event : QueueEvent}

theorem Channel.enabled_queueStep (event : QueueEvent) :
    (c.queueStep event).enabled = c.enabled := by
  cases event with
  | get kind => rfl
  | frame msgType content =>
    simp only [queueStep, receiveMessage, receiveOnuMessage, put]
    split_ifs <;> (repeat' split) <;> rfl

/-- **A step keeps the queues apart exactly if it fits.** -/
theorem Channel.Apart.step_iff (h : c.Apart before apart) (henabled : c.enabled = true) :
    (c.queueStep event).Apart before (fun kind => kind.apart (apart kind) event) ↔
      c.Fits event := by
  obtain ⟨hqueues, hover⟩ := h
  cases event with
  | get kind =>
    refine iff_of_true ⟨?_, hover⟩ trivial
    simp only [queueStep, getMessage, hqueues, map_some]
    congr 1
    funext k
    by_cases hk : k = kind
    · simp [Autonomous.apart, hk]
    · simp [Autonomous.apart, hk, Ne.symm hk]
  | frame msgType content =>
    simp only [queueStep, receiveMessage, henabled, if_true, receiveOnuMessage, put, countOverflow,
      Apart, Fits, hqueues, hover, some.injEq, forall_eq']
    split_ifs with halarm havc htest
    · subst halarm
      refine iff_of_true ?_ ⟨nofun, nofun⟩
      rcases hput : (apart .alarm).1.put ⟨0, content⟩ with _ | q
      · refine ⟨congrArg some (funext fun k => ?_), funext fun k => ?_⟩
        · cases k <;> simp [Autonomous.apart, Autonomous.msgType, hput]
        · cases k <;> simp [Autonomous.apart, Autonomous.msgType, hput, Nat.add_assoc]
      · refine ⟨congrArg some (funext fun k => ?_), funext fun k => ?_⟩
        · cases k <;> simp [Autonomous.apart, Autonomous.msgType, hput]
        · cases k <;> simp [Autonomous.apart, Autonomous.msgType, hput]
    · subst havc
      rcases halarm : (apart .alarm).1.put ⟨0, content⟩ with _ | q
      · rcases havc : (apart .avc).1.put ⟨0, content⟩ with _ | q
        · refine iff_of_true ⟨congrArg some (funext fun k => ?_), funext fun k => ?_⟩
            ⟨fun _ => ⟨rfl, rfl⟩, nofun⟩
          · cases k <;> simp [Autonomous.apart, Autonomous.msgType, havc]
          · cases k <;> simp [Autonomous.apart, Autonomous.msgType, havc, Nat.add_assoc]
        · refine iff_of_false (fun h => ?_) fun h => nomatch (h.1 rfl).2
          have hq := congrFun (some.inj h.1) .avc
          simp only [Autonomous.apart, if_true, havc] at hq
          exact DeferredQueue.ne_of_put havc hq.symm
      · refine iff_of_false (fun h => ?_) fun h => nomatch (h.1 rfl).1
        have hq := congrFun (some.inj h.1) .alarm
        simp only [update_self, Autonomous.apart, Autonomous.msgType] at hq
        exact DeferredQueue.ne_of_put halarm hq
    · subst htest
      rcases htest : (apart .testResult).1.put ⟨0, content⟩ with _ | q
      · refine iff_of_false (fun h => ?_) fun h => h.2 rfl rfl
        have hcount := congrFun h.2 .testResult
        simp [Autonomous.apart, htest] at hcount
      · refine iff_of_true ⟨congrArg some (funext fun k => ?_), funext fun k => ?_⟩
          ⟨nofun, fun _ => nofun⟩
        · cases k <;> simp [Autonomous.apart, Autonomous.msgType, htest]
        · cases k <;> simp [Autonomous.apart, Autonomous.msgType, htest]
    · refine iff_of_true ⟨congrArg some (funext fun k => ?_), funext fun k => ?_⟩
        ⟨fun h => absurd h havc, fun h => absurd h htest⟩
      · cases k <;> simp [Autonomous.apart, halarm, havc, htest]
      · cases k <;> simp [Autonomous.apart, halarm, havc, htest]

/-- A run keeps the queues apart exactly if all its events fit. -/
theorem Channel.Apart.run_iff {events : List QueueEvent} :
    ∀ {c : Channel} {apart : Autonomous → DeferredQueue RxFrame × ℕ}, c.enabled = true →
      c.Apart before apart → (AllAlong queueStep Fits c events ↔ ∀ l, l <+: events →
        (l.foldl queueStep c).Apart before fun kind => l.foldl kind.apart (apart kind)) := by
  induction events with
  | nil =>
    intro c apart _ h
    simpa [AllAlong] using h
  | cons event events ih =>
    intro c apart henabled h
    have henabled' := (c.enabled_queueStep event).trans henabled
    constructor
    · rintro ⟨hfits, hall⟩ l hl
      rcases l with _ | ⟨event', l⟩
      · exact h
      · obtain ⟨rfl, htail⟩ := List.cons_prefix_cons.mp hl
        exact (ih henabled' ((h.step_iff henabled).mpr hfits)).mp hall l htail
    · intro hall
      have hstep := hall [event] (List.prefix_append [event] events)
      exact ⟨(h.step_iff henabled).mp hstep, (ih henabled' hstep).mpr fun l hl =>
        hall (event :: l) (List.cons_prefix_cons.mpr ⟨rfl, hl⟩)⟩

end Queues

/-- **Each queue receives the messages of its kind**, in their order and up to its limit, and its
overflow count grows with each message that it refuses, exactly if the queues are there and all
events fit. -/
theorem queues_apart_iff (c : Channel) (henabled : c.enabled = true)
    (queues : Autonomous → DeferredQueue RxFrame) (events : List QueueEvent) :
    c.queues = some queues ∧ AllAlong queueStep Fits c events ↔ ∀ l, l <+: events →
      (l.foldl queueStep c).Apart c.overflow fun kind => l.foldl kind.apart (queues kind, 0) := by
  constructor
  · rintro ⟨hqueues, hall⟩
    exact (Apart.run_iff henabled ⟨hqueues, rfl⟩).mp hall
  · intro h
    have hqueues : c.queues = some queues := (h [] List.nil_prefix).1
    exact ⟨hqueues, (Apart.run_iff henabled ⟨hqueues, rfl⟩).mpr h⟩

/-- Two alarms, the second of which is refused, and a test result. -/
def mixedEvents : List QueueEvent := [.frame 16 0, .frame 16 1, .frame 27 2, .get .testResult]

theorem queues_apart_sample :
    (mixedEvents.foldl queueStep Channel.sample).Apart Channel.sample.overflow
        (fun kind => mixedEvents.foldl kind.apart ({ size := 1 }, 0)) ∧
      (mixedEvents.foldl queueStep Channel.sample).overflow .alarm = 1 := by
  refine ⟨(queues_apart_iff Channel.sample (by decide) _ mixedEvents).mp ⟨rfl, ?_⟩ _
    List.prefix_rfl, by decide⟩
  refine ⟨fun _ _ => ⟨nofun, nofun⟩, fun _ _ => ⟨nofun, nofun⟩, fun queues h => ⟨nofun, ?_⟩,
    trivial, trivial⟩
  obtain rfl := some.inj h
  exact fun _ => nofun

/-- **An attribute value change ends up in the queue of the alarms.** -/
theorem avc_in_alarm_queue :
    ¬ (Channel.sample.queueStep (.frame 17 0)).Apart Channel.sample.overflow
      fun kind => kind.apart ({ size := 1 }, 0) (.frame 17 0) := fun h => by
  have hpending := congrArg DeferredQueue.pending (congrFun (some.inj h.1) .avc)
  exact absurd hpending (by decide)

end Voltha.Omci
