import Voltha.Lib.Run

/-!
# The session of the OpenFlow agent

`LocalHandler` serves one OpenFlow agent at a time.  The first `Subscribe` assigns the agent and
starts a heartbeat; further requests of the agent reset the counter of the heartbeat, and those of
other agents are turned down.  A heartbeat that finds the counter above its maximum terminates the
session, and the next agent may come.

The streams of packets and of change events go on while `ofagent_is_alive`.  A termination sets
this flag to false and nothing sets it to true again, so that an agent that subscribes after the
first session gets streams that end at once.

* `subscriber_stays`: a subscriber stays as long as it does not miss too many heartbeats.
* `streams_go_on_iff`: the streams of the subscriber go on in all states of a run exactly if nobody
  subscribes after a session was terminated.
-/

namespace Voltha.Core

/-- The part of `LocalHandler` that belongs to the session. -/
structure Session where
  stopped : Bool
  /-- the `ofagent_id` of the subscriber -/
  subscriber : Option String
  ofagentHeartbeatCount : ℕ
  /-- the `LoopingCall`, if there is one, and whether it runs -/
  ofagentHeartbeatLc : Option Bool
  ofagentIsAlive : Bool
  /-- how many sessions were terminated, for the statements -/
  terminated : ℕ
  deriving DecidableEq

namespace Session

def init : Session := ⟨false, none, 0, none, true, 0⟩

/-- `_ofagent_session_termination`.  A `LoopingCall` that does not run cannot be stopped. -/
def ofagentSessionTermination (s : Session) : Except String Session :=
  if s.ofagentHeartbeatLc = some false then
    .error "AssertionError: Tried to stop a LoopingCall that was not running."
  else
    .ok { s with
      ofagentHeartbeatLc := s.ofagentHeartbeatLc.map fun _ => false
      ofagentIsAlive := false
      subscriber := none
      ofagentHeartbeatCount := 0
      terminated := s.terminated + 1 }

/-- `_ofagent_session_heartbeat`; `maxCount` is `ofagent_heartbeat_max_count`. -/
def ofagentSessionHeartbeat (maxCount : ℕ) (s : Session) : Session :=
  if s.ofagentHeartbeatCount > maxCount then
    match s.ofagentSessionTermination with
    | .ok s' => s'
    | .error _ => s
  else { s with ofagentHeartbeatCount := s.ofagentHeartbeatCount + 1 }

/-- `Subscribe`.  A `LoopingCall` that is started makes its first call at once. -/
def subscribe (maxCount : ℕ) (s : Session) (ofagentId : String) : Session :=
  match s.subscriber with
  | none =>
    { s with
      subscriber := some ofagentId
      ofagentHeartbeatCount := 0
      ofagentHeartbeatLc := some true }.ofagentSessionHeartbeat maxCount
  | some current => if current = ofagentId then { s with ofagentHeartbeatCount := 0 } else s

/-- `stop`, which stops the `LoopingCall` once more in the termination. -/
def stop (s : Session) : Session :=
  match s.ofagentHeartbeatLc with
  | some _ => { s with stopped := true, ofagentHeartbeatLc := some false }
  | none =>
    match { s with stopped := true }.ofagentSessionTermination with
    | .ok s' => s'
    | .error _ => { s with stopped := true }

/-- One round of the loop of `ReceivePacketsIn` and `ReceiveChangeEvents`: whether the stream goes
on when the queue is empty, or is not. -/
def goesOn (s : Session) (empty : Bool) : Bool :=
  s.ofagentIsAlive && !(empty && s.stopped)

end Session

/-- What happens to the session. -/
inductive SessionEvent where
  | subscribe (ofagentId : String)
  /-- the time of the `LoopingCall` has come -/
  | tick
  | stop
  deriving DecidableEq

/-- The session after an event. -/
def Session.step (maxCount : ℕ) (s : Session) : SessionEvent → Session
  | .subscribe ofagentId => s.subscribe maxCount ofagentId
  | .tick => if s.ofagentHeartbeatLc = some true then s.ofagentSessionHeartbeat maxCount else s
  | .stop => s.stop

open Session

/-- The session after a sequence of events. -/
def Session.run (maxCount : ℕ) (events : List SessionEvent) : Session :=
  events.foldl (step maxCount) init

section

variable {maxCount : ℕ} {s : Session}

/-! ## A subscriber stays -/

/-- A heartbeat as long as the counter is not above its maximum. -/
theorem heartbeat_of_le (h : s.ofagentHeartbeatCount ≤ maxCount) :
    s.ofagentSessionHeartbeat maxCount =
      { s with ofagentHeartbeatCount := s.ofagentHeartbeatCount + 1 } :=
  if_neg (Nat.not_lt.mpr h)

/-- The first request. -/
theorem subscribe_of_none (h : s.subscriber = none) (a : String) :
    s.subscribe maxCount a = { s with
      subscriber := some a, ofagentHeartbeatCount := 1, ofagentHeartbeatLc := some true } := by
  rw [subscribe, h]
  exact heartbeat_of_le (Nat.zero_le _)

/-- The counter after a request that assigns or confirms the subscriber. -/
theorem count_of_subscribe {a : String} (h : (s.subscribe maxCount a).subscriber = some a) :
    (s.subscribe maxCount a).ofagentHeartbeatCount ≤ 1 := by
  rcases hsub : s.subscriber with _ | current
  · exact Nat.le_of_eq (congrArg ofagentHeartbeatCount (subscribe_of_none hsub a))
  · rw [subscribe, hsub] at h ⊢
    dsimp only at h ⊢
    by_cases heq : current = a
    · rw [if_pos heq]
      exact Nat.zero_le 1
    · rw [if_neg heq, hsub] at h
      exact absurd (Option.some.inj h) heq

/-- One event that is neither a request of the subscriber nor a stop. -/
theorem subscriber_step {a : String} {event : SessionEvent} (hsub : s.subscriber = some a)
    (hcount : event = .tick → s.ofagentHeartbeatCount ≤ maxCount) (hne : event ≠ .subscribe a)
    (hstop : event ≠ .stop) :
    (s.step maxCount event).subscriber = some a ∧
      (s.step maxCount event).ofagentHeartbeatCount ≤
        s.ofagentHeartbeatCount + if event = .tick then 1 else 0 := by
  cases event with
  | subscribe b =>
    have hb : a ≠ b := fun heq => hne (by rw [heq])
    rw [step, subscribe, hsub]
    dsimp only
    rw [if_neg hb]
    exact ⟨hsub, Nat.le_add_right _ _⟩
  | tick =>
    rw [step]
    split
    · rw [heartbeat_of_le (hcount rfl)]
      exact ⟨hsub, Nat.le_refl _⟩
    · exact ⟨hsub, Nat.le_add_right _ _⟩
  | stop => exact absurd rfl hstop

/-- **A subscriber stays** while it does not miss too many heartbeats. -/
theorem subscriber_stays {a : String} {events : List SessionEvent}
    (hevents : ∀ event ∈ events, event ≠ .subscribe a ∧ event ≠ .stop) :
    ∀ {s : Session}, s.subscriber = some a →
      s.ofagentHeartbeatCount + events.count .tick ≤ maxCount + 1 →
      (events.foldl (step maxCount) s).subscriber = some a := by
  induction events with
  | nil => exact fun h _ => h
  | cons event events ih =>
    intro s hsub hcount
    obtain ⟨⟨hne, hstop⟩, hrest⟩ := List.forall_mem_cons.mp hevents
    rw [List.count_cons] at hcount
    have htick : event = .tick → s.ofagentHeartbeatCount ≤ maxCount := by
      rintro rfl
      rw [beq_self_eq_true, if_pos rfl] at hcount
      omega
    obtain ⟨hsub', hle⟩ := subscriber_step hsub htick hne hstop
    refine ih hrest hsub' ?_
    by_cases heq : event = .tick
    · rw [if_pos (beq_iff_eq.mpr heq)] at hcount
      rw [if_pos heq] at hle
      omega
    · rw [if_neg heq] at hle
      omega

/-! ## The streams -/

/-- While there is a subscriber and the handler is not stopped, the flag is set and the streams go
on. -/
def StreamsGoOn (s : Session) : Prop :=
  s.stopped = false → s.subscriber.isSome → s.ofagentIsAlive = true ∧ ∀ empty, s.goesOn empty = true

/-- Nobody subscribes after a session was terminated, until the handler is stopped. -/
def FirstSession (s : Session) : SessionEvent → Prop
  | .subscribe _ => s.stopped = false → s.terminated = 0
  | _ => True

/-- The flag says that no session was terminated, and a subscriber is there only in the first
session. -/
structure SessionInv (s : Session) : Prop where
  alive : s.ofagentIsAlive = true ↔ s.terminated = 0
  first : s.stopped = false → s.subscriber.isSome → s.terminated = 0

theorem SessionInv.streams (h : SessionInv s) : StreamsGoOn s := by
  intro hstop hsub
  have halive := h.alive.mpr (h.first hstop hsub)
  refine ⟨halive, fun empty => ?_⟩
  rw [goesOn, halive, hstop, Bool.and_false]
  rfl

theorem sessionInv_termination {s' : Session}
    (ht : s.ofagentSessionTermination = .ok s') : SessionInv s' := by
  rw [ofagentSessionTermination] at ht
  split at ht
  · cases ht
  · cases ht
    exact ⟨by simp, nofun⟩

theorem SessionInv.heartbeat (h : SessionInv s) :
    SessionInv (s.ofagentSessionHeartbeat maxCount) := by
  rw [ofagentSessionHeartbeat]
  split
  · split
    · next ht => exact sessionInv_termination ht
    · exact h
  · exact ⟨h.alive, h.first⟩

theorem SessionInv.step (h : SessionInv s) {event : SessionEvent} (hc : FirstSession s event) :
    SessionInv (s.step maxCount event) := by
  cases event with
  | subscribe a =>
    rw [Session.step]
    rcases hsub : s.subscriber with _ | current
    · rw [subscribe_of_none hsub]
      exact ⟨h.alive, fun hstop _ => hc hstop⟩
    · rw [subscribe, hsub]
      dsimp only
      split
      · exact ⟨h.alive, fun hstop _ => h.first hstop (by rw [hsub]; rfl)⟩
      · exact h
  | tick =>
    rw [Session.step]
    split
    · exact h.heartbeat
    · exact h
  | stop =>
    rw [Session.step, Session.stop]
    have hstopped : SessionInv { s with stopped := true } := ⟨h.alive, nofun⟩
    split
    · exact ⟨h.alive, nofun⟩
    · split
      · next ht => exact sessionInv_termination ht
      · exact hstopped

/-- A request after a session was terminated gets an agent whose streams end. -/
theorem not_streams_of_subscribe (h : SessionInv s) {event : SessionEvent}
    (hc : ¬ FirstSession s event) : ¬ StreamsGoOn (s.step maxCount event) := by
  cases event with
  | subscribe a =>
    rw [FirstSession, Classical.not_imp] at hc
    obtain ⟨hstop, hterm⟩ := hc
    have hnone : s.subscriber = none := by
      rw [← Option.not_isSome_iff_eq_none]
      exact fun hsub => hterm (h.first hstop hsub)
    rw [step, subscribe_of_none hnone]
    intro hgo
    exact hterm (h.alive.mp (hgo hstop rfl).1)
  | tick => exact absurd trivial hc
  | stop => exact absurd trivial hc

/-- **The streams of the subscriber go on in all states of a run** exactly if nobody subscribes
after a session was terminated. -/
theorem streams_go_on_iff (events : List SessionEvent) :
    AllAlong (step maxCount) FirstSession init events ↔
      ∀ events', events' <+: events → StreamsGoOn (run maxCount events') :=
  allAlong_iff (fun _ h => h.streams) (fun _ _ h hc => h.step hc)
    (fun _ _ h hc => not_streams_of_subscribe h hc) ⟨by decide, nofun⟩

end

/-- **The sessions of the OpenFlow agents.**  A subscriber stays until more heartbeats than the
maximum have passed since its last request; and its streams go on in all states of a run exactly if
nobody subscribes after a session was terminated. -/
theorem ofagent_sessions (maxCount : ℕ) :
    (∀ (before after : List SessionEvent) (a : String),
      (run maxCount (before ++ [.subscribe a])).subscriber = some a →
      (∀ event ∈ after, event ≠ .subscribe a ∧ event ≠ .stop) → after.count .tick ≤ maxCount →
      (run maxCount (before ++ [.subscribe a] ++ after)).subscriber = some a) ∧
    ∀ events, (∀ events', events' <+: events → StreamsGoOn (run maxCount events')) ↔
      AllAlong (step maxCount) FirstSession init events := by
  refine ⟨?_, fun events => (streams_go_on_iff events).symm⟩
  intro before after a hsub hafter hcount
  rw [run, List.foldl_append]
  refine subscriber_stays hafter hsub ?_
  rw [run, List.foldl_append] at hsub
  have hle := count_of_subscribe hsub
  rw [List.foldl_append]
  rw [Nat.add_comm maxCount 1]
  exact Nat.add_le_add hle hcount

/-- A second agent subscribes after the session of the first one was terminated: it is assigned,
but its streams end at once. -/
theorem second_session_has_no_streams :
    let s := run 3 [.subscribe "a", .tick, .tick, .tick, .tick, .subscribe "b"]
    s.subscriber = some "b" ∧ s.stopped = false ∧ s.ofagentIsAlive = false ∧
      s.goesOn false = false := by
  decide

end Voltha.Core
