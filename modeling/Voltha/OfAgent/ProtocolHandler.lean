import Voltha.Lib.Run

/-!
# The OpenFlow protocol handler

`OpenFlowProtocolHandler` of `of_protocol_handler.py`, and what the handlers of the connections of
one `Agent` share.  A handler answers the messages of a controller in a loop, which starts when a
compatible hello has been received.  Some messages are answered at once; others call VOLTHA, and a
coroutine answers them when the call has returned.  An error of such a coroutine stays in its
`Deferred`, but an error that a handler raises at once ends the loop.

A controller asks for a role, with a generation id if the role is `MASTER` or `SLAVE`.  The agent
keeps the last generation id that was accepted, for all its connections.

* `staleTest_iff`: when the test of the code finds a generation id stale.
* `rolesFollowed_iff`: **roles follow the rule of OpenFlow exactly if no two ids in succession
  differ by** `2 ^ 63` **or more upwards, or by exactly** `2 ^ 63` **downwards**.
* `answered_iff`: **all echo and barrier requests of a connection are answered in their order
  exactly if none of them comes after a message whose handler raises an error**.
-/

namespace Voltha.OfAgent

open List Option

/-! ## Messages -/

/-- `OFPCR_ROLE_*`. -/
inductive Role where
  | noChange
  | equal
  | master
  | slave
  | other (n : ℕ)
  deriving DecidableEq

/-- `OFPST_*`. -/
inductive StatsType where
  | desc
  | flow
  | aggregate
  | table
  | port
  | queue
  | group
  | groupDesc
  | groupFeatures
  | meter
  | meterConfig
  | meterFeatures
  | tableFeatures
  | portDesc
  | experimenter
  | other (n : ℕ)
  deriving DecidableEq

/-- The messages with a handler, and the others.  Those that are passed on to VOLTHA can be
converted by `to_grpc` or not. -/
inductive Body where
  | barrierRequest
  | echoRequest
  | featuresRequest
  | experimenter
  | flowMod (convertible : Bool)
  | getAsyncRequest
  | getConfigRequest
  | groupMod (convertible : Bool)
  | meterMod
  | packetOut (convertible : Bool)
  | portMod (portDown : Bool)
  | queueGetConfigRequest
  | roleRequest (role : Role) (generationId : BitVec 64)
  | setAsync
  | setConfig
  | statsRequest (type : StatsType)
  | tableMod
  | unhandled (type : ℕ)
  deriving DecidableEq

structure Message where
  xid : ℕ
  body : Body
  deriving DecidableEq

/-- The messages that are sent. -/
inductive Reply where
  | echoReply
  | barrierReply
  | featuresReply
  | getConfigReply
  | roleReply (role : Role) (generationId : Option (BitVec 64))
  | statsReply (type : StatsType)
  | isSlaveError
  | staleError
  | badRequestError
  | packetIn
  deriving DecidableEq

/-- The calls of VOLTHA. -/
inductive Rpc where
  | getDeviceInfo
  | updateFlowTable
  | updateGroupTable
  | sendPacketOut
  | getPort
  | enablePort
  | disablePort
  | listFlows
  | listGroups
  | listPorts
  | getPortList
  deriving DecidableEq

/-- What a handler does: a message is sent, with the xid of the request or one of its own, or VOLTHA
is called. -/
inductive Output where
  | sent (xid : Option ℕ) (reply : Reply)
  | called (rpc : Rpc)
  deriving DecidableEq

/-- A coroutine that waits for VOLTHA. -/
inductive Pending where
  | reply (xid : ℕ) (reply : Reply)
  | portMod (portDown : Bool)
  deriving DecidableEq

/-- What a call of VOLTHA returns: a failure, or an answer that can be converted or not, which for a
port says whether it is down. -/
inductive RpcResult where
  | failed
  | answered (convertible portDown : Bool)
  deriving DecidableEq

/-! ## Handlers -/

/-- A handler, and whether its loop runs. -/
structure Handler where
  role : Option Role
  running : Bool
  pending : List Pending
  deriving DecidableEq

namespace Handler

/-- A new handler, with the loop for the messages after the hello. -/
def started : Handler := ⟨none, true, []⟩

/-- The test of `handle_role_request`, on unbounded integers. -/
def staleTest (generationId cached : BitVec 64) : Bool :=
  let difference : ℤ := generationId.toNat - cached.toNat
  decide ((if difference.natAbs > 0x7fffffffffffffff then difference % 0x10000000000000000
    else difference) < 0)

/-- What a handler does for a controller with a role that may change the switch.  A slave gets an
error, and a controller without a role nothing. -/
def asMaster (h : Handler) (changed : Handler) (out : List Output) : Handler × List Output :=
  if h.role = some .master ∨ h.role = some .equal then (changed, out)
  else if h.role = some .slave then (h, [.sent none .isSlaveError])
  else (h, [])

/-- VOLTHA is called, and the reply sent when it has answered. -/
def ask (h : Handler) (rpc : Rpc) (xid : ℕ) (reply : Reply) : Handler × List Output :=
  ({ h with pending := h.pending ++ [.reply xid reply] }, [.called rpc])

/-- `handle_role_request`, with the last generation id that was accepted. -/
def handleRoleRequest (generation : Option (BitVec 64)) (h : Handler) (xid : ℕ) (role : Role)
    (generationId : BitVec 64) : Option (BitVec 64) × Handler × List Output :=
  if role = .master ∨ role = .slave then
    if generation.any fun cached => staleTest generationId cached then
      (generation, h, [.sent none .staleError])
    else (some generationId, { h with role := some role },
      [.sent (some xid) (.roleReply role (some generationId))])
  else if role = .equal then
    (generation, { h with role := some role }, [.sent (some xid) (.roleReply role none)])
  else (generation, h, [])

/-- `handle_stats_request`; nothing for an error that is raised. -/
def handleStatsRequest (h : Handler) (xid : ℕ) : StatsType → Option (Handler × List Output)
  | .desc => some (h.ask .getDeviceInfo xid (.statsReply .desc))
  | .flow => some (h.ask .listFlows xid (.statsReply .flow))
  | .group => some (h.ask .listGroups xid (.statsReply .group))
  | .groupDesc => some (h.ask .listGroups xid (.statsReply .groupDesc))
  | .port => some (h.ask .listPorts xid (.statsReply .port))
  | .portDesc => some (h.ask .getPortList xid (.statsReply .portDesc))
  | .meter => some (h, [.sent (some xid) (.statsReply .meter)])
  | .table => some (h, [.sent (some xid) (.statsReply .table)])
  | .meterFeatures => some (h, [.sent none .badRequestError])
  | .aggregate | .experimenter | .groupFeatures | .meterConfig | .queue | .tableFeatures => none
  | .other _ => none

/-- The handler of a message; nothing for an error that is raised. -/
def handle (generation : Option (BitVec 64)) (h : Handler) (m : Message) :
    Option (Option (BitVec 64) × Handler × List Output) :=
  match m.body with
  | .barrierRequest => some (generation, h, [.sent (some m.xid) .barrierReply])
  | .echoRequest => some (generation, h, [.sent (some m.xid) .echoReply])
  | .featuresRequest => some (generation, h.ask .getDeviceInfo m.xid .featuresReply)
  | .flowMod convertible =>
    some (generation, h.asMaster h (if convertible then [.called .updateFlowTable] else []))
  | .groupMod convertible =>
    some (generation, h.asMaster h (if convertible then [.called .updateGroupTable] else []))
  | .getConfigRequest => some (generation, h, [.sent (some m.xid) .getConfigReply])
  | .packetOut convertible =>
    -- here the conversion is made in the loop
    if (h.role = some .master ∨ h.role = some .equal) ∧ convertible = false then none
    else some (generation, h.asMaster h [.called .sendPacketOut])
  | .portMod portDown =>
    some (generation, h.asMaster { h with pending := h.pending ++ [.portMod portDown] }
      [.called .getPort])
  | .roleRequest role generationId =>
    some (handleRoleRequest generation h m.xid role generationId)
  | .setConfig => some (generation, h, [])
  | .statsRequest type => (handleStatsRequest h m.xid type).map (generation, ·)
  | .experimenter | .getAsyncRequest | .meterMod | .queueGetConfigRequest | .setAsync
  | .tableMod => none
  | .unhandled _ => some (generation, h, [])

/-- A coroutine goes on when VOLTHA has answered. -/
def finish : Pending → RpcResult → List Output
  | _, .failed => []
  | .reply xid reply, .answered convertible _ =>
    if convertible then [.sent (some xid) reply] else []
  | .portMod portDown, .answered _ isDown =>
    if isDown = portDown then [] else [.called (if portDown then .disablePort else .enablePort)]

end Handler

/-! ## Agents -/

/-- The handlers of the connections of an agent, the last generation id that was accepted, and what
the handlers have done so far. -/
structure Agent where
  generation : Option (BitVec 64)
  handlers : List Handler
  log : List (ℕ × Output)
  deriving DecidableEq

namespace Agent

def init : Agent := ⟨none, [], []⟩

/-- A connection is made, and its handler becomes the `proto_handler`.  What it receives are the
messages that come after a compatible hello. -/
def connect (s : Agent) : Agent := { s with handlers := s.handlers ++ [Handler.started] }

/-- A message is received. -/
def receive (s : Agent) (c : ℕ) (m : Message) : Agent :=
  match s.handlers[c]? with
  | none => s
  | some h =>
    if h.running then
      match h.handle s.generation m with
      | some (generation, h', out) => {
          generation := generation
          handlers := s.handlers.set c h'
          log := s.log ++ out.map (c, ·) }
      | none => { s with handlers := s.handlers.set c { h with running := false } }
    else s

/-- VOLTHA answers a call. -/
def rpcAnswer (s : Agent) (c i : ℕ) (result : RpcResult) : Agent :=
  match s.handlers[c]? with
  | none => s
  | some h => match h.pending[i]? with
    | none => s
    | some p => { s with
        handlers := s.handlers.set c { h with pending := h.pending.eraseIdx i }
        log := s.log ++ (Handler.finish p result).map (c, ·) }

/-- `forward_packet_in`, by the handler of the last connection. -/
def forwardPacketIn (s : Agent) : Agent :=
  match s.handlers.getLast? with
  | none => s
  | some h =>
    if h.role = some .master ∨ h.role = some .equal then
      { s with log := s.log ++ [(s.handlers.length - 1, .sent none .packetIn)] }
    else s

inductive Event where
  | connect
  | receive (c : ℕ) (m : Message)
  | rpcAnswer (c i : ℕ) (result : RpcResult)
  | packetIn
  deriving DecidableEq

def step (s : Agent) : Event → Agent
  | .connect => s.connect
  | .receive c m => s.receive c m
  | .rpcAnswer c i result => s.rpcAnswer c i result
  | .packetIn => s.forwardPacketIn

end Agent

/-! ## Generation ids -/

/-- The difference of two generation ids, read as a signed number of 64 bits, is negative. -/
def SignedLess (a b : BitVec 64) : Prop := (a - b).toInt < 0

instance (a b : BitVec 64) : Decidable (SignedLess a b) :=
  inferInstanceAs (Decidable ((a - b).toInt < 0))

/-- The difference of two generation ids. -/
abbrev difference (a b : BitVec 64) : ℤ := a.toNat - b.toNat

theorem signedLess_iff (a b : BitVec 64) :
    SignedLess a b ↔ 2 ^ 63 ≤ difference a b ∨ -2 ^ 63 ≤ difference a b ∧ difference a b < 0 := by
  have ha := a.isLt
  have hb := b.isLt
  rw [SignedLess, BitVec.toInt_eq_toNat_cond, BitVec.toNat_sub]
  unfold difference
  split
  · omega
  · omega

/-- **The test of the code.** -/
theorem staleTest_iff (a b : BitVec 64) :
    Handler.staleTest a b = true ↔ -2 ^ 63 < difference a b ∧ difference a b < 0 := by
  rw [Handler.staleTest, decide_eq_true_iff]
  unfold difference
  split
  · omega
  · omega

/-- The ids that the test gets wrong. -/
def Misjudged (a b : BitVec 64) : Prop := 2 ^ 63 ≤ difference a b ∨ difference a b = -2 ^ 63

/-- All ids that the test gets wrong are stale, and not found so. -/
theorem misjudged_iff (a b : BitVec 64) :
    Misjudged a b ↔ SignedLess a b ∧ Handler.staleTest a b = false := by
  rw [Misjudged, signedLess_iff, ← Bool.not_eq_true, staleTest_iff]
  omega

theorem staleTest_iff_signedLess {a b : BitVec 64} (h : ¬ Misjudged a b) :
    Handler.staleTest a b = true ↔ SignedLess a b := by
  rw [Misjudged] at h
  rw [signedLess_iff, staleTest_iff]
  omega

/-! ## Roles -/

/-- The messages by which a controller changes the switch. -/
def Body.Changes : Body → Prop
  | .flowMod _ | .groupMod _ | .portMod _ | .packetOut _ => True
  | _ => False

variable {h : Handler} {m : Message} {generationId : BitVec 64}

namespace Agent

/-- A controller asks for the role of master or of slave. -/
structure AsksRole (s : Agent) (e : Event) (c : ℕ) (h : Handler) (xid : ℕ) (role : Role)
    (generationId : BitVec 64) : Prop where
  event : e = .receive c ⟨xid, .roleRequest role generationId⟩
  handler : s.handlers[c]? = some h
  running : h.running = true
  exclusive : role = .master ∨ role = .slave

/-- A generation id is stale after those that were accepted. -/
def Stale (s : Agent) (generationId : BitVec 64) : Prop :=
  ∃ cached, s.generation = some cached ∧ SignedLess generationId cached

/-- The calls of VOLTHA in a log. -/
def calls (log : List (ℕ × Output)) : List (ℕ × Output) :=
  log.filter fun entry => match entry.2 with
    | .called _ => true
    | .sent _ _ => false

/-- What the rules of OpenFlow say of an event. -/
structure FollowsRules (s : Agent) (e : Event) : Prop where
  refused : ∀ {c h xid role generationId}, s.AsksRole e c h xid role generationId →
    s.Stale generationId → s.step e = { s with log := s.log ++ [(c, .sent none .staleError)] }
  accepted : ∀ {c h xid role generationId}, s.AsksRole e c h xid role generationId →
    ¬ s.Stale generationId → s.step e = {
      generation := some generationId
      handlers := s.handlers.set c { h with role := some role }
      log := s.log ++ [(c, .sent (some xid) (.roleReply role (some generationId)))] }
  /-- No other event changes the generation id. -/
  kept : (∀ c h xid role generationId, ¬ s.AsksRole e c h xid role generationId) →
    (s.step e).generation = s.generation
  /-- Nothing that a slave sends is forwarded, and no coroutine is left that could do it later. -/
  slave : ∀ {c h m}, e = .receive c m → s.handlers[c]? = some h → h.role = some .slave →
    m.body.Changes → calls (s.step e).log = calls s.log ∧ (s.step e).handlers = s.handlers
  /-- A slave gets no packets. -/
  packetIn : ∀ {h}, e = .packetIn → s.handlers.getLast? = some h → h.role = some .slave →
    (s.step e).log = s.log

/-- No generation id comes that the test gets wrong. -/
def Comparable (s : Agent) (e : Event) : Prop :=
  ∀ {c h xid role generationId cached}, s.AsksRole e c h xid role generationId →
    s.generation = some cached → ¬ Misjudged generationId cached

section Roles

variable {s : Agent} {e : Event}

/-- The generation id is found stale. -/
theorem any_staleTest_iff
    (h : ∀ cached, s.generation = some cached → ¬ Misjudged generationId cached) :
    (s.generation.any fun cached => Handler.staleTest generationId cached) = true ↔
      s.Stale generationId := by
  rw [Option.any_eq_true]
  constructor
  · rintro ⟨cached, hcached, hstale⟩
    exact ⟨cached, hcached, (staleTest_iff_signedLess (h cached hcached)).1 hstale⟩
  · rintro ⟨cached, hcached, hless⟩
    exact ⟨cached, hcached, (staleTest_iff_signedLess (h cached hcached)).2 hless⟩

variable {c : ℕ}

theorem set_self_of_getElem? {l : List Handler} (hc : l[c]? = some h) : l.set c h = l := by
  obtain ⟨hlt, rfl⟩ := List.getElem?_eq_some_iff.1 hc
  exact set_getElem_self hlt

/-- What a request for a role does. -/
theorem step_of_asksRole {xid : ℕ} {role : Role} (hask : s.AsksRole e c h xid role generationId) :
    s.step e =
      if s.generation.any fun cached => Handler.staleTest generationId cached then
        { s with log := s.log ++ [(c, .sent none .staleError)] }
      else {
        generation := some generationId
        handlers := s.handlers.set c { h with role := some role }
        log := s.log ++ [(c, .sent (some xid) (.roleReply role (some generationId)))] } := by
  obtain ⟨rfl, hhandler, hrunning, hrole⟩ := hask
  rw [step, receive, hhandler]
  dsimp only
  rw [if_pos hrunning, Handler.handle]
  dsimp only
  rw [Handler.handleRoleRequest, if_pos hrole]
  by_cases hstale : s.generation.any fun cached => Handler.staleTest generationId cached
  · rw [if_pos hstale, if_pos hstale]
    rw [set_self_of_getElem? hhandler]
    rfl
  · rw [if_neg hstale, if_neg hstale]
    rfl

/-- The handlers change the generation id only for such a request. -/
theorem generation_handle {generation : Option (BitVec 64)}
    {result : Option (BitVec 64) × Handler × List Output}
    (hres : h.handle generation m = some result) :
    result.1 = generation ∨ ∃ role generationId, m.body = .roleRequest role generationId ∧
      (role = .master ∨ role = .slave) := by
  unfold Handler.handle at hres
  split at hres
  case h_7 =>
    split at hres
    · cases hres
    · cases hres
      exact .inl rfl
  case h_9 role generationId hbody =>
    cases hres
    rw [Handler.handleRoleRequest]
    split
    · next hrole => exact .inr ⟨role, generationId, hbody, hrole⟩
    · split
      · exact .inl rfl
      · exact .inl rfl
  case h_11 =>
    obtain ⟨out, -, rfl⟩ := map_eq_some_iff.1 hres
    exact .inl rfl
  all_goals
    cases hres
    try exact .inl rfl

/-- A slave gets an error for a message that would change the switch. -/
theorem handle_of_slave {generation : Option (BitVec 64)} (hrole : h.role = some .slave)
    (hbody : m.body.Changes) :
    h.handle generation m = some (generation, h, [.sent none .isSlaveError]) := by
  have hnot : ¬ (h.role = some .master ∨ h.role = some .equal) := by
    rw [hrole]
    decide
  have hmaster : ∀ changed out, h.asMaster changed out = (h, [.sent none .isSlaveError]) := by
    intro changed out
    rw [Handler.asMaster, if_neg hnot, if_pos hrole]
  rw [Handler.handle]
  split
  all_goals try exact absurd hbody (by rename_i heq; rw [heq]; exact id)
  case h_7 => rw [if_neg fun h => hnot h.1, hmaster]
  all_goals rw [hmaster]

theorem calls_append (log log' : List (ℕ × Output)) :
    calls (log ++ log') = calls log ++ calls log' := filter_append _ _

theorem generation_step
    (hnone : ∀ c h xid role generationId, ¬ s.AsksRole e c h xid role generationId) :
    (s.step e).generation = s.generation := by
  cases e with
  | connect => rfl
  | packetIn =>
    rw [step, forwardPacketIn]
    split
    · rfl
    · split
      · rfl
      · rfl
  | rpcAnswer c i result =>
    rw [step, rpcAnswer]
    split
    · rfl
    · split
      · rfl
      · rfl
  | receive c m =>
    rw [step, receive]
    split
    · rfl
    · next h hhandler =>
      by_cases hrunning : h.running = true
      · rw [if_pos hrunning]
        split
        · next generation h' out hhandle =>
          rcases generation_handle hhandle with hsame | ⟨role, generationId, hbody, hrole⟩
          · exact hsame
          · refine absurd ⟨?_, hhandler, hrunning, hrole⟩
              (hnone c h m.xid role generationId)
            rw [← hbody]
        · rfl
      · rw [if_neg hrunning]

theorem slave_step (he : e = .receive c m) (hhandler : s.handlers[c]? = some h)
    (hrole : h.role = some .slave) (hbody : m.body.Changes) :
    calls (s.step e).log = calls s.log ∧ (s.step e).handlers = s.handlers := by
  subst he
  rw [step, receive, hhandler]
  dsimp only
  by_cases hrunning : h.running = true
  · rw [if_pos hrunning, handle_of_slave hrole hbody]
    dsimp only
    rw [calls_append, set_self_of_getElem? hhandler]
    exact ⟨append_nil _, rfl⟩
  · rw [if_neg hrunning]
    exact ⟨rfl, rfl⟩

theorem packetIn_step (he : e = .packetIn) (hlast : s.handlers.getLast? = some h)
    (hrole : h.role = some .slave) : (s.step e).log = s.log := by
  subst he
  rw [step, forwardPacketIn, hlast]
  dsimp only
  rw [if_neg]
  rw [hrole]
  decide

/-- **An event follows the rules exactly if it is comparable.** -/
theorem comparable_iff (s : Agent) (e : Event) : s.Comparable e ↔ s.FollowsRules e := by
  constructor
  · intro hcomparable
    exact
      { refused := fun hask hstale => by
          rw [step_of_asksRole hask,
            if_pos ((any_staleTest_iff fun _ => hcomparable hask).2 hstale)]
        accepted := fun hask hstale => by
          rw [step_of_asksRole hask,
            if_neg fun h => hstale ((any_staleTest_iff fun _ => hcomparable hask).1 h)]
        kept := generation_step
        slave := slave_step
        packetIn := packetIn_step }
  · intro hrules c h xid role generationId cached hask hcached hmisjudged
    obtain ⟨hless, htest⟩ := (misjudged_iff _ _).1 hmisjudged
    -- the rule refuses the id, and the code accepts it
    have hrefused := hrules.refused hask ⟨cached, hcached, hless⟩
    have hany : ¬ s.generation.any fun cached => Handler.staleTest generationId cached := by
      rw [hcached, any_some, htest]
      exact Bool.false_ne_true
    rw [step_of_asksRole hask, if_neg hany] at hrefused
    have hlog := append_cancel_left (congrArg Agent.log hrefused)
    cases hlog

/-- **Roles follow the rules of OpenFlow in a run exactly if no generation id comes that is**
`2 ^ 63` **or more above the last one, or exactly** `2 ^ 63` **below it.** -/
theorem rolesFollowed_iff (events : List Event) :
    AllAlong step Comparable init events ↔ AllAlong step FollowsRules init events :=
  allAlong_congr (I := fun _ => True) (fun _ _ _ _ => trivial)
    (fun s e _ => comparable_iff s e) trivial

/-- A controller becomes master with the id zero.  The id `2 ^ 63` is then accepted, though its
difference is negative. -/
theorem stale_master_accepted :
    ¬ AllAlong step FollowsRules init
      [.connect, .receive 0 ⟨1, .roleRequest .master 0⟩,
        .receive 0 ⟨2, .roleRequest .master (2 ^ 63)⟩] := by
  rintro ⟨-, -, hrules, -⟩
  have hstep := hrules.refused (c := 0) (h := ⟨some .master, true, []⟩) ⟨rfl, rfl, rfl, .inl rfl⟩
    ⟨0, rfl, by decide +kernel⟩
  exact absurd (congrArg generation hstep) (by decide +kernel)

end Roles

end Agent

/-! ## Echo and barrier requests -/

/-- The statistics whose handler raises an error, and those without a handler. -/
def StatsType.Unsupported : StatsType → Prop
  | .aggregate | .experimenter | .groupFeatures | .meterConfig | .queue | .tableFeatures => True
  | .other _ => True
  | _ => False

/-- The messages whose handler raises an error in every state. -/
def Body.Unsupported : Body → Prop
  | .experimenter | .getAsyncRequest | .meterMod | .queueGetConfigRequest | .setAsync
  | .tableMod => True
  | .statsRequest type => type.Unsupported
  | _ => False

/-- The reply that an echo or barrier request is to get. -/
def Message.due (m : Message) : Option (Option ℕ × Reply) :=
  match m.body with
  | .echoRequest => some (some m.xid, .echoReply)
  | .barrierRequest => some (some m.xid, .barrierReply)
  | _ => none

/-- The echo and barrier replies, with their xids. -/
def Output.answer : Output → Option (Option ℕ × Reply)
  | .sent xid .echoReply => some (xid, .echoReply)
  | .sent xid .barrierReply => some (xid, .barrierReply)
  | _ => none

/-- A coroutine that sends no echo or barrier reply. -/
def Pending.Quiet : Pending → Prop
  | .reply _ r => r ≠ .echoReply ∧ r ≠ .barrierReply
  | .portMod _ => True

namespace Handler

variable {generation : Option (BitVec 64)} {h : Handler} {m : Message}

/-- A message by which a loop ends. -/
def Fatal (h : Handler) (m : Message) : Prop :=
  m.body.Unsupported ∨
    m.body = .packetOut false ∧ (h.role = some .master ∨ h.role = some .equal)

theorem handleStatsRequest_eq_none_iff (h : Handler) (xid : ℕ) (type : StatsType) :
    h.handleStatsRequest xid type = none ↔ type.Unsupported := by
  cases type <;> simp [handleStatsRequest, StatsType.Unsupported]

/-- **The messages whose handler raises an error.** -/
theorem handle_eq_none_iff : h.handle generation m = none ↔ h.Fatal m := by
  rw [Fatal, handle]
  cases hbody : m.body with
  | packetOut convertible =>
    cases convertible with
    | false => simp [Body.Unsupported, or_iff_not_imp_left]
    | true => simp [Body.Unsupported]
  | statsRequest type =>
    simp [Body.Unsupported, handleStatsRequest_eq_none_iff]
  | _ => simp [Body.Unsupported]

/-- What a handler that raises no error leaves and sends. -/
structure Served (h : Handler) (m : Message) (h' : Handler) (out : List Output) : Prop where
  running : h'.running = h.running
  pending : ∀ p ∈ h'.pending, p ∈ h.pending ∨ p.Quiet
  answer : out.filterMap Output.answer = m.due.toList

section Served

variable (hdue : m.due = none)
include hdue

variable {out : List Output}

theorem served_role {role : Option Role} (hout : out.filterMap Output.answer = []) :
    Served h m { h with role := role } out :=
  ⟨rfl, fun _ => .inl, by rw [hout, hdue, toList_none]⟩

theorem served_self (hout : out.filterMap Output.answer = []) : Served h m h out :=
  served_role hdue hout

theorem served_pending {p : Pending} (hp : p.Quiet) (hout : out.filterMap Output.answer = []) :
    Served h m { h with pending := h.pending ++ [p] } out := by
  refine ⟨rfl, fun q hq => ?_, by rw [hout, hdue, toList_none]⟩
  rcases mem_append.1 hq with hq | hq
  · exact .inl hq
  · exact .inr (mem_singleton.1 hq ▸ hp)

theorem served_ask {rpc : Rpc} {reply : Reply} (hecho : reply ≠ .echoReply)
    (hbarrier : reply ≠ .barrierReply) :
    Served h m (h.ask rpc m.xid reply).1 (h.ask rpc m.xid reply).2 :=
  served_pending hdue (p := .reply m.xid reply) ⟨hecho, hbarrier⟩ rfl

theorem served_asMaster {changed : Handler} (hserved : Served h m changed out) :
    Served h m (h.asMaster changed out).1 (h.asMaster changed out).2 := by
  rw [asMaster]
  split
  · exact hserved
  · split
    · exact served_self hdue rfl
    · exact served_self hdue rfl

theorem served_handleRoleRequest {role : Role} :
    Served h m (handleRoleRequest generation h m.xid role generationId).2.1
      (handleRoleRequest generation h m.xid role generationId).2.2 := by
  rw [handleRoleRequest]
  split
  · split
    · exact served_self hdue rfl
    · exact served_role hdue rfl
  · split
    · exact served_role hdue rfl
    · exact served_self hdue rfl

theorem served_handleStatsRequest {type : StatsType} {result : Handler × List Output}
    (hresult : h.handleStatsRequest m.xid type = some result) : Served h m result.1 result.2 := by
  cases type with
  | desc | flow | group | groupDesc | port | portDesc =>
    cases hresult
    exact served_ask hdue nofun nofun
  | meter | table | meterFeatures =>
    cases hresult
    exact served_self hdue rfl
  | aggregate | experimenter | groupFeatures | meterConfig | queue | tableFeatures | other =>
    cases hresult

end Served

/-- A handler that raises no error answers an echo or barrier request, and no other message with
such a reply. -/
theorem served_of_handle {result : Option (BitVec 64) × Handler × List Output}
    (hhandle : h.handle generation m = some result) : Served h m result.2.1 result.2.2 := by
  rw [handle] at hhandle
  obtain ⟨xid, body⟩ := m
  cases body with
  | barrierRequest | echoRequest =>
    cases hhandle
    exact ⟨rfl, fun _ => .inl, rfl⟩
  | featuresRequest =>
    cases hhandle
    exact served_ask rfl nofun nofun
  | getConfigRequest | setConfig | unhandled =>
    cases hhandle
    exact served_self rfl rfl
  | flowMod convertible | groupMod convertible =>
    cases hhandle
    refine served_asMaster rfl (served_self rfl ?_)
    cases convertible with
    | false => rfl
    | true => rfl
  | packetOut convertible =>
    dsimp only at hhandle
    split at hhandle
    · cases hhandle
    · cases hhandle
      exact served_asMaster rfl (served_self rfl rfl)
  | portMod portDown =>
    cases hhandle
    exact served_asMaster rfl (served_pending rfl (p := .portMod portDown) trivial rfl)
  | roleRequest role generationId =>
    cases hhandle
    exact served_handleRoleRequest rfl
  | statsRequest type =>
    obtain ⟨result, hresult, rfl⟩ := map_eq_some_iff.1 hhandle
    exact served_handleStatsRequest rfl hresult
  | experimenter | getAsyncRequest | meterMod | queueGetConfigRequest | setAsync | tableMod =>
    cases hhandle

end Handler

namespace Agent

/-- The echo and barrier replies sent on a connection. -/
def answered (c : ℕ) (log : List (ℕ × Output)) : List (Option ℕ × Reply) :=
  log.filterMap fun entry => if entry.1 = c then entry.2.answer else none

/-- The replies due for the echo and barrier requests received on a connection. -/
def due (c : ℕ) (events : List Event) : List (Option ℕ × Reply) :=
  events.filterMap fun
    | .receive c' m => if c' = c then m.due else none
    | _ => none

/-- A message that ends the loop of a connection. -/
def Fatal (s : Agent) (c : ℕ) (e : Event) : Prop :=
  ∃ h m, e = .receive c m ∧ s.handlers[c]? = some h ∧ h.Fatal m

/-- A connection whose loop runs or has ended, and whose coroutines send no echo or barrier
reply. -/
def Connected (s : Agent) (c : ℕ) (running : Bool) : Prop :=
  ∃ h, s.handlers[c]? = some h ∧ h.running = running ∧ ∀ p ∈ h.pending, p.Quiet

section Answered

variable {s : Agent} {c : ℕ} {running : Bool}

theorem answered_append (log log' : List (ℕ × Output)) :
    answered c (log ++ log') = answered c log ++ answered c log' := filterMap_append

theorem answered_map_self (out : List Output) :
    answered c (out.map (c, ·)) = out.filterMap Output.answer := by
  rw [answered, filterMap_map]
  exact congrArg (List.filterMap · out) (funext fun _ => if_pos rfl)

variable {c' : ℕ}

theorem answered_map_of_ne (hne : c' ≠ c) (out : List Output) :
    answered c (out.map (c', ·)) = [] := by
  rw [answered, filterMap_map, filterMap_eq_nil_iff]
  exact fun _ _ => if_neg hne

theorem due_append (events events' : List Event) :
    due c (events ++ events') = due c events ++ due c events' := filterMap_append

theorem due_receive_self (m : Message) : due c [.receive c m] = m.due.toList := by
  rw [due, filterMap_cons]
  dsimp only
  rw [if_pos rfl]
  cases m.due with
  | none => rfl
  | some reply => rfl

theorem due_receive_of_ne (hne : c' ≠ c) (m : Message) : due c [.receive c' m] = [] := by
  rw [due, filterMap_cons]
  dsimp only
  rw [if_neg hne, filterMap_nil]

/-- A message that ends the loop gets no reply. -/
theorem due_of_fatal (hfatal : h.Fatal m) : m.due = none := by
  rw [Message.due]
  cases hbody : m.body with
  | barrierRequest | echoRequest =>
    rw [Handler.Fatal, hbody] at hfatal
    rcases hfatal with hunsupported | ⟨hpacketOut, -⟩
    · exact hunsupported.elim
    · cases hpacketOut
  | _ => rfl

/-- The coroutines send no echo or barrier reply. -/
theorem answer_finish {p : Pending} (hp : p.Quiet) (result : RpcResult) :
    (Handler.finish p result).filterMap Output.answer = [] := by
  cases result with
  | failed =>
    cases p with
    | reply xid reply => rfl
    | portMod portDown => rfl
  | answered convertible isDown =>
    cases p with
    | reply xid reply =>
      rw [Handler.finish]
      split
      · cases reply with
        | echoReply => exact absurd rfl hp.1
        | barrierReply => exact absurd rfl hp.2
        | _ => rfl
      · rfl
    | portMod portDown =>
      rw [Handler.finish]
      split
      · rfl
      · rfl

/-- What an event does on a connection: the loop goes on or has ended, and if it was running the
replies due are sent. -/
structure Serves (s : Agent) (c : ℕ) (running : Bool) (e : Event) : Prop where
  ended : running = false ∨ s.Fatal c e → (s.step e).Connected c false
  alive : running = true → ¬ s.Fatal c e → (s.step e).Connected c true
  answers : answered c (s.step e).log = answered c s.log ++ if running then due c [e] else []

/-- An event that is no message on the connection leaves its loop alone. -/
theorem Serves.of_other {e : Event} (hother : ∀ m, e ≠ .receive c m)
    (hconnected : (s.step e).Connected c running)
    (hanswered : answered c (s.step e).log = answered c s.log) : s.Serves c running e := by
  have hdue : due c [e] = [] := by
    cases e with
    | receive c' m => exact due_receive_of_ne (fun hc => hother m (by rw [hc])) m
    | _ => rfl
  have hfatal : ¬ s.Fatal c e := fun ⟨_, m, he, _⟩ => hother m he
  refine ⟨?_, ?_, ?_⟩
  · rintro (rfl | h)
    · exact hconnected
    · exact absurd h hfatal
  · rintro rfl -
    exact hconnected
  · rw [hanswered, hdue, ite_self, append_nil]

theorem Serves.of_eq {e : Event} (hother : ∀ m, e ≠ .receive c m) (hstep : s.step e = s)
    (h : s.Connected c running) : s.Serves c running e :=
  .of_other hother (hstep.symm ▸ h) (by rw [hstep])

theorem Connected.serves_receive (h : s.Connected c running) :
    s.Serves c running (.receive c m) := by
  obtain ⟨handler, hhandler, hrunning, hquiet⟩ := h
  obtain ⟨hlt, -⟩ := List.getElem?_eq_some_iff.1 hhandler
  have hfatal : s.Fatal c (.receive c m) ↔ handler.Fatal m := by
    constructor
    · rintro ⟨handler', m', he, hhandler', hfatal⟩
      cases he
      cases hhandler.symm.trans hhandler'
      exact hfatal
    · exact fun hfatal => ⟨handler, m, rfl, hhandler, hfatal⟩
  have hstep : s.step (.receive c m) = s.receive c m := rfl
  rw [receive, hhandler] at hstep
  dsimp only at hstep
  cases running with
  | false =>
    rw [if_neg (Bool.eq_false_iff.1 hrunning)] at hstep
    refine ⟨fun _ => ?_, nofun, ?_⟩
    · rw [hstep]
      exact ⟨handler, hhandler, hrunning, hquiet⟩
    · rw [hstep, if_neg Bool.false_ne_true, append_nil]
  | true =>
    rw [if_pos hrunning] at hstep
    by_cases hm : handler.Fatal m
    · rw [Handler.handle_eq_none_iff.2 hm] at hstep
      refine ⟨fun _ => ?_, fun _ hnot => absurd (hfatal.2 hm) hnot, ?_⟩
      · rw [hstep]
        exact ⟨_, getElem?_set_self hlt, rfl, hquiet⟩
      · rw [hstep, if_pos rfl, due_receive_self, due_of_fatal hm]
        exact (append_nil _).symm
    · obtain ⟨⟨generation, handler', out⟩, hhandle⟩ := ne_none_iff_exists'.1
        (fun hnone => hm (Handler.handle_eq_none_iff.1 hnone))
      rw [hhandle] at hstep
      have hserved := Handler.served_of_handle hhandle
      refine ⟨?_, fun _ _ => ?_, ?_⟩
      · rintro (hfalse | hm')
        · cases hfalse
        · exact absurd (hfatal.1 hm') hm
      · rw [hstep]
        exact ⟨handler', getElem?_set_self hlt, hserved.running.trans hrunning,
          fun p hp => (hserved.pending p hp).elim (hquiet p) id⟩
      · rw [hstep, if_pos rfl, due_receive_self, ← hserved.answer, ← answered_map_self (c := c),
          ← answered_append]

/-- The handlers of the other connections, and what they do, are not those of the connection. -/
theorem Connected.of_set {s' : Agent} {h' : Handler} (h : s.Connected c running) (hne : c' ≠ c)
    (hhandlers : s'.handlers = s.handlers.set c' h') : s'.Connected c running := by
  obtain ⟨handler, hhandler, hrest⟩ := h
  refine ⟨handler, ?_, hrest⟩
  rw [hhandlers, getElem?_set_ne hne, hhandler]

theorem Connected.serves_receive_of_ne (h : s.Connected c running) (hne : c' ≠ c) :
    s.Serves c running (.receive c' m) := by
  have hother : ∀ m', Event.receive c' m ≠ .receive c m' := by
    rintro m' heq
    cases heq
    exact hne rfl
  have hstep : s.step (.receive c' m) = s.receive c' m := rfl
  rw [receive] at hstep
  split at hstep
  · exact .of_eq hother hstep h
  · split at hstep
    · split at hstep
      · refine .of_other hother (h.of_set hne (congrArg handlers hstep)) ?_
        rw [hstep, answered_append, answered_map_of_ne hne, append_nil]
      · exact .of_other hother (h.of_set hne (congrArg handlers hstep)) (by rw [hstep])
    · exact .of_eq hother hstep h

theorem Connected.serves_connect (h : s.Connected c running) : s.Serves c running .connect := by
  obtain ⟨handler, hhandler, hrest⟩ := h
  refine .of_other nofun ⟨handler, ?_, hrest⟩ rfl
  obtain ⟨hlt, -⟩ := List.getElem?_eq_some_iff.1 hhandler
  exact (getElem?_append_left hlt).trans hhandler

theorem Connected.serves_packetIn (h : s.Connected c running) : s.Serves c running .packetIn := by
  have hstep : s.step .packetIn = s.forwardPacketIn := rfl
  rw [forwardPacketIn] at hstep
  split at hstep
  · exact .of_eq nofun hstep h
  · split at hstep
    · refine .of_other nofun (hstep ▸ h) ?_
      rw [hstep, answered_append]
      have hquiet : answered c [(s.handlers.length - 1, .sent none .packetIn)] = [] := by
        rw [answered, filterMap_eq_nil_iff]
        rintro entry hentry
        rw [mem_singleton.1 hentry]
        exact ite_self none
      rw [hquiet, append_nil]
    · exact .of_eq nofun hstep h

theorem Connected.serves_rpcAnswer {i : ℕ} {result : RpcResult} (h : s.Connected c running) :
    s.Serves c running (.rpcAnswer c' i result) := by
  have hstep : s.step (.rpcAnswer c' i result) = s.rpcAnswer c' i result := rfl
  rw [rpcAnswer] at hstep
  split at hstep
  · exact .of_eq nofun hstep h
  · next handler hhandler =>
    split at hstep
    · exact .of_eq nofun hstep h
    · next p hp =>
      by_cases hc : c' = c
      · subst hc
        obtain ⟨handler', hhandler', hrunning, hquiet⟩ := h
        cases hhandler.symm.trans hhandler'
        obtain ⟨hlt, -⟩ := List.getElem?_eq_some_iff.1 hhandler
        refine .of_other nofun ?_ ?_
        · rw [hstep]
          exact ⟨_, getElem?_set_self hlt, hrunning,
            fun q hq => hquiet q (mem_of_mem_eraseIdx hq)⟩
        · rw [hstep, answered_append, answered_map_self,
            answer_finish (hquiet p (mem_of_getElem? hp)), append_nil]
      · refine .of_other nofun (h.of_set hc (congrArg handlers hstep)) ?_
        rw [hstep, answered_append, answered_map_of_ne hc, append_nil]

/-- **What an event does on a connection.** -/
theorem Connected.serves (h : s.Connected c running) (e : Event) : s.Serves c running e := by
  cases e with
  | connect => exact h.serves_connect
  | receive c' m =>
    by_cases hc : c' = c
    · exact hc ▸ (hc ▸ h : s.Connected c' running).serves_receive
    · exact h.serves_receive_of_ne hc
  | rpcAnswer c' i result => exact h.serves_rpcAnswer
  | packetIn => exact h.serves_packetIn

/-- A connection whose loop has ended gets no more replies. -/
theorem Connected.silent {events : List Event} :
    ∀ {s : Agent}, s.Connected c false →
      answered c (events.foldl step s).log = answered c s.log := by
  induction events with
  | nil => exact fun _ => rfl
  | cons e events ih =>
    intro s h
    have hserves := h.serves e
    rw [foldl_cons, ih (hserves.ended (.inl rfl)), hserves.answers,
      if_neg Bool.false_ne_true, append_nil]

/-- A connection whose loop runs: all requests are answered exactly if none comes after a message
that ends the loop. -/
theorem Connected.answered_iff_due {events : List Event} :
    ∀ {s : Agent}, s.Connected c true →
      (answered c (events.foldl step s).log = answered c s.log ++ due c events ↔
        ∀ before e after, events = before ++ e :: after →
          (before.foldl step s).Fatal c e → due c after = []) := by
  induction events with
  | nil =>
    intro s _
    refine iff_of_true (append_nil _).symm fun before e after h => ?_
    cases before with
    | nil => cases h
    | cons => cases h
  | cons e events ih =>
    intro s h
    have hserves := h.serves e
    have hanswers : answered c (s.step e).log = answered c s.log ++ due c [e] := hserves.answers
    rw [forall_split_cons, foldl_cons, ← singleton_append, due_append,
      ← append_assoc, ← hanswers]
    by_cases hfatal : s.Fatal c e
    · rw [(hserves.ended (.inr hfatal)).silent, self_eq_append_right]
      constructor
      · intro hnone
        refine ⟨fun _ => hnone, fun before b after hsplit _ => ?_⟩
        rw [hsplit, due_append, append_eq_nil_iff] at hnone
        exact (append_eq_nil_iff.1 (due_append [b] after ▸ hnone.2)).2
      · exact fun h => h.1 hfatal
    · rw [ih (hserves.alive rfl hfatal)]
      constructor
      · exact fun h => ⟨fun h' => absurd h' hfatal, h⟩
      · exact fun h => h.2

/-- **All echo and barrier requests on a new connection are answered, each once and in their order,
exactly if none of them comes after a message that ends the loop.** -/
theorem answered_iff (s : Agent) (events : List Event) :
    answered s.handlers.length (events.foldl step s.connect).log =
        answered s.handlers.length s.log ++ due s.handlers.length events ↔
      ∀ before e after, events = before ++ e :: after →
        (before.foldl step s.connect).Fatal s.handlers.length e →
          due s.handlers.length after = [] :=
  Connected.answered_iff_due (s := s.connect)
    ⟨Handler.started, getElem?_concat_length, rfl, nofun⟩

/-- A controller asks for aggregate statistics, and gets no answer to its echo request. -/
theorem echo_unanswered :
    answered 0 ([.receive 0 ⟨1, .statsRequest .aggregate⟩,
      .receive 0 ⟨2, .echoRequest⟩].foldl step init.connect).log = [] ∧
    due 0 [.receive 0 ⟨1, .statsRequest .aggregate⟩, .receive 0 ⟨2, .echoRequest⟩] =
      [(some 2, .echoReply)] := by
  decide

end Answered

end Agent

end Voltha.OfAgent
