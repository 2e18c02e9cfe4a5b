import Voltha.OfAgent.ConnectionManager

/-!
# The gRPC clients of the agents

`ConnectionManager` has one `GrpcClient` at a time: `monitor_vcore_grpc_channel` makes it when a
subscription succeeds, and stops it when one fails.  `create_agent` hands it to the agents that it
makes, and `protocol` of an `Agent` to the handler of each connection.  Nothing replaces it there:
an agent whose device stays keeps the client of the time at which it was made.

* `mem_refresh`: the agents after a call that returns.
* `live_refresh_iff`: such a call leaves all agents with the client of the manager exactly if those
  that it does not delete have it.
* `grpcClient_eq_iff`: a manager has the client that it had before exactly if no subscription was
  lost or made in between, or there was none before and is none now.
* `agents_live_iff`: the agents are live after all calls exactly if this is so since the call that
  made an agent, for each that a call keeps.
-/

namespace Voltha.OfAgent

open List hiding get
open OrderedDict

/-- The `rpc_stub` of an agent, and that of its `proto_handler`; clients are numbered. -/
structure AgentStubs where
  rpcStub : Option ℕ
  protoHandler : Option (Option ℕ)
  handler_eq : ∀ stub ∈ protoHandler, stub = rpcStub

/-- The constructor of `Agent`. -/
def AgentStubs.new (client : Option ℕ) : AgentStubs := ⟨client, none, nofun⟩

/-- `protocol`. -/
def AgentStubs.protocol (agent : AgentStubs) : AgentStubs :=
  ⟨agent.rpcStub, some agent.rpcStub, fun _ h => (Option.mem_some.1 h).symm⟩

/-- The maps, the stubs of the agents last made for the keys, the client, the number of clients
made so far, and those that were stopped. -/
structure Manager where
  maps : Maps
  agents : ℕ × String → AgentStubs
  grpcClient : Option ℕ
  clients : ℕ
  stopped : List ℕ

inductive ManagerEvent where
  /-- `Subscribe` is answered with the id of this process. -/
  | subscribed
  /-- It fails. -/
  | lost
  /-- The agent of a key connects. -/
  | connected (key : ℕ × String)
  /-- A list of devices comes.  The client may have gone since it was asked for. -/
  | refreshed (r : Refresh)

/-- The keys for which a call creates agents. -/
abbrev Refresh.Creates (r : Refresh) (controllers : Controllers) (s : Maps) (key : ℕ × String) :
    Prop :=
  (key.1 ∈ r.desired ∧ key.1 ∉ s.currentDatapathIds) ∧ key.2 ∈ controllers.endpoints

/-- The keys of obsolete agents. -/
abbrev Refresh.Deletes (r : Refresh) (controllers : Controllers) (key : ℕ × String) : Prop :=
  key.1 ∉ r.desired ∧ key.2 ∈ controllers.endpoints

namespace Manager

def start : Manager := ⟨Maps.empty, fun _ => .new none, none, 0, []⟩

/-- What `monitor_vcore_grpc_channel` does after a subscription. -/
def subscribed (m : Manager) : Manager :=
  match m.grpcClient with
  | none => { m with grpcClient := some m.clients, clients := m.clients + 1 }
  | some _ => m

/-- `_reset_grpc_attributes`. -/
def resetGrpcAttributes (m : Manager) : Manager :=
  { m with grpcClient := none, stopped := m.stopped ++ m.grpcClient.toList }

/-- `refresh_agent_connections`; it can raise an error in its first loop only. -/
def refresh (order : DatapathOrder) (controllers : Controllers) (m : Manager) (r : Refresh) :
    Manager where
  maps := (m.maps.refresh order controllers r).2
  agents key :=
    if (m.maps.refresh order controllers r).1 = .ok () ∧ r.Creates controllers m.maps key then
      .new m.grpcClient
    else m.agents key
  grpcClient := m.grpcClient
  clients := m.clients
  stopped := m.stopped

def step (order : DatapathOrder) (controllers : Controllers) (m : Manager) :
    ManagerEvent → Manager
  | .subscribed => m.subscribed
  | .lost => m.resetGrpcAttributes
  | .connected key =>
    { m with agents := Function.update m.agents key (m.agents key).protocol }
  | .refreshed r => m.refresh order controllers r

/-- What is to hold of the agents. -/
structure Live (m : Manager) : Prop where
  agent : ∀ key ∈ m.maps.agentMap.map Prod.fst, (m.agents key).rpcStub = m.grpcClient
  handler : ∀ key ∈ m.maps.agentMap.map Prod.fst, ∀ stub ∈ (m.agents key).protoHandler,
    stub = m.grpcClient
  running : ∀ key ∈ m.maps.agentMap.map Prod.fst, ∀ client ∈ (m.agents key).rpcStub,
    client ∉ m.stopped

/-- After a call that returns, the agents are live. -/
def Right (order : DatapathOrder) (controllers : Controllers) (m : Manager) : ManagerEvent → Prop
  | .refreshed r => (m.maps.refresh order controllers r).1 = .ok () →
    (m.refresh order controllers r).Live
  | _ => True

/-- The manager after a history of events. -/
abbrev run (order : DatapathOrder) (controllers : Controllers) (history : List ManagerEvent) :
    Manager :=
  history.foldl (step order controllers) start

/-- After the history `before` the call `made` makes the agent of `key`, and its entry stays in
`agent_map` during the events `since`. -/
structure Stays (order : DatapathOrder) (controllers : Controllers) (before : List ManagerEvent)
    (made : Refresh) (since : List ManagerEvent) (key : ℕ × String) : Prop where
  returns : ((run order controllers before).maps.refresh order controllers made).1 = .ok ()
  creates : made.Creates controllers (run order controllers before).maps key
  stays : ∀ l, l <+: since →
    key ∈ (run order controllers (before ++ .refreshed made :: l)).maps.agentMap.map Prod.fst

end Manager

/-- Whether there is a subscription after an event. -/
def ManagerEvent.subscription (before : Bool) : ManagerEvent → Bool
  | .subscribed => true
  | .lost => false
  | .connected _ | .refreshed _ => before

/-- Whether there is one after a history. -/
abbrev Subscribed (history : List ManagerEvent) : Prop :=
  history.foldl ManagerEvent.subscription false = true

/-- The subscription that there was after `before` was not lost since; if there was none, there is
none again. -/
def Unbroken (before since : List ManagerEvent) : Prop :=
  Subscribed before ∧ .lost ∉ since ∨ ¬ Subscribed before ∧ ¬ Subscribed since

/-! ## The agents after a call -/

namespace Maps

variable {connection : ℕ × String → Connection} {key : ℕ × String}

theorem mem_createAgents {endpoints : List String} (devices : List LogicalDevice) :
    ∀ {s : Maps}, key ∈ (devices.foldl (createAgent endpoints) s).agentMap.map Prod.fst ↔
      (key.1 ∈ devices.map LogicalDevice.datapathId ∧ key.2 ∈ endpoints) ∨
        key ∈ s.agentMap.map Prod.fst := by
  induction devices with
  | nil => simp
  | cons d devices ih =>
    intro s
    have hnew : key ∈ (createAgent endpoints s d).agentMap.map Prod.fst ↔
        (key.1 = d.datapathId ∧ key.2 ∈ endpoints) ∨ key ∈ s.agentMap.map Prod.fst := by
      rw [← not_iff_not, ← get_eq_none_iff, get_agentMap_createAgent]
      split
      · next hkey => simp [hkey]
      · next hkey => rw [or_iff_right hkey, get_eq_none_iff]
    rw [foldl_cons, ih, hnew, map_cons, mem_cons]
    tauto

theorem mem_removeAgent {p : ℕ} {e : String} {s s' : Maps}
    (h : removeAgent connection p e s = (.ok (), s')) :
    key ∈ s'.agentMap.map Prod.fst ↔ key ∈ s.agentMap.map Prod.fst ∧ key ≠ (p, e) := by
  rcases hget : get s.agentMap (p, e) with _ | i
  · rw [removeAgent, Act.read_bind, hget] at h
    cases h
  · rw [removeAgent_eq hget] at h
    split_ifs at h <;> cases h
    rw [← not_iff_not, ← get_eq_none_iff, get_erase]
    split
    · next hkey => simp [hkey]
    · next hkey => rw [and_iff_left hkey, get_eq_none_iff]

theorem mem_deleteAgent {p : ℕ} {endpoints : List String} :
    ∀ {s s' : Maps}, deleteAgent connection p endpoints s = (.ok (), s') →
      (key ∈ s'.agentMap.map Prod.fst ↔
        key ∈ s.agentMap.map Prod.fst ∧ ¬ (key.1 = p ∧ key.2 ∈ endpoints)) := by
  induction endpoints with
  | nil =>
    rintro s s' h
    cases h
    simp
  | cons e endpoints ih =>
    intro s s' h
    obtain ⟨_, s₁, hfirst, hrest⟩ := Act.bind_eq_ok h
    rw [ih hrest, mem_removeAgent hfirst, mem_cons, Ne, Prod.ext_iff]
    tauto

theorem mem_deleteAgents {endpoints : List String} {toDel : List ℕ} :
    ∀ {s s' : Maps}, deleteAgents connection endpoints toDel s = (.ok (), s') →
      (key ∈ s'.agentMap.map Prod.fst ↔
        key ∈ s.agentMap.map Prod.fst ∧ ¬ (key.1 ∈ toDel ∧ key.2 ∈ endpoints)) := by
  induction toDel with
  | nil =>
    rintro s s' h
    cases h
    simp
  | cons p toDel ih =>
    intro s s' h
    obtain ⟨_, s₁, hfirst, hrest⟩ := Act.bind_eq_ok h
    rw [ih hrest, mem_deleteAgent hfirst, mem_cons]
    tauto

/-- The first loop makes no agents, also if it raises an error. -/
theorem not_mem_deleteAgents {endpoints : List String} (toDel : List ℕ) :
    ∀ {s : Maps}, key ∉ s.agentMap.map Prod.fst →
      Act.wp (deleteAgents connection endpoints toDel) s
        fun _ s' => key ∉ s'.agentMap.map Prod.fst := by
  have hremove : ∀ (p : ℕ) (e : String) (s : Maps), key ∉ s.agentMap.map Prod.fst →
      Act.wp (removeAgent connection p e) s fun _ s' => key ∉ s'.agentMap.map Prod.fst := by
    intro p e s h
    have herase : key ∉ (erase (p, e) s.agentMap).map Prod.fst := by
      rw [← get_eq_none_iff] at h ⊢
      rw [get_erase, h, ite_self]
    rcases hget : get s.agentMap (p, e) with _ | i
    · rw [Act.wp_def, removeAgent, Act.read_bind, hget]
      exact h
    · rw [Act.wp_def, removeAgent_eq hget]
      split_ifs
      exacts [h, herase, herase]
  have hdelete : ∀ (p : ℕ) (l : List String) (s : Maps), key ∉ s.agentMap.map Prod.fst →
      Act.wp (deleteAgent connection p l) s fun _ s' => key ∉ s'.agentMap.map Prod.fst := by
    intro p l
    induction l with
    | nil => exact fun _ h => h
    | cons e l ih => exact fun s h => Act.wp_bind_keep (hremove p e s h) fun _ => ih
  induction toDel with
  | nil => exact fun h => h
  | cons p toDel ih => exact fun h => Act.wp_bind_keep (hdelete p _ _ h) fun _ _ => ih

theorem mem_currentDatapathIds_of_mem {s : Maps} (h : key ∈ s.agentMap.map Prod.fst) :
    key.1 ∈ s.currentDatapathIds := by
  obtain ⟨entry, hentry, rfl⟩ := mem_map.1 h
  exact mem_dedup.2 (mem_map_of_mem hentry)

/-- **The agents after a call that returns** are those that it creates, and those that were there
and that it does not delete. -/
theorem mem_refresh {order : DatapathOrder} {controllers : Controllers} {s : Maps} {r : Refresh}
    (hok : (s.refresh order controllers r).1 = .ok ()) :
    key ∈ (s.refresh order controllers r).2.agentMap.map Prod.fst ↔
      r.Creates controllers s key ∨
        key ∈ s.agentMap.map Prod.fst ∧ ¬ r.Deletes controllers key := by
  have hcurrent := @mem_currentDatapathIds_of_mem key s
  by_cases hsame : r.Same s
  · have hkept : key.1 ∈ s.currentDatapathIds ↔ key.1 ∈ r.desired := ⟨@hsame.2 _, @hsame.1 _⟩
    rw [refresh_of_same hsame, Refresh.Creates, Refresh.Deletes, hkept]
    rw [hkept] at hcurrent
    tauto
  · have hdel := deleted_of_returns hsame hok
    have hnew : key.1 ∈ (r.list.devices.filter fun d => d.datapathId ∉ s.currentDatapathIds).map
        LogicalDevice.datapathId ↔ key.1 ∈ r.desired ∧ key.1 ∉ s.currentDatapathIds := by
      simp only [mem_map, mem_filter, decide_eq_true_iff]
      constructor
      · rintro ⟨d, ⟨hd, hcur⟩, hkey⟩
        exact ⟨⟨d, hd, hkey⟩, hkey ▸ hcur⟩
      · rintro ⟨⟨d, hd, hkey⟩, hcur⟩
        exact ⟨d, ⟨hd, hkey ▸ hcur⟩, hkey⟩
    rw [refresh_of_deleted hsame hdel, mem_createAgents, hnew,
      mem_deleteAgents (Prod.ext hdel rfl), (order.iter_perm _).mem_iff, mem_filter,
      decide_eq_true_iff]
    tauto

/-- An agent that is there after a call was there before, or the call made it and returned. -/
theorem mem_of_mem_refresh {order : DatapathOrder} {controllers : Controllers} {s : Maps}
    {r : Refresh} (h : key ∈ (s.refresh order controllers r).2.agentMap.map Prod.fst) :
    key ∈ s.agentMap.map Prod.fst ∨
      (s.refresh order controllers r).1 = .ok () ∧ r.Creates controllers s key := by
  rcases hres : (s.refresh order controllers r).1 with err | _
  · refine .inl (not_not.1 fun hnot => ?_)
    have hsame : ¬ r.Same s := fun hsame => by
      rw [refresh_of_same hsame] at hres
      cases hres
    rcases hdel : deletion order controllers s r with ⟨_ | _, s'⟩
    · have hkeys : key ∉ (deletion order controllers s r).2.agentMap.map Prod.fst :=
        not_mem_deleteAgents (order.iter (r.obsolete s)) hnot
      rw [hdel] at hkeys
      rw [Maps.refresh, refreshAgentConnections, Act.read_bind, if_neg hsame,
        Act.bind_of_error hdel] at h
      exact hkeys h
    · rw [refresh_of_deleted hsame (congrArg Prod.fst hdel)] at hres
      cases hres
  · rcases (mem_refresh hres).1 h with hnew | hold
    · exact .inr ⟨rfl, hnew⟩
    · exact .inl hold.1

end Maps

/-! ## Runs -/

namespace Manager

variable {order : DatapathOrder} {controllers : Controllers} {m : Manager} {r : Refresh}

/-- The client of the manager runs. -/
structure Inv (m : Manager) : Prop where
  running : ∀ client ∈ m.grpcClient, client ∉ m.stopped
  lt_clients : ∀ client ∈ m.stopped ++ m.grpcClient.toList, client < m.clients

theorem Inv.step (h : Inv m) (e : ManagerEvent) : Inv (m.step order controllers e) := by
  cases e with
  | subscribed =>
    rw [Manager.step, subscribed]
    split
    · next hnone =>
      have hlt := h.lt_clients
      rw [hnone] at hlt
      constructor
      · rintro _ ⟨⟩ hstopped
        exact absurd (hlt _ (mem_append_left _ hstopped)) (Nat.lt_irrefl _)
      · simp only [Option.toList_some, mem_append, mem_singleton]
        rintro client (hclient | rfl)
        · exact Nat.lt_succ_of_lt (hlt _ (mem_append_left _ hclient))
        · exact Nat.lt_succ_self _
    · exact h
  | lost => exact ⟨nofun, by simpa [Manager.step, resetGrpcAttributes] using h.lt_clients⟩
  | connected key => exact ⟨h.running, h.lt_clients⟩
  | refreshed r => exact ⟨h.running, h.lt_clients⟩

/-- **A call that returns leaves live agents exactly if those that it does not delete have the
client of the manager.** -/
theorem live_refresh_iff (h : Inv m) (hok : (m.maps.refresh order controllers r).1 = .ok ()) :
    (m.refresh order controllers r).Live ↔ ∀ key ∈ m.maps.agentMap.map Prod.fst,
      ¬ r.Deletes controllers key → (m.agents key).rpcStub = m.grpcClient := by
  have hold : ∀ key ∈ m.maps.agentMap.map Prod.fst,
      (m.refresh order controllers r).agents key = m.agents key := fun key hkey =>
    if_neg fun hnew => hnew.2.1.2 (Maps.mem_currentDatapathIds_of_mem hkey)
  constructor
  · intro hlive key hkey hdel
    have hstub := hlive.agent key ((Maps.mem_refresh hok).2 (.inr ⟨hkey, hdel⟩))
    rwa [hold key hkey] at hstub
  · intro hkept
    have hstub : ∀ key ∈ (m.refresh order controllers r).maps.agentMap.map Prod.fst,
        ((m.refresh order controllers r).agents key).rpcStub = m.grpcClient := by
      intro key hkey
      rcases (Maps.mem_refresh hok).1 hkey with hnew | ⟨hkey, hdel⟩
      · exact congrArg AgentStubs.rpcStub (if_pos ⟨hok, hnew⟩)
      · rw [hold key hkey]
        exact hkept key hkey hdel
    refine ⟨hstub, fun key hkey stub hs => ?_, fun key hkey client hclient => ?_⟩
    · exact (AgentStubs.handler_eq _ stub hs).trans (hstub key hkey)
    · exact h.running client (hstub key hkey ▸ hclient)

theorem Inv.foldl (h : Inv m) (l : List ManagerEvent) :
    Inv (l.foldl (Manager.step order controllers) m) := by
  induction l generalizing m with
  | nil => exact h
  | cons e l ih => exact ih (h.step e)

theorem Inv.start : Inv start := ⟨nofun, fun _ h => absurd h not_mem_nil⟩

/-! ## The client of the manager -/

theorem isSome_step (e : ManagerEvent) :
    (m.step order controllers e).grpcClient.isSome = e.subscription m.grpcClient.isSome := by
  cases e with
  | subscribed =>
    rw [step, subscribed]
    split
    · rfl
    · next h => rw [h, ManagerEvent.subscription, Option.isSome_some]
  | lost => rfl
  | connected key => rfl
  | refreshed r => rfl

theorem isSome_foldl (l : List ManagerEvent) :
    (l.foldl (step order controllers) m).grpcClient.isSome =
      l.foldl ManagerEvent.subscription m.grpcClient.isSome := by
  induction l generalizing m with
  | nil => rfl
  | cons e l ih => rw [foldl_cons, foldl_cons, ih, isSome_step]

/-- A client stays until a subscription is lost. -/
theorem grpcClient_of_not_lost {client : ℕ} (h : m.grpcClient = some client)
    {l : List ManagerEvent} (hlost : .lost ∉ l) :
    (l.foldl (step order controllers) m).grpcClient = some client := by
  induction l generalizing m with
  | nil => exact h
  | cons e l ih =>
    rw [mem_cons, not_or] at hlost
    refine ih ?_ hlost.2
    cases e with
    | subscribed => rwa [step, subscribed, h]
    | lost => exact absurd rfl hlost.1
    | connected key => exact h
    | refreshed r => exact h

/-- A client whose subscription is lost is stopped for good. -/
theorem stopped_of_lost {client : ℕ} {l : List ManagerEvent}
    (h : client ∈ m.stopped ∨ m.grpcClient = some client ∧ .lost ∈ l) :
    client ∈ (l.foldl (step order controllers) m).stopped := by
  induction l generalizing m with
  | nil => exact h.resolve_right fun hlost => absurd hlost.2 not_mem_nil
  | cons e l ih =>
    refine ih ?_
    cases e with
    | subscribed =>
      rcases h with h | ⟨h, hlost⟩
      · rw [step, subscribed]
        split <;> exact .inl h
      · rw [step, subscribed, h]
        exact .inr ⟨h, by simpa using hlost⟩
    | lost =>
      refine .inl (mem_append.2 (h.imp_right fun h => ?_))
      rw [h.1]
      exact mem_singleton_self client
    | connected key => simpa [step] using h
    | refreshed r => simpa [step, refresh] using h

/-- **The client is that of an earlier time exactly if the subscription is unbroken.** -/
theorem grpcClient_eq_iff (order : DatapathOrder) (controllers : Controllers)
    (before since : List ManagerEvent) (made : Refresh) :
    (run order controllers before).grpcClient =
        (run order controllers (before ++ .refreshed made :: since)).grpcClient ↔
      Unbroken before since := by
  have hinv : Inv (run order controllers (before ++ .refreshed made :: since)) := Inv.start.foldl _
  have hbefore : (run order controllers before).grpcClient.isSome =
      before.foldl ManagerEvent.subscription false := isSome_foldl before
  have hrun : run order controllers (before ++ .refreshed made :: since) =
      since.foldl (step order controllers)
        ((run order controllers before).step order controllers (.refreshed made)) := by
    rw [run, foldl_append, foldl_cons]
  rw [hrun] at hinv ⊢
  rw [Unbroken, Subscribed, ← hbefore]
  set m := run order controllers before
  have hm : (m.step order controllers (.refreshed made)).grpcClient = m.grpcClient := rfl
  rcases hclient : m.grpcClient with _ | client
  · have hnow : (since.foldl (step order controllers)
        (m.step order controllers (.refreshed made))).grpcClient.isSome =
          since.foldl ManagerEvent.subscription _ := isSome_foldl since
    rw [hm, hclient, Option.isSome_none] at hnow
    rw [Subscribed, ← hnow, eq_comm]
    simp
  · rw [hclient] at hm
    simp only [Option.isSome_some, true_and, not_true_eq_false, false_and, or_false]
    constructor
    · intro heq hlost
      exact hinv.running client heq.symm (stopped_of_lost (.inr ⟨hm, hlost⟩))
    · exact fun hlost => (grpcClient_of_not_lost hm hlost).symm

/-! ## The agents of a history -/

variable {before since : List ManagerEvent} {made : Refresh} {key : ℕ × String}

/-- Only a call that makes an agent gives it its client. -/
theorem rpcStub_step {e : ManagerEvent} (h : key ∈ m.maps.agentMap.map Prod.fst) :
    ((m.step order controllers e).agents key).rpcStub = (m.agents key).rpcStub := by
  cases e with
  | subscribed =>
    rw [step, subscribed]
    split <;> rfl
  | lost => rfl
  | connected key' =>
    by_cases hkey : key = key'
    · subst hkey
      simp [step, AgentStubs.protocol]
    · exact congrArg AgentStubs.rpcStub (Function.update_of_ne hkey ..)
  | refreshed r =>
    exact congrArg AgentStubs.rpcStub
      (if_neg fun hnew => hnew.2.1.2 (Maps.mem_currentDatapathIds_of_mem h))

theorem Stays.rpcStub (h : Stays order controllers before made since key) :
    ((run order controllers (before ++ .refreshed made :: since)).agents key).rpcStub =
      (run order controllers before).grpcClient := by
  induction since using reverseRecOn with
  | nil =>
    rw [run, foldl_append]
    exact congrArg AgentStubs.rpcStub (if_pos ⟨h.returns, h.creates⟩)
  | append_singleton since e ih =>
    have hbefore : Stays order controllers before made since key :=
      ⟨h.returns, h.creates, fun l hl => h.stays l (hl.trans (prefix_append ..))⟩
    have hmem := hbefore.stays since prefix_rfl
    rw [← ih hbefore, ← rpcStub_step hmem (e := e), run, ← cons_append, ← append_assoc,
      foldl_append]
    rfl

/-- An agent in the map was made by a call, and is in the map since. -/
theorem exists_stays (history : List ManagerEvent)
    (h : key ∈ (run order controllers history).maps.agentMap.map Prod.fst) :
    ∃ before made since, history = before ++ .refreshed made :: since ∧
      Stays order controllers before made since key := by
  induction history using reverseRecOn with
  | nil => exact absurd h not_mem_nil
  | append_singleton history e ih =>
    -- An agent that was there before the last event stays during one event more.
    have hstays : key ∈ (run order controllers history).maps.agentMap.map Prod.fst →
        ∃ before made since, history ++ [e] = before ++ .refreshed made :: since ∧
          Stays order controllers before made since key := by
      intro hmem
      obtain ⟨before, made, since, rfl, hmade⟩ := ih hmem
      refine ⟨before, made, since ++ [e], by simp, hmade.returns, hmade.creates, fun l hl => ?_⟩
      rcases prefix_concat_iff.1 hl with rfl | hl
      · simpa using h
      · exact hmade.stays l hl
    rw [run, foldl_append] at h
    cases e with
    | subscribed =>
      refine hstays ?_
      rw [foldl_cons, foldl_nil, step, subscribed] at h
      split at h <;> exact h
    | lost => exact hstays h
    | connected key' => exact hstays h
    | refreshed r =>
      rcases Maps.mem_of_mem_refresh h with hold | ⟨hok, hnew⟩
      · exact hstays hold
      · refine ⟨history, r, [], rfl, hok, hnew, fun l hl => ?_⟩
        rw [prefix_nil.1 hl, run, foldl_append]
        exact h

/-- **After each call of a run that returns all agents and their handlers have the client of the
manager, which runs, exactly if for each agent that such a call keeps the subscription is unbroken
since the call that made it.** -/
theorem agents_live_iff (order : DatapathOrder) (controllers : Controllers)
    (events : List ManagerEvent) :
    AllAlong (step order controllers) (Right order controllers) start events ↔
      ∀ before made since r after,
        events = (before ++ .refreshed made :: since) ++ .refreshed r :: after →
        ((run order controllers (before ++ .refreshed made :: since)).maps.refresh order controllers
          r).1 = .ok () →
        ∀ key, Stays order controllers before made since key → ¬ r.Deletes controllers key →
          Unbroken before since := by
  rw [allAlong_iff_split]
  constructor
  · intro hright before made since r after hsplit hok key hstays hdel
    have hlive := (live_refresh_iff (Inv.start.foldl _) hok).1 (hright _ _ _ hsplit hok)
    rw [← grpcClient_eq_iff order controllers before since made, ← hstays.rpcStub]
    exact hlive key (hstays.stays since prefix_rfl) hdel
  · intro hunbroken history e after hsplit
    cases e with
    | refreshed r =>
      intro hok
      refine (live_refresh_iff (Inv.start.foldl _) hok).2 fun key hkey hdel => ?_
      obtain ⟨before, made, since, rfl, hstays⟩ := exists_stays history hkey
      rw [hstays.rpcStub, grpcClient_eq_iff]
      exact hunbroken before made since r after hsplit hok key hstays hdel
    | _ => trivial

/-- A device has an agent that is connected.  The subscription is lost and comes back, and the same
list of devices comes: the agent and its handler have the first client, which was stopped. -/
theorem agent_of_stopped_client :
    let controllers : Controllers := ⟨["c1:6653"], by decide⟩
    let refreshed := ManagerEvent.refreshed ⟨oneDevice, fun _ => .connected⟩
    let m := [.subscribed, refreshed, .connected (1, "c1:6653"), .lost, .subscribed].foldl
      (step plainOrder controllers) start
    let m' := m.step plainOrder controllers refreshed
    m.maps.refresh plainOrder controllers ⟨oneDevice, fun _ => .connected⟩ = (.ok (), m'.maps) ∧
      m'.maps.agentMap = [((1, "c1:6653"), "a")] ∧ m'.grpcClient = some 1 ∧ m'.stopped = [0] ∧
      (m'.agents (1, "c1:6653")).rpcStub = some 0 ∧
      (m'.agents (1, "c1:6653")).protoHandler = some (some 0) := by
  decide +kernel

end Manager

end Voltha.OfAgent
