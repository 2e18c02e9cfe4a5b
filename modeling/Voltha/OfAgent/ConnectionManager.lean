import Voltha.Lib.Act
import Voltha.Lib.OrderedDict
import Voltha.Lib.Run

/-!
# The agents of the OpenFlow agent process

`refresh_agent_connections` of `ConnectionManager`.  The process has an `Agent` for each logical
device and each controller, in a map with the datapath id and the endpoint of the controller as
keys, and a map from device ids to datapath ids.  Both maps are brought up to date with each list of
devices.

The lists are compared by their datapath ids only, so a datapath id that comes back under another
device id keeps its old one.  `delete_agent` takes the device id out of its map once for each
controller, which fails for the second one.  `Agent.stop` disconnects its connector, which fails if
there is none yet, or if its last attempt has failed.

* `Serves.deleteAgents`, `Serves.createAgents`: what the two loops do with a single controller, and
  with at least one.
* `refreshesRight_iff`: **all calls return and leave the right maps exactly if the lists of devices
  and the connections meet** `Fits`.
-/

namespace Voltha.OfAgent

open List hiding get
open OrderedDict

/-! ## The maps -/

/-- An entry of the list of logical devices. -/
structure LogicalDevice where
  id : String
  datapathId : ℕ
  deriving DecidableEq

/-- A list of devices as it comes from the core. -/
structure DeviceList where
  devices : List LogicalDevice
  nodup_ids : (devices.map LogicalDevice.id).Nodup
  nodup_datapathIds : (devices.map LogicalDevice.datapathId).Nodup

/-- The controllers. -/
structure Controllers where
  endpoints : List String
  nodup : endpoints.Nodup

/-- The state of the connector of an agent: not made yet, or connecting, or connected, or its
connection was lost, or could not be made. -/
inductive Connection where
  | none
  | connecting
  | connected
  | lost
  | failed
  deriving DecidableEq

/-- Whether `Agent.stop` raises an error: without a connector, or without a transport. -/
def Connection.stopRaises : Connection → Bool
  | .none | .failed => true
  | .connecting | .connected | .lost => false

/-- The two maps; an agent is known by its device id. -/
structure Maps where
  agentMap : List ((ℕ × String) × String)
  deviceIdToDatapathIdMap : List (String × ℕ)
  deriving DecidableEq

/-- The order in which Python goes through a set of datapath ids. -/
structure DatapathOrder where
  iter : List ℕ → List ℕ
  iter_perm : ∀ l, (iter l).Perm l

namespace Maps

def empty : Maps := ⟨[], []⟩

/-- The loop of `create_agent` for one controller. -/
def addAgent (device : LogicalDevice) (s : Maps) (endpoint : String) : Maps where
  agentMap := insert (device.datapathId, endpoint) device.id s.agentMap
  deviceIdToDatapathIdMap :=
    insert device.id device.datapathId s.deviceIdToDatapathIdMap

/-- `create_agent`. -/
def createAgent (endpoints : List String) (s : Maps) (device : LogicalDevice) : Maps :=
  endpoints.foldl (addAgent device) s

open Act

/-- The loop of `delete_agent` for one controller. -/
def removeAgent (connection : ℕ × String → Connection) (datapathId : ℕ) (endpoint : String) :
    Act Maps String Unit := do
  let s ← read
  match get s.agentMap (datapathId, endpoint) with
  | none => raise "KeyError"
  | some deviceId =>
    if (connection (datapathId, endpoint)).stopRaises then raise "AttributeError"
    else do
      modify fun s =>
        { s with agentMap := erase (datapathId, endpoint) s.agentMap }
      if get s.deviceIdToDatapathIdMap deviceId = none then raise "KeyError"
      else modify fun s => { s with
        deviceIdToDatapathIdMap := erase deviceId s.deviceIdToDatapathIdMap }

/-- `delete_agent`. -/
def deleteAgent (connection : ℕ × String → Connection) (datapathId : ℕ) :
    List String → Act Maps String Unit
  | [] => pure ()
  | endpoint :: endpoints => do
    removeAgent connection datapathId endpoint
    deleteAgent connection datapathId endpoints

/-- The first loop of `refresh_agent_connections`. -/
def deleteAgents (connection : ℕ × String → Connection) (endpoints : List String) :
    List ℕ → Act Maps String Unit
  | [] => pure ()
  | datapathId :: toDel => do
    deleteAgent connection datapathId endpoints
    deleteAgents connection endpoints toDel

/-- The datapath ids of the agents. -/
def currentDatapathIds (s : Maps) : List ℕ := (s.agentMap.map fun entry => entry.1.1).dedup

/-- `refresh_agent_connections`. -/
def refreshAgentConnections (order : DatapathOrder) (endpoints : List String)
    (connection : ℕ × String → Connection) (devices : List LogicalDevice) :
    Act Maps String Unit := do
  let s ← read
  let desired := devices.map LogicalDevice.datapathId
  let current := s.currentDatapathIds
  if desired ⊆ current ∧ current ⊆ desired then pure ()
  else do
    deleteAgents connection endpoints (order.iter (current.filter (· ∉ desired)))
    modify fun s =>
      (devices.filter fun device => device.datapathId ∉ current).foldl (createAgent endpoints) s

end Maps

/-- A call: the list of devices, and the connections of the agents at that time. -/
structure Refresh where
  list : DeviceList
  connection : ℕ × String → Connection

/-- The maps after a call. -/
def Maps.refresh (order : DatapathOrder) (controllers : Controllers) (s : Maps) (r : Refresh) :
    Except String Unit × Maps :=
  refreshAgentConnections order controllers.endpoints r.connection r.list.devices s

/-! ## Creating agents -/

variable {e : String} {p : ℕ}

namespace Maps

variable {s : Maps}

theorem get_agentMap_createAgent (d : LogicalDevice) (p : ℕ) (e : String) :
    ∀ (endpoints : List String) (s : Maps),
      get (createAgent endpoints s d).agentMap (p, e) =
        if p = d.datapathId ∧ e ∈ endpoints then some d.id else get s.agentMap (p, e)
  | [], s => by rw [if_neg fun h => not_mem_nil h.2]; rfl
  | endpoint :: endpoints, s => by
    refine (get_agentMap_createAgent d p e endpoints (addAgent d s endpoint)).trans ?_
    rw [addAgent, get_insert]
    by_cases hrest : p = d.datapathId ∧ e ∈ endpoints
    · rw [if_pos hrest, if_pos ⟨hrest.1, mem_cons_of_mem _ hrest.2⟩]
    · rw [if_neg hrest]
      by_cases hhead : p = d.datapathId ∧ e = endpoint
      · rw [if_pos (Prod.ext hhead.1 hhead.2),
          if_pos ⟨hhead.1, mem_cons.2 (.inl hhead.2)⟩]
      · have hpair : (p, e) ≠ (d.datapathId, endpoint) := fun h =>
          hhead (Prod.mk.inj h)
        have hcons : ¬ (p = d.datapathId ∧ e ∈ endpoint :: endpoints) := by
          rintro ⟨hp, he⟩
          rcases mem_cons.1 he with he | he
          · exact hhead ⟨hp, he⟩
          · exact hrest ⟨hp, he⟩
        rw [if_neg hpair, if_neg hcons]

theorem get_deviceMap_createAgent (d : LogicalDevice) (i : String) :
    ∀ (endpoints : List String) (s : Maps),
      get (createAgent endpoints s d).deviceIdToDatapathIdMap i =
        if i = d.id ∧ endpoints ≠ [] then some d.datapathId
        else get s.deviceIdToDatapathIdMap i
  | [], s => by rw [if_neg fun h => h.2 rfl]; rfl
  | endpoint :: endpoints, s => by
    refine (get_deviceMap_createAgent d i endpoints (addAgent d s endpoint)).trans ?_
    rw [addAgent, get_insert]
    by_cases hi : i = d.id
    · rw [if_pos hi, ite_self, if_pos ⟨hi, cons_ne_nil _ _⟩]
    · rw [if_neg (fun h => hi h.1), if_neg hi, if_neg (fun h => hi h.1)]

/-- An entry of the map of devices was there before, or is one of a new device. -/
theorem get_deviceMap_of_createAgents {endpoints : List String} {i : String} {p : ℕ} :
    ∀ {devices : List LogicalDevice} {s : Maps},
      get (devices.foldl (createAgent endpoints) s).deviceIdToDatapathIdMap i =
        some p →
      get s.deviceIdToDatapathIdMap i = some p ∨
        endpoints ≠ [] ∧ ∃ d ∈ devices, d.datapathId = p
  | [], _, h => .inl h
  | d :: devices, s, h => by
    have hrest := @get_deviceMap_of_createAgents endpoints i p devices _ h
    rcases hrest with h | ⟨hne, d', hd', hp⟩
    · rw [get_deviceMap_createAgent] at h
      split at h
      · next hd => exact .inr ⟨hd.2, d, mem_cons_self, Option.some_inj.1 h⟩
      · exact .inl h
    · exact .inr ⟨hne, d', mem_cons_of_mem _ hd', hp⟩

/-! ## Deleting agents -/

theorem removeAgent_eq {connection : ℕ × String → Connection} {i : String}
    (h : get s.agentMap (p, e) = some i) :
    removeAgent connection p e s =
      if (connection (p, e)).stopRaises then (.error "AttributeError", s)
      else if get s.deviceIdToDatapathIdMap i = none then
        (.error "KeyError", { s with agentMap := erase (p, e) s.agentMap })
      else (.ok (), ⟨erase (p, e) s.agentMap,
        erase i s.deviceIdToDatapathIdMap⟩) := by
  rw [removeAgent, Act.read_bind, h]
  dsimp only
  split
  · rfl
  · rw [Act.modify_bind]
    split
    · rfl
    · rfl

end Maps

/-! ## Maps that serve a list of devices -/

/-- The maps are those of a list of devices. -/
structure Serves (endpoints : List String) (served : List LogicalDevice) (s : Maps) : Prop where
  agents : ∀ p e i, get s.agentMap (p, e) = some i ↔ e ∈ endpoints ∧ ⟨i, p⟩ ∈ served
  devices : ∀ i p, get s.deviceIdToDatapathIdMap i = some p ↔ ⟨i, p⟩ ∈ served
  injective : ∀ d ∈ served, ∀ d' ∈ served, d.datapathId = d'.datapathId → d = d'
  controllers : endpoints = [] → served = []

variable {d : LogicalDevice}

namespace Serves

variable {endpoints : List String} {served : List LogicalDevice} {s : Maps}
  {connection : ℕ × String → Connection}

theorem empty (endpoints : List String) : Serves endpoints [] Maps.empty where
  agents _ _ _ := iff_of_false nofun fun h => not_mem_nil h.2
  devices _ _ := iff_of_false nofun not_mem_nil
  injective _ h := absurd h not_mem_nil
  controllers _ := rfl

section

variable (h : Serves endpoints served s)
include h

theorem congr {served' : List LogicalDevice} (hmem : ∀ d, d ∈ served ↔ d ∈ served')
    (hnone : endpoints = [] → served' = []) :
    Serves endpoints served' s where
  agents p e i := by rw [h.agents, hmem]
  devices i p := by rw [h.devices, hmem]
  injective d hd d' hd' := h.injective d ((hmem d).2 hd) d' ((hmem d').2 hd')
  controllers := hnone

theorem mem_currentDatapathIds : p ∈ s.currentDatapathIds ↔ ∃ d ∈ served, d.datapathId = p := by
  rw [Maps.currentDatapathIds, mem_dedup, mem_map]
  constructor
  · rintro ⟨entry, hentry, rfl⟩
    obtain ⟨i, hi⟩ := exists_lookup (mem_map_of_mem hentry)
    exact ⟨⟨i, entry.1.1⟩, ((h.agents entry.1.1 entry.1.2 i).1 hi).2, rfl⟩
  · rintro ⟨d, hd, rfl⟩
    obtain ⟨e, he⟩ : ∃ e, e ∈ endpoints := by
      rcases endpoints with _ | ⟨e, endpoints⟩
      · exact absurd (h.controllers rfl ▸ hd) not_mem_nil
      · exact ⟨e, mem_cons_self⟩
    exact ⟨_, mem_of_lookup ((h.agents d.datapathId e d.id).2 ⟨he, hd⟩), rfl⟩

/-- An agent is created for each controller. -/
theorem createAgent (hne : endpoints ≠ [])
    (hnew : ∀ d' ∈ served, d'.datapathId ≠ d.datapathId ∧ d'.id ≠ d.id) :
    Serves endpoints (served ++ [d]) (Maps.createAgent endpoints s d) where
  agents p e i := by
    rw [Maps.get_agentMap_createAgent, mem_append, mem_singleton]
    split
    · next hp =>
      rw [Option.some_inj]
      constructor
      · rintro rfl
        exact ⟨hp.2, .inr (by rw [hp.1])⟩
      · rintro ⟨-, hmem | heq⟩
        · exact absurd hp.1 (hnew _ hmem).1
        · rw [← heq]
    · next hp =>
      rw [h.agents]
      constructor
      · rintro ⟨he, hmem⟩
        exact ⟨he, .inl hmem⟩
      · rintro ⟨he, hmem | heq⟩
        · exact ⟨he, hmem⟩
        · exact absurd ⟨by rw [← heq], he⟩ hp
  devices i p := by
    rw [Maps.get_deviceMap_createAgent, mem_append, mem_singleton]
    split
    · next hi =>
      rw [Option.some_inj]
      constructor
      · rintro rfl
        exact .inr (by rw [hi.1])
      · rintro (hmem | heq)
        · exact absurd hi.1 (hnew _ hmem).2
        · rw [← heq]
    · next hi =>
      rw [h.devices]
      constructor
      · exact .inl
      · rintro (hmem | heq)
        · exact hmem
        · exact absurd ⟨by rw [← heq], hne⟩ hi
  injective a ha b hb hab := by
    rw [mem_append, mem_singleton] at ha hb
    rcases ha with ha | rfl
    · rcases hb with hb | rfl
      · exact h.injective a ha b hb hab
      · exact absurd hab (hnew a ha).1
    · rcases hb with hb | rfl
      · exact absurd hab.symm (hnew b hb).1
      · rfl
  controllers hnil := absurd hnil hne

omit h in
theorem createAgents (hne : endpoints ≠ []) :
    ∀ {devices served : List LogicalDevice} {s : Maps}, Serves endpoints served s →
      (devices.map LogicalDevice.id).Nodup → (devices.map LogicalDevice.datapathId).Nodup →
      (∀ d ∈ devices, ∀ d' ∈ served, d'.datapathId ≠ d.datapathId ∧ d'.id ≠ d.id) →
      Serves endpoints (served ++ devices) (devices.foldl (Maps.createAgent endpoints) s)
  | [], served, s, h, _, _, _ => by rwa [append_nil]
  | d :: devices, served, s, h, hids, hdpids, hnew => by
    rw [map_cons, nodup_cons] at hids hdpids
    have h' := createAgents hne (h.createAgent hne (hnew d mem_cons_self)) hids.2 hdpids.2
      (fun d₁ hd₁ d' hd' => ?_)
    · rwa [append_assoc] at h'
    · rcases mem_append.1 hd' with hd' | hd'
      · exact hnew d₁ (mem_cons_of_mem _ hd₁) d' hd'
      · rw [mem_singleton] at hd'
        subst hd'
        exact ⟨fun heq => hdpids.1 (heq ▸ mem_map_of_mem hd₁),
          fun heq => hids.1 (heq ▸ mem_map_of_mem hd₁)⟩

omit h in
/-- The only agent of a device is deleted. -/
theorem erase (h : Serves [e] served s) (hd : d ∈ served) :
    Serves [e] (served.filter fun d' => d'.datapathId ≠ d.datapathId)
      ⟨erase (d.datapathId, e) s.agentMap,
        erase d.id s.deviceIdToDatapathIdMap⟩ where
  agents p e' i := by
    rw [get_erase, mem_filter, decide_eq_true_iff]
    split
    · next hp =>
      refine iff_of_false (by rintro ⟨⟩) fun h' => h'.2.2 ?_
      exact (Prod.mk.inj hp).1
    · next hp =>
      rw [h.agents]
      refine and_congr_right fun he => ⟨fun hmem => ⟨hmem, fun hpid => hp ?_⟩, And.left⟩
      exact Prod.ext hpid (mem_singleton.1 he)
  devices i p := by
    rw [get_erase, mem_filter, decide_eq_true_iff]
    split
    · next hi =>
      refine iff_of_false (by rintro ⟨⟩) fun h' => h'.2 ?_
      -- the device id has one datapath id only
      have h₁ := (h.devices i p).2 h'.1
      have h₂ := (h.devices d.id d.datapathId).2 hd
      rw [hi, h₂] at h₁
      exact (Option.some_inj.1 h₁).symm
    · next hi =>
      rw [h.devices]
      refine ⟨fun hmem => ⟨hmem, fun hpid => hi ?_⟩, And.left⟩
      exact congrArg LogicalDevice.id (h.injective _ hmem d hd hpid)
  injective a ha b hb := h.injective a (mem_filter.1 ha).1 b (mem_filter.1 hb).1
  controllers hnil := absurd hnil (cons_ne_nil _ _)

/-- An agent can be deleted exactly if it can be stopped. -/
theorem removeAgent (he : e ∈ endpoints) (hd : d ∈ served) :
    Maps.removeAgent connection d.datapathId e s =
      if (connection (d.datapathId, e)).stopRaises then (.error "AttributeError", s)
      else (.ok (), ⟨OrderedDict.erase (d.datapathId, e) s.agentMap,
        OrderedDict.erase d.id s.deviceIdToDatapathIdMap⟩) := by
  have hdev : ¬ get s.deviceIdToDatapathIdMap d.id = none := by
    rw [(h.devices d.id d.datapathId).2 hd]
    exact nofun
  rw [Maps.removeAgent_eq ((h.agents d.datapathId e d.id).2 ⟨he, hd⟩), if_neg hdev]

end

/-- With one controller, this is all. -/
theorem deleteAgent_single (connection : ℕ × String → Connection) (p : ℕ) (e : String) (s : Maps) :
    Maps.deleteAgent connection p [e] s = Maps.removeAgent connection p e s := by
  rw [Maps.deleteAgent, Act.bind_apply]
  rcases Maps.removeAgent connection p e s with ⟨_ | _, _⟩ <;> rfl

/-- With more controllers, the second removal of the device id fails. -/
theorem deleteAgent_many {e₁ e₂ : String} {rest : List String} (hne : e₁ ≠ e₂)
    (h : Serves (e₁ :: e₂ :: rest) served s) (hd : d ∈ served) :
    (Maps.deleteAgent connection d.datapathId (e₁ :: e₂ :: rest) s).1 ≠ .ok () := by
  have hget₂ := (h.agents d.datapathId e₂ d.id).2
    ⟨mem_cons_of_mem _ mem_cons_self, hd⟩
  rw [Maps.deleteAgent, Act.bind_apply, h.removeAgent mem_cons_self hd]
  by_cases hstop₁ : (connection (d.datapathId, e₁)).stopRaises
  · rw [if_pos hstop₁]
    exact nofun
  · rw [if_neg hstop₁]
    dsimp only
    have hget₂' : get (OrderedDict.erase (d.datapathId, e₁) s.agentMap)
        (d.datapathId, e₂) = some d.id := by
      rw [get_erase, if_neg fun heq => hne (Prod.mk.inj heq).2.symm, hget₂]
    have hgone :
        get (OrderedDict.erase d.id s.deviceIdToDatapathIdMap) d.id = none := by
      rw [get_erase, if_pos rfl]
    rw [Maps.deleteAgent, Act.bind_apply, Maps.removeAgent_eq hget₂', if_pos hgone]
    by_cases hstop₂ : (connection (d.datapathId, e₂)).stopRaises
    · rw [if_pos hstop₂]
      exact nofun
    · rw [if_neg hstop₂]
      exact nofun

/-- The agents of obsolete devices are deleted exactly if there is one controller and all of them
can be stopped. -/
theorem deleteAgents (connection : ℕ × String → Connection) {e : String} :
    ∀ {toDel : List ℕ} {served : List LogicalDevice} {s : Maps}, Serves [e] served s →
      toDel.Nodup → (∀ p ∈ toDel, ∃ d ∈ served, d.datapathId = p) →
      ((Maps.deleteAgents connection [e] toDel s).1 = .ok () ↔
          ∀ p ∈ toDel, (connection (p, e)).stopRaises = false) ∧
        ((Maps.deleteAgents connection [e] toDel s).1 = .ok () →
          Serves [e] (served.filter fun d => d.datapathId ∉ toDel)
            (Maps.deleteAgents connection [e] toDel s).2)
  | [], served, s, h, _, _ => by
    refine ⟨iff_of_true rfl nofun, fun _ => ?_⟩
    exact h.congr (fun d => by simp) (fun hnil => absurd hnil (cons_ne_nil _ _))
  | p :: toDel, served, s, h, hnodup, hserved => by
    rw [nodup_cons] at hnodup
    obtain ⟨d, hd, rfl⟩ := hserved p mem_cons_self
    rw [Maps.deleteAgents, Act.bind_apply, deleteAgent_single,
      h.removeAgent (mem_singleton_self e) hd]
    by_cases hstop : (connection (d.datapathId, e)).stopRaises
    · rw [if_pos hstop]
      refine ⟨iff_of_false nofun fun hall => ?_, nofun⟩
      exact Bool.false_ne_true ((hall _ mem_cons_self).symm.trans hstop)
    · rw [if_neg hstop]
      have hrest : ∀ p ∈ toDel, ∃ d' ∈ served.filter fun d' => d'.datapathId ≠ d.datapathId,
          d'.datapathId = p := by
        intro p hp
        obtain ⟨d', hd', rfl⟩ := hserved p (mem_cons_of_mem _ hp)
        have hne : d'.datapathId ≠ d.datapathId := fun heq => hnodup.1 (heq ▸ hp)
        exact ⟨d', mem_filter.2 ⟨hd', by simpa using hne⟩, rfl⟩
      obtain ⟨hiff, hserves⟩ := deleteAgents connection (h.erase hd) hnodup.2 hrest
      refine ⟨?_, fun hok => ?_⟩
      · rw [forall_mem_cons]
        exact hiff.trans (and_iff_right (Bool.eq_false_iff.2 hstop)).symm
      · refine (hserves hok).congr (fun d' => ?_) (fun hnil => absurd hnil (cons_ne_nil _ _))
        simp only [mem_filter, mem_cons, decide_eq_true_iff, not_or, and_assoc]

end Serves

/-! ## Refreshing -/

variable {order : DatapathOrder} {controllers : Controllers} {s : Maps} {r : Refresh}

/-- The datapath ids of a list. -/
abbrev Refresh.desired (r : Refresh) : List ℕ := r.list.devices.map LogicalDevice.datapathId

/-- The datapath ids whose agents are deleted. -/
abbrev Refresh.obsolete (r : Refresh) (s : Maps) : List ℕ :=
  s.currentDatapathIds.filter (· ∉ r.desired)

/-- What is to hold of a call: it returns, and leaves the maps of the list. -/
structure RefreshesRight (order : DatapathOrder) (controllers : Controllers) (s : Maps)
    (r : Refresh) : Prop where
  returns : (s.refresh order controllers r).1 = .ok ()
  agents : ∀ p e, (p, e) ∈ (s.refresh order controllers r).2.agentMap.map Prod.fst ↔
    p ∈ r.desired ∧ e ∈ controllers.endpoints
  devices : ∀ i p, get (s.refresh order controllers r).2.deviceIdToDatapathIdMap i =
    some p ↔ ⟨i, p⟩ ∈ r.list.devices

/-- No datapath id of the list is known under another device id, there is a controller if there is
a device, and if an agent is to be deleted, it can be stopped and its controller is the only one. -/
structure Fits (controllers : Controllers) (s : Maps) (r : Refresh) : Prop where
  sameIds : ∀ i, ∀ d ∈ r.list.devices,
    get s.deviceIdToDatapathIdMap i = some d.datapathId → i = d.id
  controlled : controllers.endpoints = [] → r.list.devices = []
  stoppable : ∀ p ∈ s.currentDatapathIds, p ∉ r.desired →
    ∃ e, controllers.endpoints = [e] ∧ (r.connection (p, e)).stopRaises = false

/-- The datapath ids have not changed. -/
abbrev Refresh.Same (r : Refresh) (s : Maps) : Prop :=
  r.desired ⊆ s.currentDatapathIds ∧ s.currentDatapathIds ⊆ r.desired

theorem refresh_of_same (h : r.Same s) : s.refresh order controllers r = (.ok (), s) := by
  rw [Maps.refresh, Maps.refreshAgentConnections, Act.read_bind, if_pos h]
  rfl

/-- The first loop of a call. -/
abbrev deletion (order : DatapathOrder) (controllers : Controllers) (s : Maps) (r : Refresh) :
    Except String Unit × Maps :=
  Maps.deleteAgents r.connection controllers.endpoints (order.iter (r.obsolete s)) s

/-- The maps after the second loop. -/
abbrev creation (controllers : Controllers) (s : Maps) (r : Refresh) (s' : Maps) : Maps :=
  (r.list.devices.filter fun d => d.datapathId ∉ s.currentDatapathIds).foldl
    (Maps.createAgent controllers.endpoints) s'

/-- The call if they have changed, and all agents can be deleted. -/
theorem refresh_of_deleted (h : ¬ r.Same s) (hdel : (deletion order controllers s r).1 = .ok ()) :
    s.refresh order controllers r =
      (.ok (), creation controllers s r (deletion order controllers s r).2) := by
  have hdel' : deletion order controllers s r = (.ok (), (deletion order controllers s r).2) :=
    Prod.ext hdel rfl
  rw [Maps.refresh, Maps.refreshAgentConnections, Act.read_bind, if_neg h]
  exact Act.bind_of_ok hdel'

/-- A call that returns has deleted all agents that it had to. -/
theorem deleted_of_returns (h : ¬ r.Same s) (hret : (s.refresh order controllers r).1 = .ok ()) :
    (deletion order controllers s r).1 = .ok () := by
  rcases hdel : deletion order controllers s r with ⟨err | _, s'⟩
  · rw [Maps.refresh, Maps.refreshAgentConnections, Act.read_bind, if_neg h,
      Act.bind_of_error hdel] at hret
    cases hret
  · rfl

section Fits

variable {served : List LogicalDevice}

section

variable (h : Serves controllers.endpoints served s)
include h

/-- The obsolete datapath ids, in the order in which they are deleted. -/
theorem mem_obsolete :
    p ∈ order.iter (r.obsolete s) ↔ (∃ d ∈ served, d.datapathId = p) ∧ p ∉ r.desired := by
  rw [(order.iter_perm _).mem_iff, mem_filter, h.mem_currentDatapathIds, decide_eq_true_iff]

omit h in
theorem nodup_obsolete (order : DatapathOrder) (r : Refresh) (s : Maps) :
    (order.iter (r.obsolete s)).Nodup :=
  (order.iter_perm _).nodup_iff.2 (List.Nodup.filter _ (nodup_dedup _))

omit h in
/-- **The first loop of a call returns exactly if all agents that it deletes can be stopped and have
the only controller**, and leaves the devices that stay. -/
theorem Serves.deletion (order : DatapathOrder) (r : Refresh)
    (h : Serves controllers.endpoints served s) :
    ((deletion order controllers s r).1 = .ok () ↔ ∀ p ∈ s.currentDatapathIds, p ∉ r.desired →
        ∃ e, controllers.endpoints = [e] ∧ (r.connection (p, e)).stopRaises = false) ∧
      ((deletion order controllers s r).1 = .ok () → Serves controllers.endpoints
        (served.filter fun d => d.datapathId ∉ order.iter (r.obsolete s))
        (deletion order controllers s r).2) := by
  have hserved : ∀ p ∈ order.iter (r.obsolete s), ∃ d ∈ served, d.datapathId = p :=
    fun p hp => ((mem_obsolete h).1 hp).1
  have hmem : ∀ p, p ∈ s.currentDatapathIds ∧ p ∉ r.desired ↔ p ∈ order.iter (r.obsolete s) :=
    fun p => by rw [mem_obsolete h, h.mem_currentDatapathIds]
  have hnodup := nodup_obsolete order r s
  have hendpoints := controllers.nodup
  simp only [← and_imp, hmem]
  rw [OfAgent.deletion]
  generalize order.iter (r.obsolete s) = toDel at hserved hnodup ⊢
  rcases toDel with _ | ⟨p, toDel⟩
  · exact ⟨iff_of_true rfl nofun, fun _ => h.congr (fun d => by simp) fun hnil => by
      rw [h.controllers hnil]; rfl⟩
  · obtain ⟨d, hd, rfl⟩ := hserved p mem_cons_self
    rcases hes : controllers.endpoints with _ | ⟨e, _ | ⟨e', rest⟩⟩
    · exact absurd (h.controllers hes ▸ hd) not_mem_nil
    · rw [hes] at h
      obtain ⟨hiff, hserves⟩ := h.deleteAgents r.connection hnodup hserved
      refine ⟨hiff.trans (forall₂_congr fun q _ => ?_), hserves⟩
      simp
    · rw [hes] at h hendpoints
      have hne : e ≠ e' := fun heq => (nodup_cons.1 hendpoints).1 (heq ▸ mem_cons_self)
      have herr : (Maps.deleteAgents r.connection (e :: e' :: rest) (d.datapathId :: toDel) s).1 ≠
          .ok () := by
        rw [Maps.deleteAgents, Act.bind_apply]
        rcases hfirst : Maps.deleteAgent r.connection d.datapathId (e :: e' :: rest) s
          with ⟨err | _, s'⟩
        · exact nofun
        · exact absurd (congrArg Prod.fst hfirst) (h.deleteAgent_many hne hd)
      refine ⟨iff_of_false herr fun hall => ?_, fun hok => absurd hok herr⟩
      obtain ⟨_, he, -⟩ := hall _ mem_cons_self
      cases he

section

variable (hfits : Fits controllers s r)
include hfits

/-- A device that stays is listed under its id. -/
theorem Fits.eq_of_datapathId {d' : LogicalDevice} (hd : d ∈ served) (hd' : d' ∈ r.list.devices)
    (heq : d.datapathId = d'.datapathId) : d = d' := by
  have hid : d.id = d'.id := hfits.sameIds d.id d' hd' (heq ▸ (h.devices d.id d.datapathId).2 hd)
  cases d
  cases d'
  cases heq
  cases hid
  rfl

theorem Fits.mem_of_desired (hd : d ∈ served) (hdes : d.datapathId ∈ r.desired) :
    d ∈ r.list.devices := by
  obtain ⟨d', hd', heq⟩ := mem_map.1 hdes
  exact hfits.eq_of_datapathId h hd hd' heq.symm ▸ hd'

theorem Fits.mem_of_current (hd : d ∈ r.list.devices) (hcur : d.datapathId ∈ s.currentDatapathIds) :
    d ∈ served := by
  obtain ⟨d', hd', heq⟩ := h.mem_currentDatapathIds.1 hcur
  exact hfits.eq_of_datapathId h hd' hd heq ▸ hd'

omit hfits in
omit h in
/-- **A call that fits returns, and leaves the maps of its list.** -/
theorem Serves.refresh (order : DatapathOrder) (h : Serves controllers.endpoints served s)
    (hfits : Fits controllers s r) :
    (s.refresh order controllers r).1 = .ok () ∧
      Serves controllers.endpoints r.list.devices (s.refresh order controllers r).2 := by
  by_cases hsame : r.Same s
  · rw [refresh_of_same hsame]
    refine ⟨rfl, h.congr (fun d => ⟨fun hd => ?_, fun hd => ?_⟩) hfits.controlled⟩
    · exact hfits.mem_of_desired h hd
        (hsame.2 (h.mem_currentDatapathIds.2 ⟨d, hd, rfl⟩))
    · exact hfits.mem_of_current h hd (hsame.1 (mem_map_of_mem hd))
  · obtain ⟨hiff, hkept⟩ := h.deletion order r
    have hok := hiff.2 hfits.stoppable
    rw [refresh_of_deleted hsame hok]
    have hne : controllers.endpoints ≠ [] := by
      intro hnil
      refine hsame ⟨?_, fun p hp => ?_⟩
      · rw [Refresh.desired, hfits.controlled hnil]
        exact nil_subset _
      · obtain ⟨d, hd, -⟩ := h.mem_currentDatapathIds.1 hp
        exact absurd (h.controllers hnil ▸ hd) not_mem_nil
    -- the devices that stay are those of the list that are not new
    have hstay : ∀ d, d ∈ served.filter (fun d => d.datapathId ∉ order.iter (r.obsolete s)) ↔
        d ∈ r.list.devices ∧ d.datapathId ∈ s.currentDatapathIds := by
      intro d
      rw [mem_filter, decide_eq_true_iff, mem_obsolete h, not_and, not_not]
      constructor
      · rintro ⟨hd, hdes⟩
        exact ⟨hfits.mem_of_desired h hd (hdes ⟨d, hd, rfl⟩),
          h.mem_currentDatapathIds.2 ⟨d, hd, rfl⟩⟩
      · rintro ⟨hd, hcur⟩
        exact ⟨hfits.mem_of_current h hd hcur, fun _ => mem_map_of_mem hd⟩
    have hsub := filter_sublist (p := fun d : LogicalDevice =>
      decide (d.datapathId ∉ s.currentDatapathIds)) (l := r.list.devices)
    refine ⟨rfl, (Serves.createAgents hne (hkept hok) (r.list.nodup_ids.sublist (hsub.map _))
      (r.list.nodup_datapathIds.sublist (hsub.map _)) fun d hd d' hd' => ?_).congr (fun d => ?_)
        fun hnil => absurd hnil hne⟩
    · rw [mem_filter, decide_eq_true_iff] at hd
      rw [hstay] at hd'
      refine ⟨fun heq => hd.2 (heq ▸ hd'.2), fun heq => ?_⟩
      have hdd : d' = d := inj_on_of_nodup_map r.list.nodup_ids hd'.1 hd.1 heq
      exact hd.2 (hdd ▸ hd'.2)
    · rw [mem_append, hstay, mem_filter, decide_eq_true_iff, ← and_or_left,
        and_iff_left (em _)]

theorem Serves.refreshesRight : RefreshesRight order controllers s r := by
  obtain ⟨hok, hserves⟩ := h.refresh order hfits
  refine ⟨hok, fun p e => ?_, hserves.devices⟩
  constructor
  · intro hmem
    obtain ⟨i, hi⟩ := exists_lookup hmem
    obtain ⟨he, hd⟩ := (hserves.agents p e i).1 hi
    exact ⟨mem_map_of_mem hd, he⟩
  · rintro ⟨hp, he⟩
    obtain ⟨d, hd, rfl⟩ := mem_map.1 hp
    exact mem_keys_of_get ((hserves.agents _ e d.id).2 ⟨he, hd⟩)

end

end

/-- Where the entries of the map of devices come from. -/
theorem Serves.get_deviceMap_of_refresh (h : Serves controllers.endpoints served s)
    (hret : (s.refresh order controllers r).1 = .ok ()) {i : String}
    (hget : get (s.refresh order controllers r).2.deviceIdToDatapathIdMap i = some p) :
    ⟨i, p⟩ ∈ served ∨ controllers.endpoints ≠ [] ∧ p ∉ s.currentDatapathIds := by
  by_cases hsame : r.Same s
  · rw [refresh_of_same hsame] at hget
    exact .inl ((h.devices i p).1 hget)
  · have hok := deleted_of_returns hsame hret
    rw [refresh_of_deleted hsame hok] at hget
    rcases Maps.get_deviceMap_of_createAgents hget with hget | ⟨hne, d, hd, rfl⟩
    · exact .inl (mem_filter.1 ((((h.deletion order r).2 hok).devices i p).1 hget)).1
    · rw [mem_filter, decide_eq_true_iff] at hd
      exact .inr ⟨hne, hd.2⟩

/-- **A call of maps that serve a list fits exactly if it is right.** -/
theorem Serves.fits_iff (h : Serves controllers.endpoints served s) :
    Fits controllers s r ↔ RefreshesRight order controllers s r := by
  refine ⟨h.refreshesRight, fun hright =>
    ⟨fun i d hd hi => ?_, fun hnil => ?_, fun p hp hdes => ?_⟩⟩
  · have hserved : ⟨i, d.datapathId⟩ ∈ served := (h.devices i d.datapathId).1 hi
    have hcur : d.datapathId ∈ s.currentDatapathIds :=
      h.mem_currentDatapathIds.2 ⟨_, hserved, rfl⟩
    have hold := (h.get_deviceMap_of_refresh hright.returns
      ((hright.devices d.id d.datapathId).2 hd)).resolve_right fun hnew => hnew.2 hcur
    exact congrArg LogicalDevice.id (h.injective _ hserved _ hold rfl)
  · rw [eq_nil_iff_forall_not_mem]
    intro d hd
    have hold := (h.get_deviceMap_of_refresh hright.returns
      ((hright.devices d.id d.datapathId).2 hd)).resolve_right fun hnew => hnew.1 hnil
    exact absurd (h.controllers hnil ▸ hold) not_mem_nil
  · have hok := deleted_of_returns (fun hsame => hdes (hsame.2 hp)) hright.returns
    exact (h.deletion order r).1.1 hok p hp hdes

end Fits

/-- **All calls of a run return and leave the right maps exactly if all of them fit.** -/
theorem refreshesRight_iff (order : DatapathOrder) (controllers : Controllers)
    (calls : List Refresh) :
    AllAlong (fun s r => (Maps.refresh order controllers s r).2) (Fits controllers) Maps.empty
        calls ↔
      AllAlong (fun s r => (Maps.refresh order controllers s r).2)
        (RefreshesRight order controllers) Maps.empty calls :=
  allAlong_congr (I := fun s => ∃ served, Serves controllers.endpoints served s)
    (fun _ _ ⟨_, h⟩ hfits => ⟨_, (h.refresh order hfits).2⟩) (fun _ _ ⟨_, h⟩ => h.fits_iff)
    ⟨[], Serves.empty controllers.endpoints⟩

/-- Sets of datapath ids in the order of their lists. -/
def plainOrder : DatapathOrder := ⟨id, fun _ => List.Perm.refl _⟩

def oneDevice : DeviceList := ⟨[⟨"a", 1⟩], by decide, by decide⟩

def noDevice : DeviceList := ⟨[], by decide, by decide⟩

/-- With two connected controllers, a device comes and goes: the second removal of its id raises an
error.  With one controller, the agent of a device that goes before it has a connector stays.  A
datapath id that comes back under another device id keeps its old one. -/
theorem agents_astray :
    let two : Controllers := ⟨["c1:6653", "c2:6653"], by decide⟩
    let one : Controllers := ⟨["c1:6653"], by decide⟩
    let connected := fun _ => Connection.connected
    let first := fun c => (Maps.refresh plainOrder c Maps.empty ⟨oneDevice, connected⟩).2
    (first two).refresh plainOrder two ⟨noDevice, connected⟩ = (.error "KeyError", ⟨[], []⟩) ∧
      (first one).refresh plainOrder one ⟨noDevice, fun _ => .none⟩ =
        (.error "AttributeError", first one) ∧
      ((first one).refresh plainOrder one ⟨⟨[⟨"b", 1⟩], by decide, by decide⟩, connected⟩).2 =
        first one := by
  decide +kernel

end Voltha.OfAgent
