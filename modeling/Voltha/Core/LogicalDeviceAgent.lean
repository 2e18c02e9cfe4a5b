import Voltha.Core.FlowDecomposer

/-!
# The logical device agent

A `LogicalDeviceAgent` keeps the flow table and the group table of a logical device, and has them
decomposed into the tables of the physical devices whenever one of them changes.  It hears of a
change by callbacks of the configuration store: the agent writes the flows through a proxy, which
calls `_pre_process_flows` before the write and `_flow_table_updated` after it, the latter only
if the data has changed.  An exception of the second callback is logged and does not reach the
writer.

Decomposition deletes logical flows that have no route, and so writes the flow table from within
`_flow_table_updated`: the callbacks nest.  Each nested write makes the flow table shorter, and
`flowTableUpdated` recurses on a bound for the nesting.

The topology is fixed: the cached routes, default rules and port numbers are a parameter.
-/

namespace Voltha.Core

open OrderedDict Act

variable {D : Digest}

/-- The cached tables of the agent, computed from the devices and ports. -/
structure Topology (D : Digest) where
  routes : List ((ℕ × ℕ) × (RouteHop × RouteHop))
  defaultRules : List (String × DeviceRules D)
  nniLogicalPortNo : ℕ
  /-- The numbers of the logical ports. -/
  logicalPorts : List ℕ

/-- The stored tables, and the attribute by which `_pre_process_flows` talks to
`_flow_table_updated`. -/
structure Agent (D : Digest) where
  flows : List (FlowStats D) := []
  groups : List GroupEntry := []
  /-- The flows and the groups under `/devices/<id>`. -/
  devices : String → List (FlowStats D) × List GroupEntry := fun _ => ([], [])
  noFlowChangesRequired : Bool := false

/-! ## What the decomposer needs -/

/-- `get_route` -/
def Topology.getRoute (T : Topology D) (ingressPortNo egressPortNo : Option ℕ) :
    Except Err (Option Route) :=
  -- treat the controller as if the output port is the NNI of the OLT
  let egressPortNo := egressPortNo.map fun p =>
    if p &&& 0x7fffffff = ofppController then T.nniLogicalPortNo else p
  if ingressPortNo = none ∧ egressPortNo = some T.nniLogicalPortNo then
    -- any upstream route will do for its second hop
    match T.routes.find? fun r => r.1.2 = T.nniLogicalPortNo with
    | some r => .ok (some (none, some r.2.2))
    | none => .error (.exception "not a single upstream route")
  else
    match egressPortNo with
    | none =>
      match T.routes.find? fun r => some r.1.1 = ingressPortNo with
      | some r => .ok (some (some r.2.1, none))
      | none => .ok none
    | some egress =>
      match ingressPortNo with
      | none => .ok none
      | some ingress =>
        .ok ((T.routes.lookup (ingress, egress)).map fun r => (some r.1, some r.2))

/-- `get_wildcard_input_ports` -/
def Topology.getWildcardInputPorts (T : Topology D) (excludePort : ℕ) : List ℕ :=
  T.logicalPorts.filter fun p => p ≠ excludePort

/-- The agent as a decomposer, given what `flow_delete` does. -/
def Topology.provider {σ : Type} (T : Topology D) (flowDelete : FlowStats D → Act σ Err Unit) :
    Provider D σ :=
  { getAllDefaultRules := T.defaultRules
    getRoute := T.getRoute
    getWildcardInputPorts := T.getWildcardInputPorts
    flowDelete := flowDelete }

/-- `leaf_device_default_rules` -/
def leafDeviceDefaultRules (device : Device) (ports : List Port) : Except Err (DeviceRules D) :=
  match ports.filter fun p => p.type = .ponOnu ∨ p.type = .venetOnu with
  | [upstream] =>
    match ports.filter fun p => p.type = .ethernetUni with
    | [] => .error (.indexError "list index out of range")
    | downstream :: _ =>
      .ok { flows := ofList (List.map (fun f => (f.id, f)) [
        mkFlowStat D 500 0 [inPort downstream.portNo, vlanVid (ofpvidPresent ||| 0)]
          [setField (vlanVid (ofpvidPresent ||| device.vlan)), output upstream.portNo],
        mkFlowStat D 500 0 [inPort downstream.portNo, vlanVid 0]
          [pushVlan 0x8100, setField (vlanVid (ofpvidPresent ||| device.vlan)),
            output upstream.portNo],
        mkFlowStat D 500 0 [inPort upstream.portNo, vlanVid (ofpvidPresent ||| device.vlan)]
          [setField (vlanVid (ofpvidPresent ||| 0)), output downstream.portNo]]) }
  | _ => .error (.assertionError "len(upstream_ports) == 1")

/-- The default rules of a device; those of the root device are empty. -/
def deviceDefaultRules (rootDeviceId : String) (device : Device) (ports : List Port) :
    Except Err (DeviceRules D) :=
  if device.id = rootDeviceId then .ok {} else leafDeviceDefaultRules device ports

/-- `_generate_default_rules`, over the devices of the graph with their ports. -/
def generateDefaultRules (rootDeviceId : String) (devices : List (Device × List Port)) :
    Except Err (List (String × DeviceRules D)) :=
  devices.foldlM
    (fun rules d => do
      let r ← deviceDefaultRules rootDeviceId d.1 d.2
      pure (insert d.1.id r rules))
    []

/-! ## Matching flows -/

/-- `flow_match` -/
def flowMatch (f1 f2 : FlowStats D) : Bool :=
  f1.tableId = f2.tableId ∧ f1.priority = f2.priority ∧ f1.flags = f2.flags ∧
    f1.cookie = f2.cookie ∧ f1.match = f2.match

/-- `find_flow`, with `None` for the index -1 -/
def findFlow (flows : List (FlowStats D)) (flow : FlowStats D) : Option ℕ :=
  flows.findIdx? fun f => flowMatch f flow

/-- `OFPFF_SEND_FLOW_REM` -/
def ofpffSendFlowRem : ℕ := 1

/-- `OFPFF_CHECK_OVERLAP` -/
def ofpffCheckOverlap : ℕ := 2

/-- `OFPFF_RESET_COUNTS` -/
def ofpffResetCounts : ℕ := 4

/-- `OFPTT_ALL` -/
def ofpttAll : ℕ := 0xff

/-- `OFPP_ANY` -/
def ofppAny : ℕ := 0x7fffffff

/-- `OFPG_ANY` -/
def ofpgAny : ℕ := 0x7fffffff

/-- `OFPG_ALL` -/
def ofpgAll : ℕ := 0x7ffffffc

/-- Some action of an `APPLY_ACTIONS` instruction of the flow satisfies `p`. -/
def anyAppliedAction (p : Action → Bool) (flow : FlowStats D) : Bool :=
  flow.instructions.any fun i => decide (i.type = .applyActions) && i.actions.any p

/-- `flow_has_out_port` -/
def flowHasOutPort (flow : FlowStats D) (outPort : ℕ) : Bool :=
  anyAppliedAction (fun a => a.type = .output ∧ a.outputPort = outPort) flow

/-- `flow_has_out_group` -/
def flowHasOutGroup (flow : FlowStats D) (groupId : ℕ) : Bool :=
  anyAppliedAction (fun a => a.type = .group ∧ a.groupId = groupId) flow

/-- `flow_matches_spec`, for a flow modification -/
def flowMatchesSpec (flow : FlowStats D) (mod : FlowMod) : Except Err Bool :=
  if flow.cookie &&& mod.cookieMask ≠ mod.cookie &&& mod.cookieMask then
    .ok false
  else if mod.tableId ≠ ofpttAll ∧ flow.tableId ≠ mod.tableId then
    .ok false
  else if mod.outPort &&& 0x7fffffff ≠ ofppAny ∧ flowHasOutPort flow mod.outPort = false then
    .ok false
  else if mod.outGroup &&& 0x7fffffff ≠ ofpgAny ∧ flowHasOutGroup flow mod.outGroup = false then
    .ok false
  else if mod.match.oxmFields = [] then
    .ok true
  else
    .error (.notImplementedError "flow_matches_spec(): No flow match analysis yet")

/-- `find_overlapping_flows`, which is yet to be written -/
def findOverlappingFlows (_flows : List (FlowStats D)) (_mod : FlowMod) : List (FlowStats D) := []

/-! ## Writing the flow table -/

/-- `_pre_process_flows` -/
def preProcessFlows (items : List (FlowStats D)) (s : Agent D) : Agent D :=
  { s with noFlowChangesRequired :=
      (items.map FlowStats.id).all (· ∈ s.flows.map FlowStats.id) &&
        (s.flows.map FlowStats.id).all (· ∈ items.map FlowStats.id) }

/-- `flows_proxy.update('/', Flows(items=...))`, with the callback after the write. -/
def flowsProxyUpdate (flowTableUpdated : List (FlowStats D) → Act (Agent D) Err Unit)
    (items : List (FlowStats D)) : Act (Agent D) Err Unit := fun s =>
  let s := preProcessFlows items s
  if s.flows = items then (.ok (), s)
  else (.ok (), (flowTableUpdated items { s with flows := items }).2)

/-- The flows that the deletion of an entry keeps. -/
def toKeep (flow : FlowStats D) (flows : List (FlowStats D)) : List (FlowStats D) :=
  flows.filter fun f => !flowMatch f flow

/-- `flow_delete` of an entry of the table -/
def flowDeleteEntry (flowTableUpdated : List (FlowStats D) → Act (Agent D) Err Unit)
    (flow : FlowStats D) : Act (Agent D) Err Unit := fun s =>
  if s.flows.any fun f => flowMatch f flow then
    flowsProxyUpdate flowTableUpdated (toKeep flow s.flows) s
  else (.ok (), s)

/-- Write the decomposed rules to `/devices/<id>/flows` and `/devices/<id>/flow_groups`. -/
def writeDevices (deviceRules : List (String × DeviceRules D)) (s : Agent D) : Agent D :=
  deviceRules.foldl
    (fun s r =>
      let tables := (r.2.flows.map Prod.snd, r.2.groups.map Prod.snd)
      { s with devices := Function.update s.devices r.1 tables })
    s

/-- Decompose the given tables and write the result. -/
def propagate (self : Provider D (Agent D)) (flows : List (FlowStats D))
    (groups : List GroupEntry) : Act (Agent D) Err Unit := do
  let deviceRules ← decomposeRules self flows groups
  modify (writeDevices deviceRules)

/-- `_flow_table_updated`.  The first argument bounds the nesting. -/
def flowTableUpdated (T : Topology D) : ℕ → List (FlowStats D) → Act (Agent D) Err Unit
  | 0, _ => raise (.exception "maximum recursion depth exceeded")
  | fuel + 1, flows => fun s =>
    if s.noFlowChangesRequired then (.ok (), s)
    else propagate (T.provider (flowDeleteEntry (flowTableUpdated T fuel))) flows s.groups s

/-- The agent's write of the flow table.  Each nested write removes flows, so that the nesting is
bounded by their number. -/
def updateFlows (T : Topology D) (items : List (FlowStats D)) : Act (Agent D) Err Unit :=
  flowsProxyUpdate (flowTableUpdated T (items.length + 1)) items

/-! ## Flow commands -/

/-- `announce_flow_deleted` and `announce_flows_deleted` -/
def announceFlowsDeleted (flows : List (FlowStats D)) : Act (Agent D) Err Unit :=
  if flows.any fun f => f.flags &&& ofpffSendFlowRem ≠ 0 then
    raise (.notImplementedError "announce_flow_deleted")
  else pure ()

/-- The flow that an `ADD` puts in the place of an old one. -/
def replacement (mod : FlowMod) (flow old : FlowStats D) : FlowStats D :=
  if mod.flags &&& ofpffResetCounts = 0 then
    { flow with byteCount := old.byteCount, packetCount := old.packetCount }
  else flow

/-- The table that `flow_add` writes back, `None` if it has not changed. -/
def addToFlows (flows : List (FlowStats D)) (mod : FlowMod) : Option (List (FlowStats D)) :=
  let flow := flowStatsEntryFromFlowModMessage D mod
  if mod.flags &&& ofpffCheckOverlap ≠ 0 then
    -- without an overlap, free to add as new flow
    if findOverlappingFlows flows mod = [] then some (flows ++ [flow]) else none
  else
    match findFlow flows flow with
    | some idx => some (flows.modify idx (replacement mod flow))
    | none => some (flows ++ [flow])

/-- `flow_add` -/
def flowAdd (T : Topology D) (mod : FlowMod) : Act (Agent D) Err Unit := do
  ofExcept (pyAssert (mod.cookieMask = 0) "mod.cookie_mask == 0")
  match addToFlows (← read).flows mod with
  | some items => updateFlows T items
  | none => pure ()

/-- The flows to delete and those to keep, by a test that may raise. -/
def partitionFlows (test : FlowStats D → Except Err Bool) :
    List (FlowStats D) → Except Err (List (FlowStats D) × List (FlowStats D))
  | [] => .ok ([], [])
  | f :: flows => do
    let delete ← test f
    let (toDelete, toKeep) ← partitionFlows test flows
    pure (if delete then (f :: toDelete, toKeep) else (toDelete, f :: toKeep))

/-- `flow_delete` of a flow modification -/
def flowDelete (T : Topology D) (mod : FlowMod) : Act (Agent D) Err Unit := do
  let flows := (← read).flows
  let (toDelete, toKeep) ← ofExcept (partitionFlows (flowMatchesSpec · mod) flows)
  doIf (toDelete ≠ []) (updateFlows T toKeep)
  announceFlowsDeleted toDelete

/-- `flow_delete_strict` -/
def flowDeleteStrict (T : Topology D) (mod : FlowMod) : Act (Agent D) Err Unit := do
  let flows := (← read).flows
  match findFlow flows (flowStatsEntryFromFlowModMessage D mod) with
  | some idx => updateFlows T (flows.eraseIdx idx)
  | none => pure ()

/-- `update_flow_table` -/
def updateFlowTable (T : Topology D) (mod : FlowMod) : Act (Agent D) Err Unit :=
  match mod.command with
  | .add => flowAdd T mod
  | .delete => flowDelete T mod
  | .deleteStrict => flowDeleteStrict T mod
  | .modify => raise (.notImplementedError "")
  | .modifyStrict => raise (.notImplementedError "")

/-! ## Group commands -/

/-- `_group_table_updated` -/
def groupTableUpdated (T : Topology D) (groups : List GroupEntry) : Act (Agent D) Err Unit := do
  let flows := (← read).flows
  propagate (T.provider (flowDeleteEntry (flowTableUpdated T flows.length))) flows groups

/-- `groups_proxy.update('/', FlowGroups(items=...))` -/
def updateGroups (T : Topology D) (items : List GroupEntry) : Act (Agent D) Err Unit := fun s =>
  if s.groups = items then (.ok (), s)
  else (.ok (), (groupTableUpdated T items { s with groups := items }).2)

/-- `group_add` -/
def groupAdd (T : Topology D) (mod : GroupMod) : Act (Agent D) Err Unit := do
  let groups := groupMapOf (← read).groups
  doIf (mod.groupId ∉ groups.map Prod.fst)
    (updateGroups T
      ((insert mod.groupId (groupEntryFromGroupMod mod) groups).map Prod.snd))

/-- `group_delete` -/
def groupDelete (T : Topology D) (mod : GroupMod) : Act (Agent D) Err Unit := do
  let groups := groupMapOf (← read).groups
  if mod.groupId = ofpgAll then updateGroups T []
  else if mod.groupId ∈ groups.map Prod.fst then
    let flows := (← read).flows
    let toDelete := flows.filter fun f => flowHasOutGroup f mod.groupId
    announceFlowsDeleted toDelete
    updateGroups T ((groups.filter fun g => g.1 ≠ mod.groupId).map Prod.snd)
    -- the flows were read before the groups were written
    doIf (toDelete ≠ [])
      (updateFlows T (flows.filter fun f => !flowHasOutGroup f mod.groupId))
  else pure ()

/-- `group_modify` -/
def groupModify (T : Topology D) (mod : GroupMod) : Act (Agent D) Err Unit := do
  let groups := groupMapOf (← read).groups
  doIf (mod.groupId ∈ groups.map Prod.fst)
    (updateGroups T
      ((insert mod.groupId (groupEntryFromGroupMod mod) groups).map Prod.snd))

/-- `update_group_table` -/
def updateGroupTable (T : Topology D) (mod : GroupMod) : Act (Agent D) Err Unit :=
  match mod.command with
  | .delete => groupDelete T mod
  | .add => groupAdd T mod
  | .modify => groupModify T mod

/-! ## Runs -/

/-- A request to the agent. -/
inductive Request where
  | flow (mod : FlowMod)
  | group (mod : GroupMod)
  deriving DecidableEq

/-- Handle a request. -/
def handle (T : Topology D) : Request → Act (Agent D) Err Unit
  | .flow mod => updateFlowTable T mod
  | .group mod => updateGroupTable T mod

/-- The state after a request, whether it raises or not. -/
def afterRequest (T : Topology D) (s : Agent D) (r : Request) : Agent D := (handle T r s).2

/-! ## A small network

One OLT with one ONU behind it. -/

namespace Sample

/-- A digest without collisions. -/
def digest : Digest := { Id := FlowKey, md5 := id }

theorem digest_collisionFree : digest.CollisionFree := Function.injective_id

/-- The root device. -/
def olt : Device := { id := "olt", root := true }

/-- The leaf device. -/
def onu : Device := { id := "onu", vlan := 101 }

/-- The port of the OLT to the network. -/
def oltNni : Port := { portNo := 1, type := .ethernetNni, deviceId := "olt" }

/-- The port of the OLT to the ONU. -/
def oltPon : Port :=
  { portNo := 2, type := .ponOlt, deviceId := "olt", peers := [⟨"onu", 2⟩] }

/-- The port of the ONU to the customer. -/
def onuUni : Port := { portNo := 1, type := .ethernetUni, deviceId := "onu" }

/-- The port of the ONU to the OLT. -/
def onuPon : Port :=
  { portNo := 2, type := .ponOnu, deviceId := "onu", peers := [⟨"olt", 2⟩] }

/-- The logical ports are 0, at the network, and 101, at the customer. -/
def network : Topology digest :=
  { routes :=
      [((101, 0), (⟨onu, onuUni, onuPon⟩, ⟨olt, oltPon, oltNni⟩)),
        ((0, 101), (⟨olt, oltNni, oltPon⟩, ⟨onu, onuPon, onuUni⟩))]
    defaultRules := ((generateDefaultRules "olt"
      [(olt, [oltNni, oltPon]), (onu, [onuUni, onuPon])]).toOption).getD []
    nniLogicalPortNo := 0
    logicalPorts := [0, 101] }

/-- An upstream flow from the customer to the network. -/
def upstream (flags vlan : ℕ) : FlowMod :=
  { priority := 1000
    flags := flags
    «match» := { type := .oxm, oxmFields := [basicField (inPort 101), basicField (vlanVid vlan)] }
    instructions :=
      [{ type := .applyActions, data := .actions [pushVlan 0x8100, output 0] }] }

end Sample

end Voltha.Core
