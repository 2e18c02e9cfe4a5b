import Voltha.Core.Messages
import Voltha.Lib.Act
import Voltha.Lib.OrderedDict

/-!
# The flow decomposer

`FlowDecomposer` is a mix-in: it turns the flows and groups of a logical device into flows of the
physical devices that make it up, by the routes that the class it is mixed into provides.  Those
methods are the fields of `Provider`; one of them, `flow_delete`, has effects, so decomposition is
a computation on the provider's state.

* `decomposeFlow`: the device flows of one logical flow.
* `decomposeRules`: the flow tables of all devices, default rules first.  In a device's table the
  first flow with an id stays.
-/

namespace Voltha.Core

open OrderedDict Act

variable {D : Digest}

/-! ## Building messages -/

/-- `in_port` -/
def inPort (n : ℕ) : OfbField := { type := .inPort, value := .port n }

/-- `metadata` -/
def metadata (n : ℕ) : OfbField := { type := .metadata, value := .tableMetadata n }

/-- `vlan_vid` -/
def vlanVid (n : ℕ) : OfbField := { type := .vlanVid, value := .vlanVid n }

/-- `vlan_pcp` -/
def vlanPcp (n : ℕ) : OfbField := { type := .vlanPcp, value := .vlanPcp n }

/-- `OFPCML_MAX` -/
def ofpcmlMax : ℕ := 0xffe5

/-- `OFPVID_PRESENT` -/
def ofpvidPresent : ℕ := 0x1000

/-- `OFPP_CONTROLLER` -/
def ofppController : ℕ := 0x7ffffffd

/-- `output` -/
def output (port : ℕ) : Action := { type := .output, action := .output port ofpcmlMax }

/-- `push_vlan` -/
def pushVlan (ethType : ℕ) : Action := { type := .pushVlan, action := .push ethType }

/-- `pop_vlan` -/
def popVlan : Action := { type := .popVlan }

/-- A match field of the basic class. -/
def basicField (field : OfbField) : OxmField :=
  { oxmClass := .openflowBasic, field := .ofb field }

/-- `set_field` -/
def setField (field : OfbField) : Action :=
  { type := .setField, action := .setField (basicField field) }

/-- `hash_flow_stats` -/
def hashFlowStats (D : Digest) (flow : FlowKey) : D.Id := D.md5 flow

/-- `flow_stats_entry_from_flow_mod_message` -/
def flowStatsEntryFromFlowModMessage (D : Digest) (mod : FlowMod) : FlowStats D :=
  { id := hashFlowStats D ⟨mod.tableId, mod.priority, mod.flags, mod.cookie, mod.match⟩
    tableId := mod.tableId
    priority := mod.priority
    idleTimeout := mod.idleTimeout
    hardTimeout := mod.hardTimeout
    flags := mod.flags
    cookie := mod.cookie
    packetCount := 0
    byteCount := 0
    «match» := mod.match
    instructions := mod.instructions }

/-- `mk_simple_flow_mod`, for the default command, table and flags -/
def mkSimpleFlowMod (priority cookie : ℕ) (matchFields : List OfbField) (actions : List Action) :
    FlowMod :=
  { priority := priority
    cookie := cookie
    «match» := { type := .oxm, oxmFields := matchFields.map basicField }
    instructions := [{ type := .applyActions, data := .actions actions }] }

/-- `mk_flow_stat` -/
def mkFlowStat (D : Digest) (priority cookie : ℕ) (matchFields : List OfbField)
    (actions : List Action) : FlowStats D :=
  flowStatsEntryFromFlowModMessage D (mkSimpleFlowMod priority cookie matchFields actions)

/-- `group_entry_from_group_mod` -/
def groupEntryFromGroupMod (mod : GroupMod) : GroupEntry :=
  { type := mod.type, groupId := mod.groupId, buckets := mod.buckets, statsGroupId := mod.groupId }

/-! ## Reading flows -/

/-- `assert` -/
def pyAssert (cond : Bool) (text : String) : Except Err Unit :=
  if cond then .ok () else .error (.assertionError text)

theorem pyAssert_of {p : Prop} [Decidable p] (h : p) (text : String) :
    pyAssert (decide p) text = .ok () := if_pos (decide_eq_true h)

/-- `get_actions`: the actions of the first `APPLY_ACTIONS` instruction, `None` without one. -/
def getActions (flow : FlowStats D) : Option (List Action) :=
  (flow.instructions.find? fun i => i.type = .applyActions).map Instruction.actions

/-- Iterating over `get_actions(flow)`, which raises on `None`. -/
def iterActions (flow : FlowStats D) : Except Err (List Action) :=
  match getActions flow with
  | some l => .ok l
  | none => .error (.typeError "'NoneType' object is not iterable")

/-- `get_ofb_fields` -/
def getOfbFields (flow : FlowStats D) : Except Err (List OfbField) := do
  pyAssert (flow.match.type = .oxm) "flow.match.type == ofp.OFPMT_OXM"
  pyAssert (flow.match.oxmFields.all fun f => f.oxmClass = .openflowBasic)
    "field.oxm_class == ofp.OFPXMC_OPENFLOW_BASIC"
  pure (flow.match.oxmFields.map OxmField.ofbField)

/-- `get_out_port` -/
def getOutPort (flow : FlowStats D) : Except Err (Option ℕ) := do
  let actions ← iterActions flow
  pure ((actions.find? fun a => a.type = .output).map Action.outputPort)

/-- `get_in_port` -/
def getInPort (flow : FlowStats D) : Except Err (Option ℕ) := do
  let fields ← getOfbFields flow
  pure ((fields.find? fun f => f.type = .inPort).map OfbField.port)

/-- `get_goto_table_id` -/
def getGotoTableId (flow : FlowStats D) : Option ℕ :=
  (flow.instructions.find? fun i => i.type = .gotoTable).map Instruction.gotoTableId

/-- `has_next_table` -/
def hasNextTable (flow : FlowStats D) : Bool := (getGotoTableId flow).isSome

/-- `get_metadata` -/
def getMetadata (flow : FlowStats D) : Except Err (Option ℕ) := do
  let fields ← getOfbFields flow
  pure ((fields.find? fun f => f.type = .metadata).map OfbField.tableMetadata)

/-- `get_group` -/
def getGroup (flow : FlowStats D) : Except Err (Option ℕ) := do
  let actions ← iterActions flow
  pure ((actions.find? fun a => a.type = .group).map Action.groupId)

/-! ## Routes and device tables -/

/-- `RouteHop` -/
structure RouteHop where
  device : Device
  ingressPort : Port
  egressPort : Port
  deriving DecidableEq, Repr

/-- A route of two hops; a half route lacks one of them. -/
abbrev Route := Option RouteHop × Option RouteHop

/-- The flow table and the group table that a device is to have, by flow id and by group id. -/
structure DeviceRules (D : Digest) where
  flows : List (D.Id × FlowStats D) := []
  groups : List (ℕ × GroupEntry) := []
  deriving DecidableEq

/-- The flows that one logical flow gives to each device.  The group lists that `decompose_flow`
puts beside them stay empty. -/
abbrev FlowRules (D : Digest) := List (String × List (FlowStats D))

/-- The methods that the class with the decomposer mixed in provides. -/
structure Provider (D : Digest) (σ : Type) where
  getAllDefaultRules : List (String × DeviceRules D)
  getRoute : Option ℕ → Option ℕ → Except Err (Option Route)
  getWildcardInputPorts : ℕ → List ℕ
  flowDelete : FlowStats D → Act σ Err Unit

/-- The hop whose attribute is read, which raises on `None`. -/
def hopOf (attr : String) (hop : Option RouteHop) : Except Err RouteHop :=
  match hop with
  | some h => .ok h
  | none => .error (.attributeError s!"'NoneType' object has no attribute '{attr}'")

/-- `device_rules.setdefault(device_id, ([], []))`, and the flows that are then appended. -/
def appendFlows (deviceId : String) (flows : List (FlowStats D)) (rules : FlowRules D) :
    FlowRules D :=
  insert deviceId (((rules.lookup deviceId).getD []) ++ flows) rules

/-- The fields of a flow whose type is not among the given ones. -/
def fieldsBut (types : List OfbType) (fields : List OfbField) : List OfbField :=
  fields.filter fun f => f.type ∉ types

/-- The actions of a flow whose type is not the given one. -/
def actionsBut (type : ActionType) (actions : List Action) : List Action :=
  actions.filter fun a => a.type ≠ type

/-! ## Decomposing one flow -/

/-- The two flows of a controller-bound flow for one input port. -/
def controllerFlows (flow : FlowStats D) (fields : List OfbField) (egress : RouteHop)
    (inputPort : ℕ) : List (FlowStats D) :=
  [ -- upstream flow
    mkFlowStat D flow.priority flow.cookie
      ([inPort egress.ingressPort.portNo, vlanVid (ofpvidPresent ||| inputPort)] ++
        fieldsBut [.inPort, .vlanVid] fields)
      [pushVlan 0x8100, setField (vlanVid (ofpvidPresent ||| 4000)),
        output egress.egressPort.portNo],
    -- downstream flow
    mkFlowStat D flow.priority 0
      [inPort egress.egressPort.portNo, vlanVid (ofpvidPresent ||| 4000), vlanPcp 0,
        metadata inputPort]
      [popVlan, output egress.ingressPort.portNo] ]

/-- A flow that matches on the ingress port of a hop and puts out on its egress port. -/
def hopFlow (flow : FlowStats D) (fields : List OfbField) (hop : RouteHop)
    (actions : List Action) : FlowStats D :=
  mkFlowStat D flow.priority flow.cookie
    (inPort hop.ingressPort.portNo :: fields) (actions ++ [output hop.egressPort.portNo])

/-- The scan of a bucket's actions: the output port, kept from before if there is none, and the
actions that stay. -/
def scanBucket (outPortNo : Option ℕ) (actions : List Action) : Option ℕ × List Action :=
  actions.foldl
    (fun acc a =>
      if a.type = .popVlan then acc
      else if a.type = .output then (some a.outputPort, acc.2)
      else (acc.1, acc.2 ++ [a]))
    (outPortNo, [])

section

variable {σ : Type} (self : Provider D σ)

/-- One bucket of a multicast group.  The output port is a variable of the whole loop. -/
def decomposeBucket (flow : FlowStats D) (fields : List OfbField) (inPortNo : Option ℕ)
    (ingress : RouteHop) (acc : Option ℕ × FlowRules D) (bucket : Bucket) :
    Act σ Err (Option ℕ × FlowRules D) := do
  let (outPortNo, otherActions) := scanBucket acc.1 bucket.actions
  -- re-run route request to determine egress device and ports
  match ← ofExcept (self.getRoute inPortNo outPortNo) with
  | none =>
    self.flowDelete flow
    pure (outPortNo, acc.2)
  | some (ingress2, egress) =>
    let ingress2 ← ofExcept (hopOf "ingress_port" ingress2)
    ofExcept (pyAssert (ingress.ingressPort = ingress2.ingressPort)
      "ingress_hop.ingress_port == ingress_hop2.ingress_port")
    let egress ← ofExcept (hopOf "device" egress)
    pure (outPortNo, appendFlows egress.device.id
      [hopFlow flow (fieldsBut [.inPort, .vlanVid, .vlanPcp] fields) egress otherActions] acc.2)

/-- A downstream flow without output port and next table. -/
def decomposeMulticast (flow : FlowStats D) (groupMap : List (ℕ × GroupEntry))
    (fields : List OfbField) (actions : List Action) (inPortNo : Option ℕ) (ingress : RouteHop) :
    Act σ Err (FlowRules D) := do
  match ← ofExcept (getGroup flow) with
  | none => raise (.assertionError "grp_id is not None")
  | some grpId =>
    let rules := appendFlows ingress.device.id
      [hopFlow flow (fieldsBut [.inPort] fields) ingress (actionsBut .group actions ++ [popVlan])]
      []
    -- having no group yet is the same as having a group with no buckets
    let group := (groupMap.lookup grpId).getD {}
    let (_, rules) ← group.buckets.foldlM (decomposeBucket self flow fields inPortNo ingress)
      (none, rules)
    pure rules

/-- `decompose_flow` -/
def decomposeFlow (flow : FlowStats D) (groupMap : List (ℕ × GroupEntry)) :
    Act σ Err (FlowRules D) := do
  let inPortNo ← ofExcept (getInPort flow)
  let outPortNo ← ofExcept (getOutPort flow)
  let fields ← ofExcept (getOfbFields flow)
  let actions ← ofExcept (iterActions flow)
  match ← ofExcept (self.getRoute inPortNo outPortNo) with
  | none =>
    self.flowDelete flow
    pure []
  | some (ingressHop, egressHop) =>
    if outPortNo.any fun p => p &&& 0x7fffffff = ofppController then
      let egress ← ofExcept (hopOf "device" egressHop)
      let inPorts := match inPortNo with
        | none => self.getWildcardInputPorts egress.egressPort.portNo
        | some p => [p]
      pure (appendFlows egress.device.id (inPorts.flatMap (controllerFlows flow fields egress)) [])
    else
      let ingress ← ofExcept (hopOf "device" ingressHop)
      if ingress.device.root = false then
        -- upstream
        if hasNextTable flow then
          ofExcept (pyAssert outPortNo.isNone "out_port_no is None")
          pure (appendFlows ingress.device.id
            [hopFlow flow (fieldsBut [.inPort] fields) ingress actions] [])
        else
          ofExcept (pyAssert outPortNo.isSome "out_port_no is not None")
          let egress ← ofExcept (hopOf "device" egressHop)
          pure (appendFlows egress.device.id
            [hopFlow flow (fieldsBut [.inPort] fields) egress (actionsBut .output actions)] [])
      else
        -- downstream
        if hasNextTable flow then
          ofExcept (pyAssert outPortNo.isNone "out_port_no is None")
          match ← ofExcept (getMetadata flow) with
          | none =>
            pure (appendFlows ingress.device.id
              [hopFlow flow (fieldsBut [.inPort] fields) ingress actions] [])
          | some innerTag =>
            -- the route is recalculated with the inner tag as logical output port
            match ← ofExcept (self.getRoute inPortNo (some innerTag)) with
            | none =>
              self.flowDelete flow
              pure []
            | some (ingressHop, _) =>
              let ingress ← ofExcept (hopOf "device" ingressHop)
              pure (appendFlows ingress.device.id
                [hopFlow flow (fieldsBut [.inPort] fields) ingress actions] [])
        else if outPortNo.isSome then
          -- unicast case
          let egress ← ofExcept (hopOf "device" egressHop)
          pure (appendFlows egress.device.id
            [hopFlow flow (fieldsBut [.inPort] fields) egress (actionsBut .output actions)] [])
        else
          decomposeMulticast self flow groupMap fields actions inPortNo ingress

/-! ## Decomposing the tables -/

/-- Put a flow into a device's table unless its id is there. -/
def addFlow (flows : List (D.Id × FlowStats D)) (flow : FlowStats D) :
    List (D.Id × FlowStats D) :=
  setNew flow.id flow flows

/-- Put the flows that one logical flow gives to a device into the device's table. -/
def mergeRules (deviceRules : List (String × DeviceRules D)) (rules : String × List (FlowStats D)) :
    List (String × DeviceRules D) :=
  let old := (deviceRules.lookup rules.1).getD {}
  insert rules.1 { old with flows := rules.2.foldl addFlow old.flows } deviceRules

/-- Groups by their id. -/
def groupMapOf (groups : List GroupEntry) : List (ℕ × GroupEntry) :=
  ofList (groups.map fun g => (g.groupId, g))

/-- `decompose_rules` -/
def decomposeRules (flows : List (FlowStats D)) (groups : List GroupEntry) :
    Act σ Err (List (String × DeviceRules D)) :=
  flows.foldlM
    (fun deviceRules flow => do
      let rules ← decomposeFlow self flow (groupMapOf groups)
      pure (rules.foldl mergeRules deviceRules))
    self.getAllDefaultRules

end

end Voltha.Core
