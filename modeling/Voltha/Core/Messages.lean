import Mathlib

/-!
# Messages of the core

The protobuf messages that the agents of the core pass around: devices and their ports, and the
OpenFlow flows and groups.  A message is a record of its fields; an unset member of a `oneof` reads
as its default, as protobuf has it.  Fields that no modelled function reads are left out.

The digest of `hash_flow_stats` is third-party code and stays a parameter (`Digest`): what it is
computed from is a flow's identity, `FlowKey`.
-/

namespace Voltha.Core

/-- The exceptions of the modelled code. -/
inductive Err where
  | assertionError (text : String)
  | attributeError (text : String)
  | typeError (text : String)
  | indexError (text : String)
  | keyError (text : String)
  | valueError (text : String)
  | notImplementedError (text : String)
  | invalidStateTransition (text : String)
  | exception (text : String)
  deriving DecidableEq, Repr

/-! ## Devices and ports -/

/-- `AdminState.AdminState` -/
inductive AdminState where
  | unknown
  | preprovisioned
  | enabled
  | disabled
  | downloadingImage
  deriving DecidableEq, Repr

/-- `OperStatus.OperStatus` -/
inductive OperStatus where
  | unknown
  | discovered
  | activating
  | testing
  | active
  | failed
  deriving DecidableEq, Repr

/-- `ConnectStatus.ConnectStatus` -/
inductive ConnectStatus where
  | unknown
  | unreachable
  | reachable
  deriving DecidableEq, Repr

/-- `Port.PortType` -/
inductive PortType where
  | unknown
  | ethernetNni
  | ethernetUni
  | ponOlt
  | ponOnu
  | venetOlt
  | venetOnu
  deriving DecidableEq, Repr

/-- `Port.PeerPort` -/
structure PeerPort where
  deviceId : String
  portNo : ℕ
  deriving DecidableEq, Repr

/-- `Port` -/
structure Port where
  portNo : ℕ
  label : String := ""
  type : PortType := .unknown
  adminState : AdminState := .unknown
  operStatus : OperStatus := .unknown
  deviceId : String := ""
  peers : List PeerPort := []
  deriving DecidableEq, Repr

/-- `Device`, less the children that have nodes of their own (ports, flows, flow groups). -/
structure Device where
  id : String
  root : Bool := false
  vlan : ℕ := 0
  adminState : AdminState := .unknown
  operStatus : OperStatus := .unknown
  connectStatus : ConnectStatus := .unknown
  reason : String := ""
  deriving DecidableEq, Repr

/-! ## Match fields -/

/-- `oxm_ofb_field_types`: the types that the core looks at; any other one is its number. -/
inductive OfbType where
  | inPort
  | metadata
  | vlanVid
  | vlanPcp
  | other (number : ℕ)
  deriving DecidableEq, Repr

/-- The `oneof value` of `ofp_oxm_ofb_field`: the members that the core reads or sets; any other one
is its field number with its bytes. -/
inductive OfbValue where
  | unset
  | port (n : ℕ)
  | tableMetadata (n : ℕ)
  | vlanVid (n : ℕ)
  | vlanPcp (n : ℕ)
  | other (number : ℕ) (bytes : List ℕ)
  deriving DecidableEq, Repr

/-- `ofp_oxm_ofb_field` -/
structure OfbField where
  type : OfbType := .inPort
  hasMask : Bool := false
  value : OfbValue := .unset
  /-- The `oneof mask`: its field number with its bytes. -/
  mask : Option (ℕ × List ℕ) := none
  deriving DecidableEq, Repr

/-- `field.port` -/
def OfbField.port (f : OfbField) : ℕ :=
  match f.value with
  | .port n => n
  | _ => 0

/-- `field.table_metadata` -/
def OfbField.tableMetadata (f : OfbField) : ℕ :=
  match f.value with
  | .tableMetadata n => n
  | _ => 0

/-- `ofp_oxm_class` -/
inductive OxmClass where
  | nxm0
  | nxm1
  | openflowBasic
  | experimenter
  deriving DecidableEq, Repr

/-- The `oneof field` of `ofp_oxm_field`. -/
inductive OxmValue where
  | unset
  | ofb (f : OfbField)
  | experimenter (oxmHeader experimenter : ℕ)
  deriving DecidableEq, Repr

/-- `ofp_oxm_field` -/
structure OxmField where
  oxmClass : OxmClass := .nxm0
  field : OxmValue := .unset
  deriving DecidableEq, Repr

/-- `field.ofb_field` -/
def OxmField.ofbField (f : OxmField) : OfbField :=
  match f.field with
  | .ofb g => g
  | _ => {}

/-- `ofp_match_type` -/
inductive MatchType where
  | standard
  | oxm
  deriving DecidableEq, Repr

/-- `ofp_match` -/
structure Match where
  type : MatchType := .standard
  oxmFields : List OxmField := []
  deriving DecidableEq, Repr

/-! ## Actions and instructions -/

/-- `ofp_action_type`: the types that the core looks at; any other one is its number. -/
inductive ActionType where
  | output
  | pushVlan
  | popVlan
  | group
  | setField
  | other (number : ℕ)
  deriving DecidableEq, Repr

/-- The `oneof action` of `ofp_action`. -/
inductive ActionValue where
  | unset
  | output (port maxLen : ℕ)
  | push (ethertype : ℕ)
  | group (groupId : ℕ)
  | setField (field : OxmField)
  | other (number : ℕ) (bytes : List ℕ)
  deriving DecidableEq, Repr

/-- `ofp_action` -/
structure Action where
  type : ActionType := .output
  action : ActionValue := .unset
  deriving DecidableEq, Repr

/-- `action.output.port` -/
def Action.outputPort (a : Action) : ℕ :=
  match a.action with
  | .output p _ => p
  | _ => 0

/-- `action.group.group_id` -/
def Action.groupId (a : Action) : ℕ :=
  match a.action with
  | .group g => g
  | _ => 0

/-- `ofp_instruction_type`: the types that the core looks at; any other one is its number. -/
inductive InstructionType where
  | gotoTable
  | applyActions
  | other (number : ℕ)
  deriving DecidableEq, Repr

/-- The `oneof data` of `ofp_instruction`. -/
inductive InstructionData where
  | unset
  | gotoTable (tableId : ℕ)
  | actions (actions : List Action)
  | other (number : ℕ) (bytes : List ℕ)
  deriving DecidableEq, Repr

/-- `ofp_instruction` -/
structure Instruction where
  type : InstructionType
  data : InstructionData := .unset
  deriving DecidableEq, Repr

/-- `instruction.actions.actions` -/
def Instruction.actions (i : Instruction) : List Action :=
  match i.data with
  | .actions l => l
  | _ => []

/-- `instruction.goto_table.table_id` -/
def Instruction.gotoTableId (i : Instruction) : ℕ :=
  match i.data with
  | .gotoTable t => t
  | _ => 0

/-! ## Flows -/

/-- `ofp_flow_mod_command` -/
inductive FlowCommand where
  | add
  | modify
  | modifyStrict
  | delete
  | deleteStrict
  deriving DecidableEq, Repr

/-- `ofp_flow_mod` -/
structure FlowMod where
  command : FlowCommand := .add
  cookie : ℕ := 0
  cookieMask : ℕ := 0
  tableId : ℕ := 0
  idleTimeout : ℕ := 0
  hardTimeout : ℕ := 0
  priority : ℕ := 0
  outPort : ℕ := 0
  outGroup : ℕ := 0
  flags : ℕ := 0
  «match» : Match := {}
  instructions : List Instruction := []
  deriving DecidableEq, Repr

/-- What makes a flow the flow it is: the attributes that `flow_match` compares and that
`hash_flow_stats` covers. -/
structure FlowKey where
  tableId : ℕ
  priority : ℕ
  flags : ℕ
  cookie : ℕ
  «match» : Match
  deriving DecidableEq, Repr

/-- The first 64 bits of md5 over the text of a flow's identity. -/
structure Digest where
  Id : Type
  [decEq : DecidableEq Id]
  md5 : FlowKey → Id

attribute [instance] Digest.decEq

instance (D : Digest) : LawfulBEq D.Id := inferInstance

/-- Equal ids mean equal identities. -/
def Digest.CollisionFree (D : Digest) : Prop := Function.Injective D.md5

/-- `ofp_flow_stats` -/
structure FlowStats (D : Digest) where
  id : D.Id
  tableId : ℕ
  priority : ℕ
  idleTimeout : ℕ
  hardTimeout : ℕ
  flags : ℕ
  cookie : ℕ
  packetCount : ℕ
  byteCount : ℕ
  «match» : Match
  instructions : List Instruction
  deriving DecidableEq

/-- The identity of a flow. -/
def FlowStats.key {D : Digest} (f : FlowStats D) : FlowKey :=
  ⟨f.tableId, f.priority, f.flags, f.cookie, f.match⟩

/-! ## Groups -/

/-- `ofp_bucket` -/
structure Bucket where
  weight : ℕ := 0
  watchPort : ℕ := 0
  watchGroup : ℕ := 0
  actions : List Action := []
  deriving DecidableEq, Repr

/-- `ofp_group_mod_command` -/
inductive GroupCommand where
  | add
  | modify
  | delete
  deriving DecidableEq, Repr

/-- `ofp_group_type` -/
inductive GroupType where
  | all
  | select
  | indirect
  | ff
  deriving DecidableEq, Repr

/-- `ofp_group_mod` -/
structure GroupMod where
  command : GroupCommand := .add
  type : GroupType := .all
  groupId : ℕ := 0
  buckets : List Bucket := []
  deriving DecidableEq, Repr

/-- `ofp_group_entry`, with the fields of `desc`; of `stats` only the group id is ever set. -/
structure GroupEntry where
  type : GroupType := .all
  groupId : ℕ := 0
  buckets : List Bucket := []
  statsGroupId : ℕ := 0
  deriving DecidableEq, Repr

end Voltha.Core
