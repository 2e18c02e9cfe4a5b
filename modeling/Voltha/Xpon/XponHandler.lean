import Voltha.Common.IndexPool
import Voltha.Lib.Act
import Voltha.Lib.OrderedDict
import Voltha.Xpon.FiberConfig

/-!
# The xPON handler

The handlers of `XponHandler` for creating, updating and deleting the messages of the fiber
configuration.  Most of them do the same for another collection; `create`, `update` and `delete` are
their common bodies.  T-CONTs and GEM ports get an id from a pool of the channel group that their
chain of references ends in; `createNumbered`, `updateNumbered` and `deleteNumbered` are the bodies
for these.  Channel groups and channel terminations have bodies of their own.

An assertion of `validate_interface` that fails leaves its message in the context, but the handlers
then overwrite it with the empty message of their own assertion.

* `Request`, `handle`: the requests, and a restart of the handler on the stored configuration.
-/

namespace Voltha.Xpon

open Root Message

open Common (IndexPool)

/-- The status codes that the handlers set. -/
inductive StatusCode where
  | invalidArgument
  | notFound
  deriving DecidableEq

/-- What comes of a request: the code and the details that are left in the context, or an exception
that is not caught. -/
inductive Reply where
  | ok
  | error (code : StatusCode) (details : String)
  | raised (e : Exn)
  deriving DecidableEq

/-- The pools of a channel group. -/
structure Pools where
  allocId : IndexPool
  gemportId : IndexPool
  deriving DecidableEq

def Pools.new : Pools := ⟨.new 16383 1024, .new 64500 1024⟩

/-- The handler with the configuration that it works on. -/
structure XponHandler where
  config : FiberConfig
  cgPool : IndexPool
  cgDict : List (String × Pools)
  deriving DecidableEq

/-- A handler that has not started. -/
def XponHandler.new (config : FiberConfig) : XponHandler := ⟨config, .new (2 ^ 11 - 1) 1, []⟩

/-! ## The common bodies -/

/-- A collection of the configuration and the texts about its messages. -/
structure Collection (α : Type) where
  items : FiberConfig → List α
  put : FiberConfig → List α → FiberConfig
  interface : α → Interface
  duplicated : String → String
  notFound : String → String

section Bodies

variable {α : Type} [Message α] (coll : Collection α) (s : XponHandler) (r : α)

/-- The configuration with other messages in the collection. -/
def XponHandler.put (items : List α) : XponHandler :=
  { s with config := coll.put s.config items }

/-- The check of the name that comes first in updates and deletions. -/
def malformed (name : String) : Option Reply :=
  if '/' ∈ name.toList then
    some (.error .invalidArgument ("Malformed name '" ++ name ++ "'"))
  else none

/-- `create_...`. -/
def create : Reply × XponHandler :=
  match validateInterface s.config (coll.interface r) with
  | some _ => (.error .invalidArgument "", s)
  | none =>
    match add (coll.items s.config) r with
    | .error .value => (.error .invalidArgument (coll.duplicated (name r)), s)
    | .error e => (.raised e, s)
    | .ok items => (.ok, s.put coll items)

/-- `update_...`. -/
def update : Reply × XponHandler :=
  match malformed (name r) with
  | some reply => (reply, s)
  | none =>
    match validateInterface s.config (coll.interface r) with
    | some _ => (.error .invalidArgument "", s)
    | none =>
      match Root.update (coll.items s.config) r with
      | .error .key => (.error .notFound (coll.notFound (name r)), s)
      | .error e => (.raised e, s)
      | .ok items => (.ok, s.put coll items)

/-- `delete_...`; `referenced` gives the message of the first assertion on references to the message
that fails. -/
def delete (referenced : FiberConfig → String → Option String) : Reply × XponHandler :=
  match malformed (name r) with
  | some reply => (reply, s)
  | none =>
    match referenced s.config (name r) with
    | some message => (.error .invalidArgument message, s)
    | none =>
      match remove (coll.items s.config) (name r) with
      | .error .key => (.error .notFound (coll.notFound (name r)), s)
      | .error e => (.raised e, s)
      | .ok items => (.ok, s.put coll items)

end Bodies

/-! ## Channel groups of messages -/

/-- What `extract_channel_group_from_request` returns: the name of a channel group, `None` if a
reference is empty, or `Empty()` if a reference is not found. -/
inductive Extracted where
  | name (group : String)
  | none
  | empty
  deriving DecidableEq

/-- The next part of the chain. -/
def extractNext {α : Type} [Message α] (items : List α) (reference : String)
    (next : α → Extracted) : Extracted :=
  match get items reference with
  | .ok (some item) => next item
  | .ok none => .none
  | .error _ => .empty

/-- `extract_channel_group_from_request` with the interface `channel_groups`. -/
def extractFromChannelGroups (c : FiberConfig) (reference : String) : Extracted :=
  extractNext c.channelGroups reference fun item => .name item.name

/-- `extract_channel_group_from_request` with the interface `channel_partitions`. -/
def extractFromChannelPartitions (c : FiberConfig) (reference : String) : Extracted :=
  extractNext c.channelPartitions reference fun item =>
    extractFromChannelGroups c item.channelgroupRef

/-- `extract_channel_group_from_request` with the interface `v_ont_anis`. -/
def extractFromVOntAnis (c : FiberConfig) (reference : String) : Extracted :=
  extractNext c.vOntAnis reference fun item => extractFromChannelPartitions c item.parentRef

/-- `extract_channel_group_from_request` with the interface `v_enets`. -/
def extractFromVEnets (c : FiberConfig) (reference : String) : Extracted :=
  extractNext c.vEnets reference fun item => extractFromVOntAnis c item.vOntaniRef

/-- `cg_dict[cg_name]`.  An empty message cannot be a key. -/
def XponHandler.pools (s : XponHandler) : Extracted → Except Exn (String × Pools)
  | .name group =>
    match OrderedDict.get s.cgDict group with
    | some pools => .ok (group, pools)
    | none => .error .key
  | .none => .error .key
  | .empty => .error .type

/-- The pools of a channel group are changed. -/
def XponHandler.setPools (s : XponHandler) (group : String) (pools : Pools) : XponHandler :=
  { s with cgDict := OrderedDict.insert group pools s.cgDict }

/-! ## Messages with ids -/

/-- A collection whose messages get an id from a pool of their channel group. -/
structure Numbered (α : Type) extends Collection α where
  extract : FiberConfig → α → Extracted
  id : α → ℕ
  setId : α → ℕ → α
  pool : Pools → IndexPool
  setPool : Pools → IndexPool → Pools
  cannotCreate : String → String
  failed : String

section NumberedBodies

variable {α : Type} [Message α] (coll : Numbered α) (s : XponHandler) (r : α)

/-- The id of a new message, and the pool that it was taken from. -/
def takeId (pool : IndexPool) : Option (ℕ × IndexPool) :=
  if coll.id r = 0 then pool.getNext else pool.allocate (coll.id r)

/-- `create_...` of a message with an id. -/
def createNumbered : Reply × XponHandler :=
  match validateInterface s.config (coll.interface r) with
  | some _ => (.error .invalidArgument "", s)
  | none =>
    match s.pools (coll.extract s.config r) with
    | .error .key => (.error .notFound (coll.cannotCreate (name r)), s)
    | .error e => (.raised e, s)
    | .ok (group, pools) =>
      match takeId coll r (coll.pool pools) with
      | none => (.error .invalidArgument coll.failed, s)
      | some (id, pool) =>
        match add (coll.items s.config) (coll.setId r id) with
        | .error .value =>
          -- the id that was taken is released again
          (.error .invalidArgument (coll.duplicated (name r)),
            s.setPools group (coll.setPool pools (pool.release id)))
        | .error e => (.raised e, s.setPools group (coll.setPool pools pool))
        | .ok items =>
          (.ok, (s.setPools group (coll.setPool pools pool)).put coll.toCollection items)

/-- `update_...` of a message with an id, which stays. -/
def updateNumbered : Reply × XponHandler :=
  match malformed (name r) with
  | some reply => (reply, s)
  | none =>
    match validateInterface s.config (coll.interface r) with
    | some _ => (.error .invalidArgument "", s)
    | none =>
      match get (coll.items s.config) (name r) with
      | .error .key => (.error .notFound (coll.notFound (name r)), s)
      | .error e => (.raised e, s)
      | .ok none => (.raised .attribute, s)
      | .ok (some item) =>
        match Root.update (coll.items s.config) (coll.setId r (coll.id item)) with
        | .error .key => (.error .notFound (coll.notFound (name r)), s)
        | .error e => (.raised e, s)
        | .ok items => (.ok, s.put coll.toCollection items)

/-- `delete_...` of a message with an id, which is released. -/
def deleteNumbered (referenced : FiberConfig → String → Option String) : Reply × XponHandler :=
  match malformed (name r) with
  | some reply => (reply, s)
  | none =>
    match referenced s.config (name r) with
    | some message => (.error .invalidArgument message, s)
    | none =>
      match get (coll.items s.config) (name r) with
      | .error .key => (.error .notFound (coll.notFound (name r)), s)
      | .error e => (.raised e, s)
      | .ok none => (.raised .attribute, s)
      | .ok (some item) =>
        match remove (coll.items s.config) (name r) with
        | .error .key => (.error .notFound (coll.notFound (name r)), s)
        | .error e => (.raised e, s)
        | .ok items =>
          -- the message is removed before the pool is looked for
          match s.pools (coll.extract s.config item) with
          | .error .key =>
            (.error .notFound (coll.notFound (name r)), s.put coll.toCollection items)
          | .error e => (.raised e, s.put coll.toCollection items)
          | .ok (group, pools) =>
            (.ok, (s.put coll.toCollection items).setPools group
              (coll.setPool pools ((coll.pool pools).release (coll.id item))))

end NumberedBodies

/-! ## The collections -/

def duplicated (title name : String) : String :=
  "Duplicated " ++ title ++ " '" ++ name ++ "' cannot be created"

def notFound (title name : String) : String := title ++ " '" ++ name ++ "' not found"

def channelGroups : Collection ChannelgroupConfig where
  items := (·.channelGroups)
  put c l := { c with channelGroups := l }
  interface := .channelGroup
  duplicated := duplicated "channel group"
  notFound := notFound "channel group"

def channelPartitions : Collection ChannelpartitionConfig where
  items := (·.channelPartitions)
  put c l := { c with channelPartitions := l }
  interface := .channelPartition
  duplicated := duplicated "channel partition"
  notFound := notFound "channel partition"

def channelPairs : Collection ChannelpairConfig where
  items := (·.channelPairs)
  put c l := { c with channelPairs := l }
  interface := .channelPair
  duplicated := duplicated "channel pair"
  notFound := notFound "channel pair"

def ontAnis : Collection OntaniConfig where
  items := (·.ontAnis)
  put c l := { c with ontAnis := l }
  interface := .ontAni
  duplicated := duplicated "ontani"
  notFound := notFound "ontani"

def vOntAnis : Collection VOntaniConfig where
  items := (·.vOntAnis)
  put c l := { c with vOntAnis := l }
  interface := .vOntAni
  duplicated := duplicated "vontani"
  notFound := notFound "vontani"

def vEnets : Collection VEnetConfig where
  items := (·.vEnets)
  put c l := { c with vEnets := l }
  interface := .vEnet
  duplicated := duplicated "venet"
  notFound := notFound "venet"

def trafficDescriptorProfiles : Collection TrafficDescriptorProfileData where
  items := (·.trafficDescriptorProfiles)
  put c l := { c with trafficDescriptorProfiles := l }
  interface := .trafficDescriptorProfile
  duplicated name := "Duplicated traffic descriptor profile '" ++ name ++ "' " ++
    "                cannot be created"
  notFound := notFound "traffic descriptor profile"

def tconts : Numbered TcontsConfigData where
  items := (·.tconts)
  put c l := { c with tconts := l }
  interface := .tcont
  duplicated := duplicated "tcont"
  notFound := notFound "tcont"
  extract c r := extractFromVOntAnis c r.interfaceReference
  id := (·.allocId)
  setId r id := { r with allocId := id }
  pool := (·.allocId)
  setPool pools pool := { pools with allocId := pool }
  cannotCreate name := "Cannot create tcont '" ++ name ++ "'"
  failed := "Fail to allocate id for TCont"

def gemports : Numbered GemportsConfigData where
  items := (·.gemports)
  put c l := { c with gemports := l }
  interface := .gemport
  duplicated := duplicated "gemport"
  notFound := notFound "gemport"
  extract c r := extractFromVEnets c r.itfRef
  id := (·.gemportId)
  setId r id := { r with gemportId := id }
  pool := (·.gemportId)
  setPool pools pool := { pools with gemportId := pool }
  cannotCreate name := "Cannot create gemport '" ++ name ++ "'"
  failed := "Fail to allocate id for GemPort"

/-! ## The handlers -/

/-- `create_channel_group`. -/
def createChannelGroup (s : XponHandler) (r : ChannelgroupConfig) : Reply × XponHandler :=
  match validateInterface s.config (.channelGroup r) with
  | some _ => (.error .invalidArgument "", s)
  | none =>
    match s.cgPool.getNext with
    | none => (.error .invalidArgument "Fail to allocate id for Channel Group", s)
    | some (id, pool) =>
      match add s.config.channelGroups { r with cgIndex := id } with
      | .error .value =>
        (.error .invalidArgument (channelGroups.duplicated r.name),
          { s with cgPool := pool.release id })
      | .error e => (.raised e, { s with cgPool := pool })
      | .ok items =>
        (.ok, ({ s with cgPool := pool }.put channelGroups items).setPools r.name .new)

/-- `update_channel_group`. -/
def updateChannelGroup (s : XponHandler) (r : ChannelgroupConfig) : Reply × XponHandler :=
  match malformed r.name with
  | some reply => (reply, s)
  | none =>
    match validateInterface s.config (.channelGroup r) with
    | some _ => (.error .invalidArgument "", s)
    | none =>
      match get s.config.channelGroups r.name with
      | .error .key => (.error .notFound (channelGroups.notFound r.name), s)
      | .error e => (.raised e, s)
      | .ok none => (.raised .attribute, s)
      | .ok (some item) =>
        match Root.update s.config.channelGroups { r with cgIndex := item.cgIndex } with
        | .error .key => (.error .notFound (channelGroups.notFound r.name), s)
        | .error e => (.raised e, s)
        | .ok items => (.ok, s.put channelGroups items)

/-- `delete_channel_group`. -/
def deleteChannelGroup (s : XponHandler) (r : ChannelgroupConfig) : Reply × XponHandler :=
  match malformed r.name with
  | some reply => (reply, s)
  | none =>
    if s.config.channelPartitions.any (·.channelgroupRef = r.name) then
      (.error .invalidArgument
        ("Channel Group -- '" ++ r.name ++ "' is referenced by Channel Partition"), s)
    else if s.config.channelPairs.any (·.channelgroupRef = r.name) then
      (.error .invalidArgument
        ("Channel Group -- '" ++ r.name ++ "' is referenced by Channel Pair"), s)
    else match get s.config.channelGroups r.name with
      | .error .key => (.error .notFound (channelGroups.notFound r.name), s)
      | .error e => (.raised e, s)
      | .ok item =>
        match remove s.config.channelGroups r.name with
        | .error .key => (.error .notFound (channelGroups.notFound r.name), s)
        | .error e => (.raised e, s)
        | .ok items =>
          match item with
          | none => (.raised .attribute, s.put channelGroups items)
          | some item =>
            (.ok, { s.put channelGroups items with cgPool := s.cgPool.release item.cgIndex })

/-- `create_channel_partition`. -/
def createChannelPartition := create channelPartitions

/-- `update_channel_partition`. -/
def updateChannelPartition := update channelPartitions

/-- `delete_channel_partition`. -/
def deleteChannelPartition (s : XponHandler) (r : ChannelpartitionConfig) : Reply × XponHandler :=
  delete channelPartitions s r fun c name =>
    Checks.failed
      [(!c.channelPairs.any (·.channelpartitionRef = name),
          "Channel Partition -- '" ++ name ++ "' is referenced by Channel Pair"),
        (!c.vOntAnis.any (·.parentRef = name),
          "Channel Partition -- '" ++ name ++ "' is referenced by VOntAni")]

/-- `create_channel_pair`. -/
def createChannelPair := create channelPairs

/-- `update_channel_pair`. -/
def updateChannelPair := update channelPairs

/-- `delete_channel_pair`.  Only the channel terminations of the devices are looked at. -/
def deleteChannelPair (s : XponHandler) (r : ChannelpairConfig) : Reply × XponHandler :=
  delete channelPairs s r fun c name =>
    Checks.failed
      [(c.devices.all fun device => !device.channelTerminations.any (·.channelpairRef = name),
        "Channel Pair -- '" ++ name ++ "' referenced by Channel Termination")]

/-- The devices with other channel terminations in one of them. -/
def putTerminations (devices : List Device) (device : Device)
    (l : List ChannelterminationConfig) : List Device :=
  KeyedList.replace Device.id { device with channelTerminations := l } devices

/-- The configuration with other channel terminations in a device. -/
def XponHandler.putTerminations (s : XponHandler) (device : Device)
    (l : List ChannelterminationConfig) : XponHandler :=
  { s with config.devices := Xpon.putTerminations s.config.devices device l }

/-- `create_channel_termination`. -/
def createChannelTermination (s : XponHandler) (r : ChannelterminationConfig) :
    Reply × XponHandler :=
  match validateInterface s.config (.channelTermination r) with
  | some _ => (.error .invalidArgument "", s)
  | none =>
    match KeyedList.find Device.id s.config.devices r.id with
    | none => (.error .notFound ("Device '" ++ r.id ++ "' not activated"), s)
    | some device =>
      match add device.channelTerminations r with
      | .error .value => (.error .invalidArgument (duplicated "channel termination" r.name), s)
      | .error e => (.raised e, s)
      | .ok items => (.ok, s.putTerminations device items)

/-- `update_channel_termination`. -/
def updateChannelTermination (s : XponHandler) (r : ChannelterminationConfig) :
    Reply × XponHandler :=
  match malformed r.name with
  | some reply => (reply, s)
  | none =>
    match validateInterface s.config (.channelTermination r) with
    | some _ => (.error .invalidArgument "", s)
    | none =>
      match KeyedList.find Device.id s.config.devices r.id with
      | none => (.error .notFound (notFound "channel termination" r.name), s)
      | some device =>
        match Root.update device.channelTerminations r with
        | .error .key => (.error .notFound (notFound "channel termination" r.name), s)
        | .error e => (.raised e, s)
        | .ok items => (.ok, s.putTerminations device items)

/-- `delete_channel_termination`. -/
def deleteChannelTermination (s : XponHandler) (r : ChannelterminationConfig) :
    Reply × XponHandler :=
  if '/' ∈ r.id.toList then
    (.error .invalidArgument ("Malformed device id '" ++ r.id ++ "'"), s)
  else match malformed r.name with
    | some reply => (reply, s)
    | none =>
      match KeyedList.find Device.id s.config.devices r.id with
      | none =>
        (.error .invalidArgument ("Could not delete channel termination '" ++ r.name ++ "'"), s)
      | some device =>
        match remove device.channelTerminations r.name with
        | .error .key =>
          (.error .invalidArgument ("Could not delete channel termination '" ++ r.name ++ "'"), s)
        | .error e => (.raised e, s)
        | .ok items => (.ok, s.putTerminations device items)

/-- `create_ont_ani`. -/
def createOntAni := create ontAnis

/-- `update_ont_ani`. -/
def updateOntAni := update ontAnis

/-- `delete_ont_ani`. -/
def deleteOntAni (s : XponHandler) (r : OntaniConfig) : Reply × XponHandler :=
  delete ontAnis s r fun _ _ => none

/-- `create_v_ont_ani`. -/
def createVOntAni := create vOntAnis

/-- `update_v_ont_ani`. -/
def updateVOntAni := update vOntAnis

/-- `delete_v_ont_ani`. -/
def deleteVOntAni (s : XponHandler) (r : VOntaniConfig) : Reply × XponHandler :=
  delete vOntAnis s r fun c name =>
    Checks.failed
      [(!c.vEnets.any (·.vOntaniRef = name),
          "VOntAni -- '" ++ name ++ "' is referenced by VEnet"),
        (!c.tconts.any (·.interfaceReference = name),
          "VOntAni -- '" ++ name ++ "' is referenced by TCont")]

/-- `create_v_enet`. -/
def createVEnet := create vEnets

/-- `update_v_enet`. -/
def updateVEnet := update vEnets

/-- `delete_v_enet`. -/
def deleteVEnet (s : XponHandler) (r : VEnetConfig) : Reply × XponHandler :=
  delete vEnets s r fun c name =>
    Checks.failed
      [(!c.gemports.any (·.itfRef = name),
        "The VEnet -- '" ++ name ++ "' is referenced by Gemport")]

/-- `create_traffic_descriptor_profile`. -/
def createTrafficDescriptorProfile := create trafficDescriptorProfiles

/-- `update_traffic_descriptor_profile`. -/
def updateTrafficDescriptorProfile := update trafficDescriptorProfiles

/-- `delete_traffic_descriptor_profile`. -/
def deleteTrafficDescriptorProfile (s : XponHandler) (r : TrafficDescriptorProfileData) :
    Reply × XponHandler :=
  delete trafficDescriptorProfiles s r fun c name =>
    Checks.failed
      [(!c.tconts.any (·.trafficDescriptorProfileRef = name),
        "The Traffic Descriptor Profile -- '" ++ name ++ "' is referenced " ++
          "                by TCont")]

/-- `create_tcont`. -/
def createTcont := createNumbered tconts

/-- `update_tcont`. -/
def updateTcont := updateNumbered tconts

/-- `delete_tcont`. -/
def deleteTcont (s : XponHandler) (r : TcontsConfigData) : Reply × XponHandler :=
  deleteNumbered tconts s r fun c name =>
    Checks.failed
      [(!c.gemports.any (·.tcontRef = name),
        "The Tcont -- '" ++ name ++ "' is referenced by GemPort")]

/-- `create_gem_port`. -/
def createGemPort := createNumbered gemports

/-- `update_gem_port`. -/
def updateGemPort := updateNumbered gemports

/-- `delete_gem_port`. -/
def deleteGemPort (s : XponHandler) (r : GemportsConfigData) : Reply × XponHandler :=
  deleteNumbered gemports s r fun _ _ => none

/-! ## Starting -/

/-- New pools for channel groups. -/
def XponHandler.newPools (s : XponHandler) (l : List ChannelgroupConfig) : XponHandler :=
  l.foldl (fun s cg => s.setPools cg.name .new) s

/-- `reinitialize_cg_ids`. -/
def reinitializeCgIds : Act XponHandler Exn Unit := fun s =>
  let s' := s.newPools s.config.channelGroups
  match s'.cgPool.preAllocate (s.config.channelGroups.map (·.cgIndex)) with
  | none => (.error .index, s')
  | some pool => (.ok (), { s' with cgPool := pool })

/-- The id of a stored message is marked in its pool. -/
def markId {α : Type} (coll : Numbered α) (r : α) : Act XponHandler Exn Unit := fun s =>
  match s.pools (coll.extract s.config r) with
  | .error e => (.error e, s)
  | .ok (group, pools) =>
    match (coll.pool pools).preAllocate [coll.id r] with
    | none => (.error .index, s)
    | some pool => (.ok (), s.setPools group (coll.setPool pools pool))

/-- The ids of all stored messages of a collection are marked. -/
def markIds {α : Type} (coll : Numbered α) : List α → Act XponHandler Exn Unit
  | [] => pure ()
  | r :: l => do
    markId coll r
    markIds coll l

/-- `reinitialize_tcont_and_gemport_ids`. -/
def reinitializeTcontAndGemportIds : Act XponHandler Exn Unit := do
  let s ← Act.read
  markIds tconts s.config.tconts
  markIds gemports s.config.gemports

/-- `start`. -/
def start : Act XponHandler Exn Unit := do
  reinitializeCgIds
  reinitializeTcontAndGemportIds

/-! ## Requests -/

/-- The requests, and a new handler that starts on the stored configuration. -/
inductive Request where
  | create (r : Interface)
  | update (r : Interface)
  | delete (r : Interface)
  | restart
  deriving DecidableEq

/-- A request is handled by the handler for its kind. -/
def handle (s : XponHandler) : Request → Reply × XponHandler
  | .create (.channelGroup r) => createChannelGroup s r
  | .create (.channelPartition r) => createChannelPartition s r
  | .create (.channelPair r) => createChannelPair s r
  | .create (.channelTermination r) => createChannelTermination s r
  | .create (.ontAni r) => createOntAni s r
  | .create (.vOntAni r) => createVOntAni s r
  | .create (.vEnet r) => createVEnet s r
  | .create (.trafficDescriptorProfile r) => createTrafficDescriptorProfile s r
  | .create (.tcont r) => createTcont s r
  | .create (.gemport r) => createGemPort s r
  | .update (.channelGroup r) => updateChannelGroup s r
  | .update (.channelPartition r) => updateChannelPartition s r
  | .update (.channelPair r) => updateChannelPair s r
  | .update (.channelTermination r) => updateChannelTermination s r
  | .update (.ontAni r) => updateOntAni s r
  | .update (.vOntAni r) => updateVOntAni s r
  | .update (.vEnet r) => updateVEnet s r
  | .update (.trafficDescriptorProfile r) => updateTrafficDescriptorProfile s r
  | .update (.tcont r) => updateTcont s r
  | .update (.gemport r) => updateGemPort s r
  | .delete (.channelGroup r) => deleteChannelGroup s r
  | .delete (.channelPartition r) => deleteChannelPartition s r
  | .delete (.channelPair r) => deleteChannelPair s r
  | .delete (.channelTermination r) => deleteChannelTermination s r
  | .delete (.ontAni r) => deleteOntAni s r
  | .delete (.vOntAni r) => deleteVOntAni s r
  | .delete (.vEnet r) => deleteVEnet s r
  | .delete (.trafficDescriptorProfile r) => deleteTrafficDescriptorProfile s r
  | .delete (.tcont r) => deleteTcont s r
  | .delete (.gemport r) => deleteGemPort s r
  | .restart =>
    match start (.new s.config) with
    | (.ok _, s) => (.ok, s)
    | (.error e, s) => (.raised e, s)

/-- The handler after a request. -/
def step (s : XponHandler) (request : Request) : XponHandler := (handle s request).2

end Voltha.Xpon
