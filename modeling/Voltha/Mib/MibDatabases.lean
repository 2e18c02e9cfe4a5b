import Voltha.Lib.Act
import Voltha.Lib.Decimal
import Voltha.Lib.Matching

/-!
# The two MIB databases

The MIBs of the ONUs are kept in a database with two implementations.  `MibDbVolatileDict` is a
nest of dictionaries, from devices to classes, instances and attributes, which are edited in place.
`MibDbExternal` keeps protobuf messages in the config tree.

* The database is started, and the arguments are of the types that the methods ask for.  Attribute
  values are numbers, and the attributes are known to the ME map with a field that holds a number.
* A keyed container of the config tree is a dictionary from the keys of its children, and an update
  of a node leaves its children alone.
* Python has two types of numbers, which compare by value.  The first database checks that an
  attribute keeps its type.
* Times of creation and modification are left out, as are the texts of the log.
* An answer gives the dictionaries in it as functions: what counts is what is found under a key.
-/

namespace Voltha.Mib

open Act

/-- A number of Python, of type `long` or `int`. -/
@[ext]
structure Number where
  value : ℤ
  long : Bool
  deriving DecidableEq

/-- The attributes given to `set`; as they come in a dictionary, their names differ. -/
structure Attributes where
  items : List (String × Number)
  nodup : (items.map Prod.fst).Nodup

inductive DbError where
  | keyError
  | assertionError
  deriving DecidableEq

/-- The arguments of `query` behind the device id. -/
inductive Query where
  | device
  | cls (classId : ℕ)
  | inst (classId instanceId : ℕ)
  | attributes (classId instanceId : ℕ) (names : List String)
  deriving DecidableEq

/-- The attributes of an instance, by name. -/
abbrev AttributeContent := String → Option ℤ

/-- The instances of a class, by instance id. -/
abbrev ClassContent := ℕ → Option AttributeContent

/-- The classes of a device, by class id. -/
abbrev DeviceContent := ℕ → Option ClassContent

/-- What `query` answers to each kind of question; nothing stands for an empty dictionary. -/
inductive Answer where
  | device (classes : DeviceContent)
  | cls (instances : Option ClassContent)
  | inst (attributes : Option AttributeContent)
  | attributes (values : AttributeContent)

/-- A call of a method. -/
inductive DbCall where
  | add (deviceId : String) (overwrite : Bool)
  | remove (deviceId : String)
  | onMibReset (deviceId : String)
  | saveMibDataSync (deviceId : String) (value : Fin 256)
  | getMibDataSync (deviceId : String)
  | set (deviceId : String) (classId instanceId : ℕ) (attributes : Attributes)
  | delete (deviceId : String) (classId instanceId : ℕ)
  | query (deviceId : String) (q : Query)
  | updateSupportedManagedEntities (deviceId : String) (managedEntities : List ℕ)
  | updateSupportedMessageTypes (deviceId : String) (msgTypes : List ℕ)

/-- What a method returns. -/
inductive DbResult where
  | done
  | changed (b : Bool)
  | mibDataSync (value : Option ℕ)
  | answer (a : Answer)

open OrderedDict

/-! ## The volatile database -/

/-- The entry of a device. -/
structure DeviceDb where
  mibDataSync : ℕ
  managedEntities : List (ℕ × String)
  messageTypes : List ℕ
  classes : List (ℕ × List (ℕ × List (String × Number)))

/-- `_data`. -/
abbrev MibDbVolatileDict := List (String × DeviceDb)

/-- The names of the entity classes in the ME map. -/
abbrev EntityNames := ℕ → Option String

/-- `_managed_entity_to_name`, in both databases. -/
def managedEntityToName (names : EntityNames) (classId : ℕ) : String :=
  (names classId).getD "UnknownManagedEntity"

namespace MibDbVolatileDict

abbrev Method (α : Type) := Act MibDbVolatileDict DbError α

/-- `self._data[device_id]`. -/
def deviceDb (deviceId : String) : Method DeviceDb := fun data =>
  match get data deviceId with
  | some device => (.ok device, data)
  | none => (.error .keyError, data)

/-- `self._data[device_id] = device`. -/
def put (deviceId : String) (device : DeviceDb) : Method Unit :=
  modify (insert deviceId device)

def add (deviceId : String) (overwrite : Bool) : Method Unit := fun data =>
  if overwrite = false ∧ get data deviceId ≠ none then (.error .keyError, data)
  else put deviceId ⟨0, [], [], []⟩ data

def remove (deviceId : String) : Method Unit := modify (erase deviceId)

/-- `on_mib_reset`.  The classes are not taken over into the new entry. -/
def onMibReset (deviceId : String) : Method Unit := do
  let device ← deviceDb deviceId
  put deviceId { device with mibDataSync := 0, classes := [] }

def saveMibDataSync (deviceId : String) (value : Fin 256) : Method Unit := do
  let device ← deviceDb deviceId
  put deviceId { device with mibDataSync := value }

def getMibDataSync (deviceId : String) (data : MibDbVolatileDict) : Option ℕ :=
  (get data deviceId).map DeviceDb.mibDataSync

/-- One round of the loop in `set`, on the attributes of the instance. -/
def setAttribute (changed : Bool) (item : String × Number) :
    Act (List (String × Number)) DbError Bool := fun instanceDb =>
  match get instanceDb item.1 with
  | none => (.ok true, insert item.1 item.2 instanceDb)
  | some dbValue =>
    if dbValue.long ≠ item.2.long then (.error .assertionError, instanceDb)
    else if dbValue.value ≠ item.2.value then (.ok true, insert item.1 item.2 instanceDb)
    else (.ok changed, instanceDb)

/-- The loop in `set`. -/
def setAttributes (attributes : Attributes) : Act (List (String × Number)) DbError Bool :=
  attributes.items.foldlM setAttribute false

/-- `set`.  The class and the instance are made if they are not there, and stay if an attribute is
rejected. -/
def set (deviceId : String) (classId instanceId : ℕ) (attributes : Attributes) : Method Bool := do
  let device ← deviceDb deviceId
  let classDb := (get device.classes classId).getD []
  let (changed, instanceDb) := setAttributes attributes ((get classDb instanceId).getD [])
  put deviceId
    { device with classes := insert classId (insert instanceId instanceDb classDb) device.classes }
  ofExcept changed

def delete (deviceId : String) (classId instanceId : ℕ) : Method Bool := do
  let device ← deviceDb deviceId
  match get device.classes classId with
  | none => pure false
  | some classDb =>
    match get classDb instanceId with
    | none => pure false
    | some _ =>
      let classDb := erase instanceId classDb
      put deviceId
        { device with
          classes := if classDb = [] then erase classId device.classes
            else insert classId classDb device.classes }
      pure true

def instanceContent (instanceDb : List (String × Number)) : AttributeContent := fun name =>
  (get instanceDb name).map Number.value

def classContent (classDb : List (ℕ × List (String × Number))) : ClassContent := fun instanceId =>
  (get classDb instanceId).map instanceContent

def deviceContent (device : DeviceDb) : DeviceContent := fun classId =>
  (get device.classes classId).map classContent

def query (deviceId : String) (q : Query) : Method Answer := do
  let device ← deviceDb deviceId
  match q with
  | .device => pure (.device (deviceContent device))
  | .cls classId => pure (.cls ((get device.classes classId).map classContent))
  | .inst classId instanceId =>
    let classDb := (get device.classes classId).getD []
    pure (.inst ((get classDb instanceId).map instanceContent))
  | .attributes classId instanceId names =>
    let classDb := (get device.classes classId).getD []
    let instanceDb := (get classDb instanceId).getD []
    pure (.attributes fun name => if name ∈ names then instanceContent instanceDb name else none)

def updateSupportedManagedEntities (names : EntityNames) (deviceId : String)
    (managedEntities : List ℕ) : Method Unit := do
  let device ← deviceDb deviceId
  put deviceId
    { device with
      managedEntities := managedEntities.map fun c => (c, managedEntityToName names c) }

def updateSupportedMessageTypes (deviceId : String) (msgTypes : List ℕ) : Method Unit := do
  let device ← deviceDb deviceId
  put deviceId { device with messageTypes := msgTypes }

def call (names : EntityNames) : DbCall → Method DbResult
  | .add deviceId overwrite => do add deviceId overwrite; pure .done
  | .remove deviceId => do remove deviceId; pure .done
  | .onMibReset deviceId => do onMibReset deviceId; pure .done
  | .saveMibDataSync deviceId value => do saveMibDataSync deviceId value; pure .done
  | .getMibDataSync deviceId => do
    let data ← read
    pure (.mibDataSync (getMibDataSync deviceId data))
  | .set deviceId classId instanceId attributes => do
    let changed ← set deviceId classId instanceId attributes
    pure (.changed changed)
  | .delete deviceId classId instanceId => do
    let deleted ← delete deviceId classId instanceId
    pure (.changed deleted)
  | .query deviceId q => do
    let answer ← query deviceId q
    pure (.answer answer)
  | .updateSupportedManagedEntities deviceId managedEntities => do
    updateSupportedManagedEntities names deviceId managedEntities
    pure .done
  | .updateSupportedMessageTypes deviceId msgTypes => do
    updateSupportedMessageTypes deviceId msgTypes
    pure .done

end MibDbVolatileDict

/-! ## The external database -/

/-- `MibDeviceData`.  Below the classes are `MibClassData`, `MibInstanceData` and
`MibAttributeData`, of which the keys and the values of the attributes matter. -/
structure MibDeviceData where
  mibDataSync : ℕ
  managedEntities : List (ℕ × String)
  messageTypes : List ℕ
  classes : List (ℕ × List (ℕ × List (String × String)))

/-- The children of `/omci_mibs` in the config tree. -/
abbrev MibDbExternal := List (String × MibDeviceData)

/-- `_attribute_to_string`, for a field that holds a number. -/
def attributeToString (v : Number) : String := Decimal.str v.value

/-- `_string_to_attribute`, for a field that holds a number. -/
def stringToAttribute (s : String) : ℤ :=
  if s.toList.map Char.toLower = ['t', 'r', 'u', 'e'] then 1
  else if s.toList.map Char.toLower = ['f', 'a', 'l', 's', 'e'] then 0
  else Decimal.int s

namespace MibDbExternal

abbrev Method (α : Type) := Act MibDbExternal DbError α

/-- The data of the device's node; a device that is not there has no proxy. -/
def device (deviceId : String) : Method MibDeviceData := fun mibs =>
  match get mibs deviceId with
  | some data => (.ok data, mibs)
  | none => (.error .keyError, mibs)

/-- A write to the subtree of a device. -/
def put (deviceId : String) (data : MibDeviceData) : Method Unit :=
  modify (insert deviceId data)

/-- `self._root_proxy.update(DEVICE_PATH, data)`: the classes are children and stay. -/
def update (deviceId : String) (data : MibDeviceData) : Method Unit := do
  let old ← device deviceId
  put deviceId { data with classes := old.classes }

/-- `add`.  To overwrite a device, its own data is read and written back. -/
def add (deviceId : String) (overwrite : Bool) : Method Unit := fun mibs =>
  match get mibs deviceId with
  | some data =>
    if overwrite then update deviceId { data with classes := [] } mibs
    else (.error .keyError, mibs)
  | none => put deviceId ⟨0, [], [], []⟩ mibs

def remove (deviceId : String) : Method Unit := modify (erase deviceId)

/-- `on_mib_reset`.  The new data has neither managed entities nor message types. -/
def onMibReset (deviceId : String) : Method Unit := do
  let data ← device deviceId
  let classIds := data.classes.map Prod.fst
  put deviceId { data with classes := classIds.foldl (fun cs c => erase c cs) data.classes }
  update deviceId ⟨0, [], [], []⟩

def saveMibDataSync (deviceId : String) (value : Fin 256) : Method Unit := do
  let data ← device deviceId
  update deviceId { data with mibDataSync := value }

def getMibDataSync (deviceId : String) (mibs : MibDbExternal) : Option ℕ :=
  (get mibs deviceId).map MibDeviceData.mibDataSync

/-- The attributes given to `set`, with their values as strings. -/
def attributeData (attributes : Attributes) : List (String × String) :=
  attributes.items.map fun p => (p.1, attributeToString p.2)

/-- `_add_new_class`. -/
def addNewClass (deviceId : String) (data : MibDeviceData) (classId instanceId : ℕ)
    (attributes : Attributes) : Method Bool := do
  put deviceId
    { data with
      classes := insert classId [(instanceId, attributeData attributes)] data.classes }
  pure true

/-- `_add_new_instance`. -/
def addNewInstance (deviceId : String) (data : MibDeviceData) (classId instanceId : ℕ)
    (instances : List (ℕ × List (String × String))) (attributes : Attributes) : Method Bool := do
  put deviceId
    { data with
      classes := insert classId (insert instanceId (attributeData attributes) instances)
        data.classes }
  pure true

/-- Some attribute is new or has another value. -/
def modifies (attributes : Attributes) (instData : List (String × String)) : Bool :=
  attributes.items.any fun p => get instData p.1 ≠ some (attributeToString p.2)

/-- `set`.  An instance that changes is removed, and added with the attributes given. -/
def set (deviceId : String) (classId instanceId : ℕ) (attributes : Attributes) : Method Bool := do
  let data ← device deviceId
  match get data.classes classId with
  | none => addNewClass deviceId data classId instanceId attributes
  | some instances =>
    match get instances instanceId with
    | none => addNewInstance deviceId data classId instanceId instances attributes
    | some instData =>
      if modifies attributes instData then
        put deviceId
          { data with
            classes := insert classId
              (insert instanceId (attributeData attributes) (erase instanceId instances))
              data.classes }
        pure true
      else pure false

/-- `delete`.  Any missing key, also that of the device, makes it return `False`. -/
def delete (deviceId : String) (classId instanceId : ℕ) : Method Bool := fun mibs =>
  match get mibs deviceId with
  | none => (.ok false, mibs)
  | some data =>
    match get data.classes classId with
    | none => (.ok false, mibs)
    | some instances =>
      match get instances instanceId with
      | none => (.ok false, mibs)
      | some _ =>
        let instances := erase instanceId instances
        (.ok true, insert deviceId
          { data with
            classes := if instances = [] then erase classId data.classes
              else insert classId instances data.classes } mibs)

/-- `_instance_to_dict`. -/
def instanceContent (instData : List (String × String)) : AttributeContent := fun name =>
  (get instData name).map stringToAttribute

/-- `_class_to_dict`. -/
def classContent (instances : List (ℕ × List (String × String))) : ClassContent := fun instanceId =>
  (get instances instanceId).map instanceContent

/-- `_device_to_dict`. -/
def deviceContent (data : MibDeviceData) : DeviceContent := fun classId =>
  (get data.classes classId).map classContent

/-- `query`.  Only a question for the whole device needs the device to be there. -/
def query (deviceId : String) (q : Query) : Method Answer := fun mibs =>
  let classes := ((get mibs deviceId).map MibDeviceData.classes).getD []
  match q with
  | .device =>
    match get mibs deviceId with
    | some data => (.ok (.device (deviceContent data)), mibs)
    | none => (.error .keyError, mibs)
  | .cls classId => (.ok (.cls ((get classes classId).map classContent)), mibs)
  | .inst classId instanceId =>
    let instances := (get classes classId).getD []
    (.ok (.inst ((get instances instanceId).map instanceContent)), mibs)
  | .attributes classId instanceId names =>
    let instances := (get classes classId).getD []
    let instData := (get instances instanceId).getD []
    (.ok (.attributes fun name => if name ∈ names then instanceContent instData name else none),
      mibs)

/-- `update_supported_managed_entities`: the list is extended. -/
def updateSupportedManagedEntities (names : EntityNames) (deviceId : String)
    (managedEntities : List ℕ) : Method Unit := do
  let data ← device deviceId
  update deviceId
    { data with
      managedEntities := data.managedEntities ++
        managedEntities.map fun c => (c, managedEntityToName names c) }

/-- `update_supported_message_types`: the list is extended. -/
def updateSupportedMessageTypes (deviceId : String) (msgTypes : List ℕ) : Method Unit := do
  let data ← device deviceId
  update deviceId { data with messageTypes := data.messageTypes ++ msgTypes }

def call (names : EntityNames) : DbCall → Method DbResult
  | .add deviceId overwrite => do add deviceId overwrite; pure .done
  | .remove deviceId => do remove deviceId; pure .done
  | .onMibReset deviceId => do onMibReset deviceId; pure .done
  | .saveMibDataSync deviceId value => do saveMibDataSync deviceId value; pure .done
  | .getMibDataSync deviceId => do
    let mibs ← read
    pure (.mibDataSync (getMibDataSync deviceId mibs))
  | .set deviceId classId instanceId attributes => do
    let modified ← set deviceId classId instanceId attributes
    pure (.changed modified)
  | .delete deviceId classId instanceId => do
    let deleted ← delete deviceId classId instanceId
    pure (.changed deleted)
  | .query deviceId q => do
    let answer ← query deviceId q
    pure (.answer answer)
  | .updateSupportedManagedEntities deviceId managedEntities => do
    updateSupportedManagedEntities names deviceId managedEntities
    pure .done
  | .updateSupportedMessageTypes deviceId msgTypes => do
    updateSupportedMessageTypes deviceId msgTypes
    pure .done

end MibDbExternal

end Voltha.Mib
