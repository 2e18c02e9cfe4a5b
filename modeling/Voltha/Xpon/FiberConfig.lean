import Voltha.Lib.KeyedList

/-!
# The fiber configuration

The messages that the xPON handler keeps in the configuration tree, with the fields that it reads,
and the operations of the tree on a collection of such messages.  Each collection has the field
`name` as its key.  Channel terminations are kept with their devices.

* `Root.get`, `Root.add`, `Root.update`, `Root.remove`: the operations on one collection.
* `getRefData`: whether a reference is found.
* `validateInterface`: the checks of a message before it is created or updated.
-/

namespace Voltha.Xpon

open KeyedList

/-- The exceptions that the handlers meet. -/
inductive Exn where
  | key
  | value
  | index
  | type
  | attribute
  deriving DecidableEq

/-! ## Messages -/

structure ChannelgroupConfig where
  id : String
  name : String
  cgIndex : ℕ
  pollingPeriod : ℕ
  deriving DecidableEq

structure ChannelpartitionConfig where
  id : String
  name : String
  channelgroupRef : String
  closestOntDistance : ℕ
  differentialFiberDistance : ℕ
  deriving DecidableEq

structure ChannelpairConfig where
  id : String
  name : String
  channelgroupRef : String
  channelpartitionRef : String
  channelpairType : String
  channelpairLinerate : String
  deriving DecidableEq

/-- The `id` is that of the device. -/
structure ChannelterminationConfig where
  id : String
  name : String
  channelpairRef : String
  berCalcPeriod : ℕ
  deriving DecidableEq

structure OntaniConfig where
  id : String
  name : String
  deriving DecidableEq

structure VOntaniConfig where
  id : String
  name : String
  parentRef : String
  preferredChanpair : String
  protectionChanpair : String
  expectedRegistrationId : String
  onuId : ℕ
  deriving DecidableEq

structure VEnetConfig where
  id : String
  name : String
  vOntaniRef : String
  deriving DecidableEq

structure TrafficDescriptorProfileData where
  id : String
  name : String
  priority : ℕ
  deriving DecidableEq

structure TcontsConfigData where
  id : String
  name : String
  interfaceReference : String
  trafficDescriptorProfileRef : String
  allocId : ℕ
  deriving DecidableEq

structure GemportsConfigData where
  id : String
  name : String
  itfRef : String
  trafficClass : ℕ
  tcontRef : String
  gemportId : ℕ
  deriving DecidableEq

/-- A device with its channel terminations. -/
structure Device where
  id : String
  channelTerminations : List ChannelterminationConfig
  deriving DecidableEq

/-- The collections of the configuration tree. -/
structure FiberConfig where
  channelGroups : List ChannelgroupConfig
  channelPartitions : List ChannelpartitionConfig
  channelPairs : List ChannelpairConfig
  devices : List Device
  ontAnis : List OntaniConfig
  vOntAnis : List VOntaniConfig
  vEnets : List VEnetConfig
  trafficDescriptorProfiles : List TrafficDescriptorProfileData
  tconts : List TcontsConfigData
  gemports : List GemportsConfigData
  deriving DecidableEq

/-- No fiber configuration, with devices that have no channel terminations. -/
def FiberConfig.empty (deviceIds : List String) : FiberConfig :=
  ⟨[], [], [], deviceIds.map (⟨·, []⟩), [], [], [], [], [], []⟩

/-- What the tree knows of the messages of a collection: the key, and whether two messages agree on
the read-only fields. -/
class Message (α : Type) where
  name : α → String
  sameReadOnly : α → α → Bool

instance : Message ChannelgroupConfig := ⟨(·.name), fun x y => x.id = y.id ∧ x.cgIndex = y.cgIndex⟩
instance : Message ChannelpartitionConfig := ⟨(·.name), fun x y => x.id = y.id⟩
instance : Message ChannelpairConfig := ⟨(·.name), fun x y => x.id = y.id⟩
instance : Message ChannelterminationConfig := ⟨(·.name), fun _ _ => true⟩
instance : Message OntaniConfig := ⟨(·.name), fun x y => x.id = y.id⟩
instance : Message VOntaniConfig := ⟨(·.name), fun x y => x.id = y.id⟩
instance : Message VEnetConfig := ⟨(·.name), fun x y => x.id = y.id⟩
instance : Message TrafficDescriptorProfileData := ⟨(·.name), fun x y => x.id = y.id⟩
instance : Message TcontsConfigData := ⟨(·.name), fun x y => x.id = y.id⟩
instance : Message GemportsConfigData := ⟨(·.name), fun x y => x.id = y.id⟩

/-! ## The operations of the tree on a collection -/

namespace Root

variable {α : Type} [Message α]

/-- `path.partition('/')`: what is before and what is after the first slash. -/
def splitPath (path : String) : String × String :=
  (String.ofList (path.toList.takeWhile (· ≠ '/')),
    String.ofList ((path.toList.dropWhile (· ≠ '/')).drop 1))

open Message

/-- `get` of a path in the collection; the empty path gives the collection itself, for which there
is `none` here.  The messages have no children to go on to. -/
def get (items : List α) (path : String) : Except Exn (Option α) :=
  if path = "" then .ok none
  else match find name items (splitPath path).1 with
    | none => .error .key
    | some x => if (splitPath path).2 = "" then .ok (some x) else .error .key

/-- `add` of a message to the collection. -/
def add (items : List α) (x : α) : Except Exn (List α) :=
  if name x ∈ items.map name then .error .value else .ok (items ++ [x])

/-- `update` with `strict`, under the name of the message. -/
def update (items : List α) (x : α) : Except Exn (List α) :=
  match find name items (name x) with
  | none => .error .key
  | some y =>
    if sameReadOnly x y then .ok (replace name x items)
    else .error .value

/-- `remove` of the message with a name. -/
def remove (items : List α) (name : String) : Except Exn (List α) :=
  if name = "" then .error .value
  else match find Message.name items name with
    | none => .error .key
    | some _ => .ok (erase Message.name name items)

variable {items : List α} {l : List α} {x : α} {path : String}

theorem add_eq_ok :
    add items x = .ok l ↔ name x ∉ items.map name ∧ l = items ++ [x] := by
  rw [add]
  split
  · next h => exact ⟨(nomatch ·), fun heq => absurd h heq.1⟩
  · next h => exact ⟨fun heq => ⟨h, (Except.ok.inj heq).symm⟩, fun heq => heq.2 ▸ rfl⟩

theorem update_eq_ok (h : update items x = .ok l) :
    ∃ y, find name items (name x) = some y ∧
      sameReadOnly x y = true ∧ l = replace name x items := by
  rw [update] at h
  split at h
  · cases h
  · next y hy =>
    split at h
    · next hsame => exact ⟨y, hy, hsame, (Except.ok.inj h).symm⟩
    · cases h

theorem remove_eq_ok {name : String} (h : remove items name = .ok l) :
    name ∈ items.map Message.name ∧ l = erase Message.name name items := by
  rw [remove] at h
  split at h
  · cases h
  · split at h
    · cases h
    · next x hx => exact ⟨mem_keys_of_find hx, (Except.ok.inj h).symm⟩

theorem remove_of_mem {name : String} (hne : name ≠ "") (hmem : name ∈ items.map Message.name) :
    remove items name = .ok (erase Message.name name items) := by
  obtain ⟨x, hx⟩ := exists_find hmem
  rw [remove, if_neg hne, hx]

/-- A path without a slash is a key. -/
theorem splitPath_of_noSlash (h : '/' ∉ path.toList) : splitPath path = (path, "") := by
  have htrue : ∀ ch ∈ path.toList, decide (ch ≠ '/') = true := fun ch hch =>
    decide_eq_true fun heq => h (heq ▸ hch)
  rw [splitPath, List.takeWhile_eq_self_iff.mpr htrue, List.dropWhile_eq_nil_iff.mpr htrue,
    String.ofList_toList]
  rfl

/-- What is found under a path without a slash. -/
theorem get_eq_some (h : '/' ∉ path.toList) (hget : get items path = .ok (some x)) :
    find name items path = some x := by
  rw [get] at hget
  split at hget
  · exact nomatch hget
  · rw [splitPath_of_noSlash h] at hget
    split at hget
    · exact nomatch hget
    · next y hy =>
      rw [if_pos rfl] at hget
      cases hget
      exact hy

/-- A path without a slash finds the message with this name. -/
theorem get_of_noSlash (hne : path ≠ "") (h : '/' ∉ path.toList) :
    get items path = match find name items path with
      | none => .error .key
      | some x => .ok (some x) := by
  rw [get, if_neg hne, splitPath_of_noSlash h]
  dsimp only
  split
  · rfl
  · rw [if_pos rfl]

end Root

/-! ## Validation -/

/-- A message of one of the kinds that the handler knows. -/
inductive Interface where
  | channelGroup (r : ChannelgroupConfig)
  | channelPartition (r : ChannelpartitionConfig)
  | channelPair (r : ChannelpairConfig)
  | channelTermination (r : ChannelterminationConfig)
  | ontAni (r : OntaniConfig)
  | vOntAni (r : VOntaniConfig)
  | vEnet (r : VEnetConfig)
  | trafficDescriptorProfile (r : TrafficDescriptorProfileData)
  | tcont (r : TcontsConfigData)
  | gemport (r : GemportsConfigData)
  deriving DecidableEq

/-- The messages of the assertions, and whether they hold. -/
abbrev Checks := List (Bool × String)

/-- The message of the first assertion that fails. -/
def Checks.failed (checks : Checks) : Option String := (checks.find? (!·.1)).map Prod.snd

/-- `get_ref_data`. -/
def getRefData {α : Type} [Message α] (items : List α) (reference : String) : Bool :=
  match Root.get items reference with
  | .ok _ => true
  | .error _ => false

theorem Checks.failed_eq_none {checks : Checks} :
    checks.failed = none ↔ ∀ check ∈ checks, check.1 = true := by
  rw [failed, Option.map_eq_none_iff, List.find?_eq_none]
  simp only [Bool.not_eq_true', Bool.not_eq_false]

theorem getRefData_of_noSlash {α : Type} [Message α] {items : List α} {reference : String}
    (hne : reference ≠ "") (hslash : '/' ∉ reference.toList) :
    getRefData items reference = true ↔ reference ∈ items.map Message.name := by
  rw [getRefData, Root.get_of_noSlash hne hslash]
  rcases hf : find Message.name items reference with _ | x
  · exact ⟨(nomatch ·), fun h => absurd h (find_eq_none.mp hf)⟩
  · exact ⟨fun _ => mem_keys_of_find hf, fun _ => rfl⟩

/-- Two v-ont-anis of a partition or a channel pair have one ONU id. -/
def onuIdClash (x y : VOntaniConfig) : Bool :=
  (x.parentRef = y.parentRef ∨ x.preferredChanpair = y.preferredChanpair ∨
    x.protectionChanpair = y.protectionChanpair) ∧ x.name ≠ y.name ∧ x.onuId = y.onuId

/-- The assertions of `validate_interface`, in their order. -/
def validations (c : FiberConfig) : Interface → Checks
  | .channelGroup r =>
    [(r.name ≠ "", "Channel Group name is mandatory"),
      (r.pollingPeriod ≤ 864000, "Channel Group polling period must be in range of " ++
        "                    [1, 864000]")]
  | .channelPartition r =>
    [(r.name ≠ "", "Channel Partition name is mandatory"),
      (r.channelgroupRef ≠ "", "Channel Partition must reference a channel group"),
      (getRefData c.channelGroups r.channelgroupRef,
        "Reference to channel group -- '" ++ r.channelgroupRef ++ "' not found"),
      (r.closestOntDistance ≤ 40, "Channel Partition closest ont distance must be in range " ++
        "                    of [0, 40]"),
      (r.differentialFiberDistance ∈ [0, 20, 34, 40],
        "Channel Partition differential fiber distance must be " ++
        "                    [20 | 34 | 40]")]
  | .channelPair r =>
    [(r.name ≠ "", "Channel Pair name is mandatory"),
      (r.channelgroupRef = "" ∨ getRefData c.channelGroups r.channelgroupRef,
        "Reference to channel group -- '" ++ r.channelgroupRef ++ "' not found"),
      (r.channelpartitionRef ≠ "", "Channel Pair must reference an existing Channel Partition"),
      (getRefData c.channelPartitions r.channelpartitionRef,
        "Reference to channel partition -- '" ++ r.channelpartitionRef ++ "' not found"),
      (r.channelpairType ≠ "", "Channel Pair type is mandatory"),
      (r.channelpairType ∈ ["channelpair", "channelpair_xgs"],
        "Invalid value for Channel Pair type '" ++ r.channelpairType ++ "'"),
      (r.channelpairLinerate ∈
          ["unplanned_cp_speed", "down_10_up_10", "down_10_up_2_5", "down_2_5_up_2_5"],
        "Invalid value for Channel Pair linerate '" ++ r.channelpairLinerate ++ "'")]
  | .channelTermination r =>
    [('/' ∉ r.id.toList, "Malformed device id '" ++ r.id ++ "'"),
      (r.id ≠ "", "Device ID is mandatory"),
      (r.name ≠ "", "Channel Termination name is mandatory"),
      (r.channelpairRef ≠ "", "Channel Termination must reference Channel Pair"),
      (getRefData c.channelPairs r.channelpairRef,
        "Reference to channel pair -- '" ++ r.channelpairRef ++ "' not found"),
      (r.berCalcPeriod ≤ 864000, "Channel Termination ber calc period must be in range of " ++
        "                    [1, 864000]")]
  | .ontAni r => [(r.name ≠ "", "OntAni name is mandatory")]
  | .vOntAni r =>
    [(r.name ≠ "", "VOntAni name is mandatory"),
      (r.parentRef ≠ "", "VOntAni must reference an existing Channel Partition"),
      (getRefData c.channelPartitions r.parentRef,
        "Reference to channel partition -- '" ++ r.parentRef ++ "' not found"),
      (r.preferredChanpair ≠ "", "VOntAni must reference preferred Channel Pair"),
      (getRefData c.channelPairs r.preferredChanpair,
        "Preferred channel pair -- '" ++ r.preferredChanpair ++ "' not found"),
      (r.protectionChanpair = "" ∨ getRefData c.channelPairs r.protectionChanpair,
        "Protection channel pair -- '" ++ r.protectionChanpair ++ "' not found"),
      (r.expectedRegistrationId.length ≤ 36,
        "VOnt Ani expected registration id string length must be " ++
        "                    in range of [0, 36]"),
      (r.onuId ≤ 1020, "VOnt Ani ONU id must be in range of [0, 1020]"),
      (c.vOntAnis.all fun item => !onuIdClash item r,
        "VOnt Ani ONU id -- '" ++ toString r.onuId ++ "' already exists, " ++
        "                                but must be unique within channel group")]
  | .vEnet r =>
    [(r.name ≠ "", "VEnet name is mandatory"),
      (r.vOntaniRef ≠ "", "VEnet must reference an existing VOntAni"),
      (getRefData c.vOntAnis r.vOntaniRef,
        "Reference to VOntAni -- '" ++ r.vOntaniRef ++ "' not found")]
  -- the bandwidths are numbers, which differ from the empty string
  | .trafficDescriptorProfile r =>
    [(r.name ≠ "", "Traffic Descriptor Profile name is mandatory"),
      (r.priority ≤ 8, "Traffic Descriptor Profile priority for or scheduling " ++
        "                    traffic on a TCont must be in range of [1, 8]")]
  | .tcont r =>
    [(r.name ≠ "", "TCont name is mandatory"),
      (r.interfaceReference ≠ "", "TCont must reference a vont ani interface"),
      (r.trafficDescriptorProfileRef ≠ "",
        "TCont must reference an existing traffic descriptor " ++ "                    profile"),
      (getRefData c.vOntAnis r.interfaceReference,
        "Reference to vont ani interface -- '" ++ r.interfaceReference ++ "' not found"),
      (getRefData c.trafficDescriptorProfiles r.trafficDescriptorProfileRef,
        "Reference to traffic descriptor profile -- '" ++ r.trafficDescriptorProfileRef ++
        "' " ++ "                    not found")]
  | .gemport r =>
    [(r.name ≠ "", "Gemport name is mandatory"),
      (r.itfRef ≠ "", "GemPort must reference an existing VEnet interface"),
      (getRefData c.vEnets r.itfRef,
        "Reference to VEnet interface -- '" ++ r.itfRef ++ "' not found"),
      (r.trafficClass ≤ 7, "Traffic class value for Gemport " ++
        "                    must be in range of [0, 7]"),
      (r.tcontRef ≠ "", "GemPort must reference an existing TCont"),
      (getRefData c.tconts r.tcontRef, "Reference to tcont -- '" ++ r.tcontRef ++ "' not found")]

/-- `validate_interface`: the message that it leaves in the context when it returns `False`. -/
def validateInterface (c : FiberConfig) (r : Interface) : Option String := (validations c r).failed

end Voltha.Xpon
