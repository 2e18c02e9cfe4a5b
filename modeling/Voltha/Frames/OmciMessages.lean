import Voltha.Frames.OmciEntities

/-!
# OMCI messages

The 25 message classes of `omci_messages.py`, each with its message id and its list of fields.
The fields are basic ones, the attribute values of a Create message (`OmciData`: every attribute
of the class that is set by create), and attribute values selected by a mask (`OmciMaskedData`),
which Get and Get Next responses have only when they report success.  A field with attribute
values looks up its class, and its mask, in fields that come before it.

## Main results

* `MessageField.codes_of_wellFormed`: a list of fields in which every field is read before it is
  needed is coded field by field.
* `MessageType.roundTrip`: **a message whose values are in range is written, and what is read back
  says the same**, whatever fills the 36 octets up.
-/

namespace Voltha.Frames

open List hiding get
open OrderedDict
open Packet

/-! ## Fields of messages -/

/-- The value of a field of a message. -/
inductive FieldValue where
  | value (v : Value)
  | data (d : Data)
  deriving DecidableEq

/-- A basic field as a field of a record. -/
def Field.desc {ν : Type} (f : Field) (wrap : Value → ν) (unwrap : ν → Option Value) :
    FieldDesc ν where
  name := f.name
  default := f.default.map wrap
  addfield _ s
    | none => some (s ++ f.encode f.blank)
    | some x => (unwrap x).map fun v => s ++ f.encode v
  getfield _ s := (f.decode s).map fun p => (p.1, some (wrap p.2))

def FieldValue.value? : FieldValue → Option Value
  | .value v => some v
  | .data _ => none

/-- A basic field with a value that fits is coded. -/
theorem Field.codes {ν : Type} {f : Field} {wrap : Value → ν} {unwrap : ν → Option Value}
    {store : String → Option ν → Fields ν → Fields ν} {g e : String → Option ν}
    {rest u : Octets} {last seen : List String} {fs : List (FieldDesc ν)} {v : Value}
    (hwrap : unwrap (wrap v) = some v) (hv : g f.name = some (wrap v)) (he : e f.name = g f.name)
    (hfit : f.fits v = true) (hne : f.encode v ++ u ++ rest ≠ [])
    (hput : ∀ fields n, get (store f.name (some (wrap v)) fields) n =
      if n = f.name then some (some (wrap v)) else get fields n)
    (h : Codes store g e rest last (f.name :: seen) fs u) :
    Codes store g e rest last seen (f.desc wrap unwrap :: fs) (f.encode v ++ u) := by
  have he' := he.trans hv
  refine .put hne (fun s => ?_) (fun g' r _ => ?_) (he' ▸ hput) h
  · show (f.desc wrap unwrap).addfield g s (g f.name) = _
    rw [hv]
    show (unwrap (wrap v)).map _ = _
    rw [hwrap]
    rfl
  · show (f.decode (f.encode v ++ r)).map _ = some (r, e f.name)
    rw [f.decode_encode v r hfit, he']
    rfl

theorem FieldValue.eq_of_value? {v : Value} : ∀ {x : FieldValue}, x.value? = some v → x = .value v
  | .value _, rfl => rfl

/-- A value that fits, in a field whose values are wrapped. -/
theorem exists_of_any {ν : Type} {wrap : Value → ν} {unwrap : ν → Option Value} {o : Option ν}
    {fits : Value → Bool} (hwrap : ∀ {v x}, unwrap x = some v → x = wrap v)
    (h : (o.bind unwrap).any fits = true) : ∃ v, o = some (wrap v) ∧ fits v = true := by
  obtain ⟨v, hv, hfit⟩ := (Option.any_eq_true _ _).1 h
  obtain ⟨x, hx, hxv⟩ := Option.bind_eq_some_iff.1 hv
  exact ⟨v, hwrap hxv ▸ hx, hfit⟩

/-- The class that the class id in a field stands for. -/
def classOf (M : ClassMap) : Option FieldValue → Option EntityClass
  | some (.value (.number n)) => M n
  | _ => none

/-- The class, and the mask, that two fields stand for. -/
def classAndMask (M : ClassMap) (cls mask : Option FieldValue) : Option (EntityClass × ℕ) :=
  match classOf M cls, mask with
  | some c, some (.value (.number n)) => some (c, n)
  | _, _ => none

namespace OmciData

/-- `OmciData.addfield`: the given values, or else the defaults of the class. -/
def addfield (M : ClassMap) (cls : Option FieldValue) (s : Octets) :
    Option FieldValue → Option Octets
  | some (.data d) => do
    let c ← classOf M cls
    addAttributes (fun a => some ((get d a.field.name).getD a.field.defaultValue))
      c.setByCreate s
  | _ => none

/-- `OmciData.getfield`. -/
def getfield (M : ClassMap) (cls : Option FieldValue) (s : Octets) :
    Option (Octets × Option FieldValue) := do
  let c ← classOf M cls
  let p ← getAttributes c.setByCreate s []
  pure (p.1, some (.data p.2))

end OmciData

namespace OmciMaskedData

/-- `OmciMaskedData.addfield`: a position that the class does not have raises an `IndexError`, and
an attribute without a value a `KeyError`. -/
def addfield (M : ClassMap) (cls mask : Option FieldValue) (s : Octets) :
    Option FieldValue → Option Octets
  | some (.data d) => do
    let (c, m) ← classAndMask M cls mask
    let as ← (attributeIndicesFromMask m).mapM fun i => c.attributes[i]?
    addAttributes (fun a => get d a.field.name) as s
  | _ => none

/-- `OmciMaskedData.getfield`: a position that the class does not have is passed over. -/
def getfield (M : ClassMap) (cls mask : Option FieldValue) (s : Octets) :
    Option (Octets × Option FieldValue) := do
  let (c, m) ← classAndMask M cls mask
  let p ← getAttributes (c.selected m) s []
  pure (p.1, some (.data p.2))

end OmciMaskedData

/-- A field of a message, with the names of the fields it looks at.  `ifSuccess` is
`ConditionalField(OmciMaskedData(...), lambda pkt: pkt.success_code == 0)`. -/
inductive MessageField where
  | basic (f : Field)
  | omciData (name entityClass : String)
  | omciMaskedData (name entityClass attributesMask : String)
  | ifSuccess (name entityClass attributesMask : String)

/-- `success_code == 0`. -/
abbrev Success (g : String → Option FieldValue) : Prop :=
  g "success_code" = some (.value (.number 0))

namespace MessageField

def name : MessageField → String
  | .basic f => f.name
  | .omciData name _ => name
  | .omciMaskedData name _ _ => name
  | .ifSuccess name _ _ => name

/-- The field as a field of a record. -/
def desc (M : ClassMap) : MessageField → FieldDesc FieldValue
  | .basic f => f.desc .value FieldValue.value?
  | .omciData name cls =>
    { name := name
      default := none
      addfield := fun g s v => OmciData.addfield M (g cls) s v
      getfield := fun g s => OmciData.getfield M (g cls) s }
  | .omciMaskedData name cls mask =>
    { name := name
      default := none
      addfield := fun g s v => OmciMaskedData.addfield M (g cls) (g mask) s v
      getfield := fun g s => OmciMaskedData.getfield M (g cls) (g mask) s }
  | .ifSuccess name cls mask =>
    { name := name
      default := none
      addfield := fun g s v =>
        if Success g then OmciMaskedData.addfield M (g cls) (g mask) s v else some s
      getfield := fun g s =>
        if Success g then OmciMaskedData.getfield M (g cls) (g mask) s else some (s, none) }

@[simp] theorem name_desc (M : ClassMap) (f : MessageField) : (f.desc M).name = f.name := by
  cases f <;> rfl

end MessageField

/-! ## Message classes -/

/-- The message classes, in the order in which `OmciFrame` tries them. -/
inductive MessageType where
  | omciCreate
  | omciCreateResponse
  | omciDelete
  | omciDeleteResponse
  | omciSet
  | omciSetResponse
  | omciGet
  | omciGetResponse
  | omciGetAllAlarms
  | omciGetAllAlarmsResponse
  | omciGetAllAlarmsNext
  | omciGetAllAlarmsNextResponse
  | omciMibUpload
  | omciMibUploadResponse
  | omciMibUploadNext
  | omciMibUploadNextResponse
  | omciMibReset
  | omciMibResetResponse
  | omciAlarmNotification
  | omciAttributeValueChange
  | omciTestResult
  | omciReboot
  | omciRebootResponse
  | omciGetNext
  | omciGetNextResponse
  deriving DecidableEq

namespace MessageType

def messageId : MessageType → ℕ
  | omciCreate => 0x44
  | omciCreateResponse => 0x24
  | omciDelete => 0x46
  | omciDeleteResponse => 0x26
  | omciSet => 0x48
  | omciSetResponse => 0x28
  | omciGet => 0x49
  | omciGetResponse => 0x29
  | omciGetAllAlarms => 0x4b
  | omciGetAllAlarmsResponse => 0x2b
  | omciGetAllAlarmsNext => 0x4c
  | omciGetAllAlarmsNextResponse => 0x2c
  | omciMibUpload => 0x4d
  | omciMibUploadResponse => 0x2d
  | omciMibUploadNext => 0x4e
  | omciMibUploadNextResponse => 0x2e
  | omciMibReset => 0x4f
  | omciMibResetResponse => 0x2f
  | omciAlarmNotification => 0x10
  | omciAttributeValueChange => 0x11
  | omciTestResult => 0x1B
  | omciReboot => 0x59
  | omciRebootResponse => 0x39
  | omciGetNext => 0x5A
  | omciGetNextResponse => 0x3A

/-- A number of one octet. -/
def byte (name : String) (default : Option ℕ) : MessageField := .basic (byteField name default)

/-- A number of two octets. -/
def short (name : String) (default : Option ℕ) : MessageField := .basic (shortField name default)

/-- `fields_desc` of the message classes. -/
def fieldsDesc : MessageType → List MessageField
  | omciCreate =>
    [short "entity_class" none, short "entity_id" (some 0), .omciData "data" "entity_class"]
  | omciCreateResponse =>
    [short "entity_class" none, short "entity_id" none, byte "success_code" (some 0),
      short "parameter_error_attributes_mask" none]
  | omciDelete => [short "entity_class" none, short "entity_id" none]
  | omciDeleteResponse =>
    [short "entity_class" none, short "entity_id" none, byte "success_code" (some 0)]
  | omciSet =>
    [short "entity_class" none, short "entity_id" (some 0), short "attributes_mask" none,
      .omciMaskedData "data" "entity_class" "attributes_mask"]
  | omciSetResponse =>
    [short "entity_class" none, short "entity_id" none, byte "success_code" (some 0),
      short "unsupported_attributes_mask" none, short "failed_attributes_mask" none]
  | omciGet =>
    [short "entity_class" none, short "entity_id" (some 0), short "attributes_mask" none]
  | omciGetResponse =>
    [short "entity_class" none, short "entity_id" (some 0), byte "success_code" (some 0),
      short "attributes_mask" none, .ifSuccess "data" "entity_class" "attributes_mask"]
  | omciGetAllAlarms =>
    [short "entity_class" (some 2), short "entity_id" (some 0),
      byte "alarm_retrieval_mode" (some 0)]
  | omciGetAllAlarmsResponse =>
    [short "entity_class" (some 2), short "entity_id" (some 0), short "number_of_commands" none]
  | omciGetAllAlarmsNext =>
    [short "entity_class" (some 2), short "entity_id" (some 0),
      short "command_sequence_number" none]
  | omciGetAllAlarmsNextResponse =>
    [short "entity_class" (some 2), short "entity_id" (some 0), short "alarmed_entity_class" none,
      short "alarmed_entity_id" (some 0), .basic (strFixedLenField "alarm_bit_map" none 27)]
  | omciMibUpload => [short "entity_class" (some 2), short "entity_id" (some 0)]
  | omciMibUploadResponse =>
    [short "entity_class" (some 2), short "entity_id" (some 0), short "number_of_commands" none]
  | omciMibUploadNext =>
    [short "entity_class" (some 2), short "entity_id" (some 0),
      short "command_sequence_number" none]
  | omciMibUploadNextResponse =>
    [short "entity_class" (some 2), short "entity_id" (some 0), short "object_entity_class" none,
      short "object_entity_id" (some 0), short "object_attributes_mask" none,
      .omciMaskedData "object_data" "object_entity_class" "object_attributes_mask"]
  | omciMibReset => [short "entity_class" none, short "entity_id" (some 0)]
  | omciMibResetResponse =>
    [short "entity_class" none, short "entity_id" (some 0), byte "success_code" (some 0)]
  | omciAlarmNotification =>
    [short "entity_class" none, short "entity_id" (some 0),
      .basic (numberField 28 "alarm_bit_map" (some 0)), byte "alarm_sequence_number" none]
  | omciAttributeValueChange =>
    [short "entity_class" none, short "entity_id" (some 0), short "attributes_mask" none,
      .omciMaskedData "data" "entity_class" "attributes_mask"]
  | omciTestResult => [short "entity_class" none, short "entity_id" (some 0)]
  | omciReboot =>
    [short "entity_class" none, short "entity_id" (some 0), byte "reboot_code" (some 0)]
  | omciRebootResponse =>
    [short "entity_class" none, short "entity_id" (some 0), byte "success_code" (some 0)]
  | omciGetNext =>
    [short "entity_class" none, short "entity_id" (some 0), short "attributes_mask" none,
      short "command_sequence_number" none]
  | omciGetNextResponse =>
    [short "entity_class" none, short "entity_id" (some 0), byte "success_code" (some 0),
      short "attributes_mask" none, .ifSuccess "data" "entity_class" "attributes_mask"]

/-- The fields of a message as fields of a record. -/
def desc (M : ClassMap) (m : MessageType) : List (FieldDesc FieldValue) :=
  m.fieldsDesc.map (MessageField.desc M)

end MessageType

/-! ## Values in range -/

/-- The values for a Create message: attributes that are set by create, values that fit their
fields, and, for an attribute that is left out, a default of the class that fits. -/
def EntityClass.fitsCreate (c : EntityClass) (d : Data) : Bool :=
  (d.all fun p => c.setByCreate.any fun a => a.field.name = p.1) &&
    c.setByCreate.all fun a =>
      a.field.fits ((get d a.field.name).getD a.field.defaultValue)

/-- The values for a mask: exactly the attributes it selects, which the class all has, and values
that fit their fields. -/
def EntityClass.fitsMask (c : EntityClass) (mask : ℕ) (d : Data) : Bool :=
  ((attributeIndicesFromMask mask).all fun i => i < c.attributes.length) &&
    (d.all fun p => (c.selected mask).any fun a => a.field.name = p.1) &&
    (c.selected mask).all fun a => (get d a.field.name).any a.field.fits

/-- Whether the value of a field with masked attribute values is in range. -/
def inRangeMasked (M : ClassMap) (cls mask : Option FieldValue) : Option FieldValue → Bool
  | some (.data d) => (classAndMask M cls mask).any fun p => p.1.fitsMask p.2 d
  | _ => false

namespace MessageField

/-- Whether the value of a field is in range, in a message with the values `g`. -/
def inRange (M : ClassMap) (g : String → Option FieldValue) : MessageField → Bool
  | .basic f => ((g f.name).bind FieldValue.value?).any f.fits
  | .omciData name cls => match g name with
    | some (.data d) => (classOf M (g cls)).any fun c => c.fitsCreate d
    | _ => false
  | .omciMaskedData name cls mask => inRangeMasked M (g cls) (g mask) (g name)
  | .ifSuccess name cls mask =>
    if Success g then inRangeMasked M (g cls) (g mask) (g name) else true

/-- What a message with the values `g` says in a field: a basic field its value, a Create message
the values of all attributes set by create, with class defaults for those left out; attributes
selected by a mask have the values given for them; a response without success has none. -/
def Says (M : ClassMap) (g : String → Option FieldValue) : MessageField → Option FieldValue → Prop
  | .basic f, v => v = g f.name
  | .omciData name cls, v => ∃ c d, classOf M (g cls) = some c ∧ g name = some (.data d) ∧
      v = some (.data (c.completed d))
  | .omciMaskedData name _ _, v => ∃ d d', g name = some (.data d) ∧ v = some (.data d') ∧
      ∀ k, get d' k = get d k
  | .ifSuccess name _ _, v =>
    if Success g then ∃ d d', g name = some (.data d) ∧ v = some (.data d') ∧
      ∀ k, get d' k = get d k
    else v = none

end MessageField

/-! ## One field -/

theorem mapM_eq_some_filterMap {α β : Type} {f : α → Option β} :
    ∀ {l : List α}, (∀ a ∈ l, (f a).isSome) → l.mapM f = some (l.filterMap f)
  | [], _ => rfl
  | a :: l, h => by
    obtain ⟨b, hb⟩ := Option.isSome_iff_exists.1 (h a mem_cons_self)
    rw [mapM_cons, hb, filterMap_cons_some hb,
      mapM_eq_some_filterMap fun x hx => h x (mem_cons_of_mem _ hx)]
    rfl

variable {cls mask v : Option FieldValue} {M : ClassMap}

/-- Values in range for a mask, taken apart. -/
theorem inRangeMasked_iff :
    inRangeMasked M cls mask v = true ↔ ∃ d c m, v = some (.data d) ∧
      classAndMask M cls mask = some (c, m) ∧ c.fitsMask m d = true := by
  rcases v with _ | (v | d)
  · simp [inRangeMasked]
  · simp [inRangeMasked]
  · cases hc : classAndMask M cls mask with
    | none => simp [inRangeMasked, hc]
    | some p => simp [inRangeMasked, hc, Prod.ext_iff]

/-- What it means for values to fit a mask. -/
theorem EntityClass.fitsMask_iff {c : EntityClass} {mask : ℕ} {d : Data} :
    c.fitsMask mask d = true ↔ (∀ i ∈ attributeIndicesFromMask mask, i < c.attributes.length) ∧
      (∀ p ∈ d, p.1 ∈ (c.selected mask).map (·.field.name)) ∧
      ∀ a ∈ c.selected mask, ∃ v, get d a.field.name = some v ∧
        a.field.fits v = true := by
  simp only [EntityClass.fitsMask, Bool.and_eq_true, all_eq_true, any_eq_true,
    decide_eq_true_eq, Option.any_eq_true, mem_map, and_assoc]

/-- Values in range for a mask are written, and the values found are the values given. -/
theorem codes_masked (h : inRangeMasked M cls mask v = true) :
    ∃ t x, (∀ s, OmciMaskedData.addfield M cls mask s v = some (s ++ t)) ∧
      (∀ r, OmciMaskedData.getfield M cls mask (t ++ r) = some (r, x)) ∧
      ∃ d d', v = some (.data d) ∧ x = some (.data d') ∧ ∀ k, get d' k = get d k := by
  obtain ⟨d, c, m, rfl, hc, hfit⟩ := inRangeMasked_iff.1 h
  obtain ⟨hpos, hkeys, hvals⟩ := EntityClass.fitsMask_iff.1 hfit
  have hall : (attributeIndicesFromMask m).mapM (fun i => c.attributes[i]?) =
      some (c.selected m) :=
    mapM_eq_some_filterMap fun i hi => by
      rw [getElem?_eq_getElem (hpos i hi), Option.isSome_some]
  obtain ⟨t, hadd, hget⟩ := getAttributes_addAttributes _ _ hvals
  refine ⟨t, _, fun s => ?_, fun r => ?_, d,
    stored (fun a => get d a.field.name) (c.selected m) [], rfl, rfl, fun k => ?_⟩
  · rw [OmciMaskedData.addfield, hc]
    simp only [Option.bind_eq_bind, Option.bind_some, hall, hadd]
  · rw [OmciMaskedData.getfield, hc]
    simp only [Option.bind_eq_bind, Option.bind_some, hget, Option.pure_def]
  · rw [get_stored k _ _ fun a ha =>
      Option.isSome_iff_exists.2 ((hvals a ha).imp fun _ hv => hv.1)]
    split
    · rfl
    · next hk =>
      -- a name that the mask does not select has no value
      cases hd : get d k with
      | none => rfl
      | some v =>
        obtain ⟨p, hp, hpk⟩ := mem_map.1 (mem_keys_of_get hd)
        exact absurd (hpk ▸ hkeys p hp) hk

theorem codes_create {c : EntityClass} {d : Data} (hc : classOf M cls = some c)
    (hfit : c.fitsCreate d = true) :
    ∃ t, (∀ s, OmciData.addfield M cls s (some (.data d)) = some (s ++ t)) ∧
      ∀ r, OmciData.getfield M cls (t ++ r) = some (r, some (.data (c.completed d))) := by
  rw [EntityClass.fitsCreate, Bool.and_eq_true] at hfit
  obtain ⟨t, hadd, hget⟩ := getAttributes_addAttributes
    (fun a => some ((get d a.field.name).getD a.field.defaultValue)) c.setByCreate
    fun a ha => ⟨_, rfl, all_eq_true.1 hfit.2 a ha⟩
  refine ⟨t, fun s => ?_, fun r => ?_⟩
  · rw [OmciData.addfield, hc]
    exact hadd s
  · rw [OmciData.getfield, hc]
    simp only [Option.bind_eq_bind, Option.bind_some, hget, Option.pure_def]
    rfl

namespace MessageField

/-- The fields that a field looks at. -/
def reads : MessageField → List String
  | .basic _ => []
  | .omciData _ cls => [cls]
  | .omciMaskedData _ cls mask => [cls, mask]
  | .ifSuccess _ cls mask => ["success_code", cls, mask]

variable {M : ClassMap} {g : String → Option FieldValue}

/-- **A field with attribute values in range is written, and read back as what the message says**
by a reader who knows the fields it looks at. -/
theorem codes_of_inRange {f : MessageField} (h : f.inRange M g = true) (hf : ∀ b, f ≠ basic b) :
    ∃ t x, (∀ s, (f.desc M).addfield g s (g f.name) = some (s ++ t)) ∧
      (∀ g' r, (∀ n ∈ f.reads, g' n = g n) → (f.desc M).getfield g' (t ++ r) = some (r, x)) ∧
      f.Says M g x := by
  cases f with
  | basic b => exact absurd rfl (hf b)
  | omciData name cls =>
    rw [inRange] at h
    split at h
    · next d hd =>
      obtain ⟨c, hc, hfit⟩ := (Option.any_eq_true _ _).1 h
      obtain ⟨t, hadd, hget⟩ := codes_create hc hfit
      refine ⟨t, _, fun s => ?_, fun g' r hg => ?_, c, d, hc, hd, rfl⟩
      · show OmciData.addfield M (g cls) s (g name) = _
        rw [hd, hadd]
      · show OmciData.getfield M (g' cls) (t ++ r) = _
        rw [hg cls (by simp [reads]), hget]
    · cases h
  | omciMaskedData name cls mask =>
    obtain ⟨t, x, hadd, hget, hsaid⟩ := codes_masked h
    refine ⟨t, x, hadd, fun g' r hg => ?_, hsaid⟩
    show OmciMaskedData.getfield M (g' cls) (g' mask) (t ++ r) = _
    rw [hg cls (by simp [reads]), hg mask (by simp [reads]), hget]
  | ifSuccess name cls mask =>
    have hsame : ∀ {g' : String → Option FieldValue},
        (∀ n ∈ (ifSuccess name cls mask).reads, g' n = g n) → (Success g' ↔ Success g) :=
      fun hg => by rw [Success, Success, hg "success_code" (by simp [reads])]
    by_cases hs : Success g
    · rw [inRange, if_pos hs] at h
      obtain ⟨t, x, hadd, hget, hsaid⟩ := codes_masked h
      refine ⟨t, x, fun s => (if_pos hs).trans (hadd s), fun g' r hg => ?_, ?_⟩
      · refine (if_pos ((hsame hg).2 hs)).trans ?_
        rw [hg cls (by simp [reads]), hg mask (by simp [reads]), hget]
      · rwa [Says, if_pos hs]
    · refine ⟨[], none, fun s => ?_, fun g' r hg => if_neg fun h => hs ((hsame hg).1 h), ?_⟩
      · rw [append_nil]
        exact if_neg hs
      · rw [Says, if_neg hs]

/-- Fields that are basic, up to a last one with attribute values, which has a name of its own and
looks only at fields before it; they leave room for each next field when `room` octets are to be
filled. -/
def wellFormed : List String → ℕ → List MessageField → Bool
  | _, _, [] => true
  | seen, room, basic f :: fs =>
    decide (0 < room) && wellFormed (f.name :: seen) (room - f.width) fs
  | seen, room, f :: fs =>
    f.name ∉ seen && decide (0 < room) && (f.reads.all fun n => decide (n ∈ seen)) && fs.isEmpty

/-- How many octets the basic fields take. -/
def headerWidth : List MessageField → ℕ
  | [] => 0
  | basic f :: fs => f.width + headerWidth fs
  | _ :: fs => headerWidth fs

/-- **Well-formed fields with values in range are coded field by field**, in front of whatever
fills the room up. -/
theorem codes_of_wellFormed :
    ∀ {fs : List MessageField} {seen : List String} {room : ℕ},
      wellFormed seen room fs = true → (∀ f ∈ fs, f.inRange M g = true) →
      ∃ e t, (∀ n ∈ seen, e n = g n) ∧ (∀ f ∈ fs, f.Says M g (e f.name)) ∧
        headerWidth fs ≤ t.length ∧ ∀ rest last, room ≤ (t ++ rest).length →
          (∀ n ∈ last, n ∈ seen ∨ n ∈ fs.map name) →
          Codes insert g e rest last seen (fs.map (desc M)) t
  | [], _, _, _, _ => ⟨g, [], fun _ _ => rfl, nofun, le_rfl,
      fun _ _ _ hlast => .nil fun n hn => (hlast n hn).resolve_right not_mem_nil⟩
  | f :: fs, seen, room, hwf, hin => by
    have hne : ∀ {s : Octets}, 0 < room → room ≤ s.length → s ≠ [] :=
      fun hroom hs => ne_nil_of_length_pos (Nat.lt_of_lt_of_le hroom hs)
    have hlast : ∀ {last : List String}, (∀ n ∈ last, n ∈ seen ∨ n ∈ (f :: fs).map name) →
        ∀ n ∈ last, n ∈ f.name :: seen ∨ n ∈ fs.map name := fun h n hn => by
      have := h n hn
      simp only [map_cons, mem_cons] at this ⊢
      tauto
    rw [forall_mem_cons] at hin
    by_cases hf : ∀ b, f ≠ basic b
    · have hwf : f.name ∉ seen ∧ 0 < room ∧ (∀ n ∈ f.reads, n ∈ seen) ∧ fs = [] := by
        cases f with
        | basic b => exact absurd rfl (hf b)
        | _ => simpa [wellFormed, and_assoc] using hwf
      obtain ⟨hname, hroom, hreads, rfl⟩ := hwf
      obtain ⟨t, x, hadd, hget, hsaid⟩ := codes_of_inRange hin.1 hf
      have he : ∀ n ∈ seen, Function.update g f.name x n = g n := fun n hn =>
        Function.update_of_ne (ne_of_mem_of_not_mem hn hname) ..
      refine ⟨Function.update g f.name x, t ++ [], he, ?_, ?_, fun rest last hrest h => ?_⟩
      · rw [forall_mem_cons, Function.update_self]
        exact ⟨hsaid, nofun⟩
      · cases f with
        | basic b => exact absurd rfl (hf b)
        | _ => exact Nat.zero_le _
      · refine .put (hne hroom hrest) ?_ ?_ (fun _ _ => get_insert ..)
          (.nil fun n hn => ?_)
        · rw [name_desc]
          exact hadd
        · rw [name_desc, Function.update_self]
          exact fun g' r hg => hget g' r fun n hn => (hg n (hreads n hn)).trans (he n (hreads n hn))
        · rw [name_desc]
          exact (hlast h n hn).resolve_right not_mem_nil
    · push Not at hf
      obtain ⟨b, rfl⟩ := hf
      simp only [wellFormed, Bool.and_eq_true, decide_eq_true_eq] at hwf
      obtain ⟨v, hv, hfit⟩ := exists_of_any FieldValue.eq_of_value? hin.1
      have hwidth := b.length_encode v hfit
      obtain ⟨e, u, he, hsaid, hu, hcodes⟩ := codes_of_wellFormed hwf.2 hin.2
      rw [forall_mem_cons] at he
      refine ⟨e, b.encode v ++ u, he.2, forall_mem_cons.2 ⟨he.1, hsaid⟩, ?_,
        fun rest last hrest h => ?_⟩
      · rw [headerWidth, length_append, hwidth]
        exact Nat.add_le_add_left hu _
      · refine Field.codes rfl hv he.1 hfit (hne hwf.1 hrest) (fun _ _ => get_insert ..)
          (hcodes rest last ?_ (hlast h))
        rw [append_assoc, length_append, hwidth] at hrest
        omega

end MessageField

/-! ## Whole messages -/

namespace MessageType

/-- The values of a message with some fields set. -/
def getfieldval (M : ClassMap) (m : MessageType) (fields : Fields FieldValue) :
    String → Option FieldValue :=
  Packet.getfieldval (m.desc M) fields

/-- The fields of every message are well formed in 36 octets. -/
theorem wellFormed_fieldsDesc (m : MessageType) :
    MessageField.wellFormed [] 36 m.fieldsDesc = true := by
  cases m <;> decide

theorem headerWidth_pos (m : MessageType) : 0 < MessageField.headerWidth m.fieldsDesc := by
  cases m <;> decide

/-- **A message whose values are in range is written, and what is read back says the same**, from
any 36 octets or more that begin with it. -/
theorem roundTrip {m : MessageType} {fields : Fields FieldValue}
    (hin : ∀ f ∈ m.fieldsDesc, f.inRange M (m.getfieldval M fields) = true) :
    ∃ t : Octets, 0 < t.length ∧ selfBuild (m.desc M) fields = some t ∧
      ∀ rest : Octets, 36 ≤ (t ++ rest).length → ∃ fields',
        dissectLoop insert (m.desc M) (m.desc M) (t ++ rest) [] =
          some (rest, fields') ∧
        ∀ f ∈ m.fieldsDesc, f.Says M (m.getfieldval M fields) (m.getfieldval M fields' f.name) := by
  obtain ⟨e, t, -, hsaid, ht, hcodes⟩ :=
    MessageField.codes_of_wellFormed (wellFormed_fieldsDesc m) hin
  have hcodes := fun rest hrest => hcodes rest (m.fieldsDesc.map MessageField.name) hrest
    fun _ => .inr
  refine ⟨t, Nat.lt_of_lt_of_le (headerWidth_pos m) ht, ?_, fun rest hrest => ?_⟩
  · have hlong : 36 ≤ (t ++ List.replicate 36 0).length := by
      rw [length_append, length_replicate]
      exact Nat.le_add_left ..
    exact (hcodes _ hlong).build []
  · obtain ⟨fields', hloop, hall⟩ := (hcodes rest hrest).dissect (m.desc M) [] nofun
    refine ⟨fields', hloop, fun f hf => ?_⟩
    have hval : m.getfieldval M fields' f.name = e f.name :=
      getfieldval_of_get (hall f.name (mem_map_of_mem hf))
    rw [hval]
    exact hsaid f hf

end MessageType

end Voltha.Frames
