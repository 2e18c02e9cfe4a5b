import Voltha.Frames.OmciMessages

/-!
# OMCI frames

`OmciFrame` of `omci_frame.py`: a transaction id, a message type, the octet 0x0a, the message
itself in 36 octets, and a trailer.  The 25 message classes are tried one after the other under
the one field name `omci_message`, each on the condition that the message type is its own; the
message is filled up with zeros to 36 octets (`FixedLenField`), and the zeros are dropped when it
is read.  When a frame is read, a class that does not apply leaves the message that is there
alone (`store`, the extra condition in `do_dissect`).

## Main results

* `codes_messages`: among the 25 classes, exactly the one of the message type writes and reads the
  message, and the others keep it.
* `dissect_build`: **a frame whose values are in range, with a message of at most 36 octets, is
  written in 44 octets, and what is read from them says the same**.
-/

namespace Voltha.Frames

open List OrderedDict
open Option (bind_eq_some_iff bind_some isSome_some map_some some_inj)
open Packet

/-! ## Frames -/

/-- A message: its class, the values set, and what follows its fields. -/
structure OmciMessage where
  cls : MessageType
  fields : Fields FieldValue
  payload : Octets
  deriving DecidableEq

namespace OmciMessage

/-- `str(message)`. -/
def build (M : ClassMap) (p : OmciMessage) : Option Octets :=
  (selfBuild (p.cls.desc M) p.fields).map (· ++ p.payload)

/-- A message of a class, read from octets; what is left is its payload. -/
def dissect (M : ClassMap) (m : MessageType) (s : Octets) : Option OmciMessage :=
  (dissectLoop insert (m.desc M) (m.desc M) s []).map fun r => ⟨m, r.2, r.1⟩

/-- The value of a field of a message. -/
def getfieldval (M : ClassMap) (p : OmciMessage) : String → Option FieldValue :=
  p.cls.getfieldval M p.fields

/-- Whether all values of a message are in range. -/
def inRange (M : ClassMap) (p : OmciMessage) : Bool :=
  (p.cls.fieldsDesc.all fun f => f.inRange M (p.getfieldval M)) && decide (p.payload = [])

end OmciMessage

/-- The value of a field of a frame. -/
inductive FrameValue where
  | value (v : Value)
  | message (p : OmciMessage)
  deriving DecidableEq

def FrameValue.value? : FrameValue → Option Value
  | .value v => some v
  | .message _ => none

theorem FrameValue.eq_of_value? {v : Value} : ∀ {x : FrameValue}, x.value? = some v → x = .value v
  | .value _, rfl => rfl

namespace FixedLenField

/-- `padlen`: the zeros that fill octets up to a multiple of `align`. -/
def padlen (flen align : ℕ) : ℕ := (align - flen % align) % align

/-- Octets filled up to a multiple of 36. -/
def padded (s : Octets) : Octets := s ++ List.replicate (padlen s.length 36) 0

/-- `PadField.addfield` over `PacketField`, which writes `str(None)` for a message that is not
there. -/
def addfield (M : ClassMap) (s : Octets) : Option FrameValue → Option Octets
  | some (.message p) => (p.build M).map fun sval => s ++ padded sval
  | some (.value _) => none
  | none => some (s ++ padded [0x4e, 0x6f, 0x6e, 0x65])

/-- `FixedLenField.getfield`: a payload of zeros is padding, and is removed. -/
def getfield (M : ClassMap) (m : MessageType) (s : Octets) : Option (Octets × Option FrameValue) :=
  (OmciMessage.dissect M m (s.take 36)).map fun p =>
    (s.drop 36, some (.message (if p.payload.all (· = 0) then { p with payload := [] } else p)))

end FixedLenField

/-- Whether the message type of a frame is that of a class. -/
abbrev HasType (g : String → Option FrameValue) (m : MessageType) : Prop :=
  g "message_type" = some (.value (.number m.messageId))

/-- The conditional field `omci_message` for one of the classes. -/
def messageDesc (M : ClassMap) (m : MessageType) : FieldDesc FrameValue where
  name := "omci_message"
  default := none
  addfield g s v := if HasType g m then FixedLenField.addfield M s v else some s
  getfield g s := if HasType g m then FixedLenField.getfield M m s else some (s, none)

/-- The classes in the order of `fields_desc`. -/
def messageTypes : List MessageType :=
  [.omciCreate, .omciCreateResponse, .omciDelete, .omciDeleteResponse, .omciSet, .omciSetResponse,
    .omciGet, .omciGetResponse, .omciGetAllAlarms, .omciGetAllAlarmsResponse,
    .omciGetAllAlarmsNext, .omciGetAllAlarmsNextResponse, .omciMibUpload, .omciMibUploadResponse,
    .omciMibUploadNext, .omciMibUploadNextResponse, .omciMibReset, .omciMibResetResponse,
    .omciAlarmNotification, .omciAttributeValueChange, .omciTestResult, .omciReboot,
    .omciRebootResponse, .omciGetNext, .omciGetNextResponse]

/-- A frame: the values set, and what follows its fields. -/
structure OmciFrame where
  fields : Fields FrameValue
  payload : Octets
  deriving DecidableEq

namespace OmciFrame

def transactionId : Field := shortField "transaction_id" (some 0)

def messageType : Field := byteField "message_type" none

def omci : Field := byteField "omci" (some 0x0a)

def omciTrailer : Field := intField "omci_trailer" (some 0x28)

/-- A basic field of a frame. -/
def basic (f : Field) : FieldDesc FrameValue := f.desc .value FrameValue.value?

/-- `fields_desc`. -/
def desc (M : ClassMap) : List (FieldDesc FrameValue) :=
  [basic transactionId, basic messageType, basic omci] ++ messageTypes.map (messageDesc M) ++
    [basic omciTrailer]

/-- `str(frame)`. -/
def build (M : ClassMap) (frame : OmciFrame) : Option Octets :=
  (selfBuild (desc M) frame.fields).map (· ++ frame.payload)

/-- `do_dissect` keeps a value under its name when a later field of that name reads `None`. -/
def store (name : String) (v : Option FrameValue) (fields : Fields FrameValue) :
    Fields FrameValue :=
  if v.isSome ∨ get fields name = none then insert name v fields
  else fields

/-- `OmciFrame(s)`. -/
def dissect (M : ClassMap) (s : Octets) : Option OmciFrame :=
  (dissectLoop store (desc M) (desc M) s []).map fun r => ⟨r.2, r.1⟩

/-- The value of a field of a frame. -/
def getfieldval (M : ClassMap) (frame : OmciFrame) : String → Option FrameValue :=
  Packet.getfieldval (desc M) frame.fields

/-- The message of a frame. -/
def omciMessage (M : ClassMap) (frame : OmciFrame) : Option OmciMessage :=
  match frame.getfieldval M "omci_message" with
  | some (.message p) => some p
  | _ => none

/-- Whether the value of a basic field is in range. -/
def basicInRange (M : ClassMap) (frame : OmciFrame) (f : Field) : Bool :=
  ((frame.getfieldval M f.name).bind FrameValue.value?).any f.fits

/-- Whether all values of a frame are in range, and its message is of the class its message type
names. -/
def inRange (M : ClassMap) (frame : OmciFrame) : Bool :=
  ([transactionId, messageType, omci, omciTrailer].all (frame.basicInRange M)) &&
    ((frame.omciMessage M).any fun p =>
      decide (HasType (frame.getfieldval M) p.cls) && p.inRange M) &&
    decide (frame.payload = [])

/-- Two frames say the same: the same basic values, and messages of the same class with the same
fields, where the second message has the values that the first one says, and nothing but its
fields. -/
def SaysSame (M : ClassMap) (frame frame' : OmciFrame) : Prop :=
  frame'.payload = [] ∧
    (∀ f ∈ [transactionId, messageType, omci, omciTrailer],
      frame'.getfieldval M f.name = frame.getfieldval M f.name) ∧
    ∃ p p', frame.omciMessage M = some p ∧ frame'.omciMessage M = some p' ∧ p'.cls = p.cls ∧
      p'.payload = [] ∧
      ∀ f ∈ p.cls.fieldsDesc, f.Says M (p.getfieldval M) (p'.getfieldval M f.name)

end OmciFrame

/-! ## Messages in frames -/

theorem mem_messageTypes (m : MessageType) : m ∈ messageTypes := by
  cases m <;> decide

/-- A class stands among the others, and once. -/
theorem messageTypes_split (m : MessageType) :
    ∃ l l', messageTypes = l ++ m :: l' ∧ m ∉ l ∧ m ∉ l' := by
  obtain ⟨l, l', h⟩ := append_of_mem (mem_messageTypes m)
  have hnodup : messageTypes.Nodup := by decide
  rw [h, nodup_middle, nodup_cons, mem_append, not_or] at hnodup
  exact ⟨l, l', h, hnodup.1⟩

/-- No two classes have one message id. -/
theorem messageId_injective : Function.Injective MessageType.messageId := by
  have hnodup : (messageTypes.map MessageType.messageId).Nodup := by decide
  intro m m' h
  exact inj_on_of_nodup_map hnodup (mem_messageTypes m) (mem_messageTypes m') h

theorem hasType_iff {g : String → Option FrameValue} {m : MessageType} (h : HasType g m)
    (m' : MessageType) : HasType g m' ↔ m' = m := by
  rw [HasType, h, some_inj, FrameValue.value.injEq, Value.number.injEq,
    messageId_injective.eq_iff, eq_comm]

variable {p : OmciMessage} {t : Octets}

namespace FixedLenField

theorem length_padded (hpos : 0 < t.length) (hle : t.length ≤ 36) : (padded t).length = 36 := by
  rw [padded, length_append, length_replicate, padlen]
  rcases Nat.lt_or_ge t.length 36 with h | h
  · rw [Nat.mod_eq_of_lt h, Nat.mod_eq_of_lt (by omega)]
    omega
  · have heq : t.length = 36 := by omega
    rw [heq]

/-- **A message in range is read back from the 36 octets it was filled up to**, without the
filling. -/
theorem getfield_padded {M : ClassMap} (hin : p.inRange M = true) :
    ∃ t, p.build M = some t ∧ (t.length ≤ 36 → (padded t).length = 36 ∧ ∃ p' : OmciMessage,
      (∀ r, getfield M p.cls (padded t ++ r) = some (r, some (.message p'))) ∧
      p'.cls = p.cls ∧ p'.payload = [] ∧
      ∀ f ∈ p.cls.fieldsDesc, f.Says M (p.getfieldval M) (p'.getfieldval M f.name)) := by
  rw [OmciMessage.inRange, Bool.and_eq_true, all_eq_true, decide_eq_true_eq] at hin
  obtain ⟨t, hpos, hself, hread⟩ := MessageType.roundTrip hin.1
  refine ⟨t, by rw [OmciMessage.build, hself, map_some, hin.2, append_nil], fun hle => ?_⟩
  have hlen := length_padded hpos hle
  obtain ⟨fields', hloop, hsaid⟩ := hread _ (le_of_eq hlen.symm)
  refine ⟨hlen, ⟨p.cls, fields', []⟩, fun r => ?_, rfl, rfl, hsaid⟩
  have hzero : (List.replicate (padlen t.length 36) (0 : UInt8)).all (· = 0) = true := by
    rw [all_eq_true]
    exact fun b hb => decide_eq_true (eq_of_mem_replicate hb)
  rw [getfield, take_left' hlen, drop_left' hlen, OmciMessage.dissect, padded, hloop]
  simp only [map_some, hzero, if_true]

end FixedLenField

section Messages

/-- A value is stored under its name, and `None` does not replace a value. -/
theorem get_store_some (name n : String) (x : FrameValue) (fields : Fields FrameValue) :
    get (OmciFrame.store name (some x) fields) n =
      if n = name then some (some x) else get fields n := by
  rw [OmciFrame.store, if_pos (Or.inl isSome_some), get_insert]

theorem get_store_none {name n : String} {x : FrameValue} {fields : Fields FrameValue}
    (h : get fields n = some (some x)) :
    get (OmciFrame.store name none fields) n = some (some x) := by
  rw [OmciFrame.store]
  split
  · next hnone =>
    have hne : n ≠ name := by
      rintro rfl
      simp [h] at hnone
    rw [get_insert, if_neg hne, h]
  · exact h

variable {M : ClassMap} {m : MessageType} {g e : String → Option FrameValue} {rest u : Octets}
  {last seen : List String} {fs : List (FieldDesc FrameValue)}

/-- A reader who has found the message type, and no field that is `None`. -/
structure Typed (m : MessageType) (g e : String → Option FrameValue) (seen : List String) :
    Prop where
  written : HasType g m
  found : HasType e m
  mem : "message_type" ∈ seen
  isSome : ∀ n ∈ seen, (e n).isSome

/-- The classes that are not that of the message type are passed over. -/
theorem codes_skip (h : Typed m g e seen) (hne : u ++ rest ≠ [])
    (hcodes : Codes OmciFrame.store g e rest last seen fs u) :
    ∀ {l : List MessageType}, m ∉ l →
      Codes OmciFrame.store g e rest last seen (l.map (messageDesc M) ++ fs) u
  | [], _ => hcodes
  | m' :: l, hl => by
    rw [mem_cons, not_or] at hl
    refine .cons (t := []) (v := none) hne (fun s => ?_) (fun g' r hg => if_neg fun h' => ?_)
      (fun fields hseen n hn => ?_) (codes_skip h hne hcodes hl.2)
    · rw [append_nil]
      exact if_neg fun h' => hl.1 ((hasType_iff h.written m').1 h').symm
    · exact hl.1 ((hasType_iff ((hg _ h.mem).trans h.found) m').1 h').symm
    · obtain ⟨x, hx⟩ := Option.isSome_iff_exists.1 (h.isSome n hn)
      rw [hx]
      exact get_store_none ((hseen n hn).trans (congrArg some hx))

/-- **Exactly the class of the message type writes and reads the message**, and the classes tried
after it keep the message. -/
theorem codes_messages (h : Typed m g e seen) {p' : OmciMessage}
    (hp : g "omci_message" = some (.message p)) (hp' : e "omci_message" = some (.message p'))
    (hbuild : p.build M = some t) (hpad : FixedLenField.padded t ≠ []) (hne : u ++ rest ≠ [])
    (hget : ∀ r, FixedLenField.getfield M m (FixedLenField.padded t ++ r) =
      some (r, some (.message p')))
    (hcodes : Codes OmciFrame.store g e rest last ("omci_message" :: seen) fs u) :
    Codes OmciFrame.store g e rest last seen (messageTypes.map (messageDesc M) ++ fs)
      (FixedLenField.padded t ++ u) := by
  obtain ⟨l, l', hsplit, hl, hl'⟩ := messageTypes_split m
  have h' : Typed m g e ("omci_message" :: seen) :=
    ⟨h.written, h.found, mem_cons_of_mem _ h.mem,
      forall_mem_cons.2 ⟨by rw [hp', isSome_some], h.isSome⟩⟩
  have hpad' : FixedLenField.padded t ++ u ++ rest ≠ [] := by
    rw [append_assoc]
    exact append_ne_nil_of_left_ne_nil hpad _
  rw [hsplit, map_append, map_cons, append_assoc]
  refine codes_skip h hpad' (.put hpad' (fun s => ?_) (fun g' r hg => ?_) (fun fields n => ?_)
    (codes_skip h' hne hcodes hl')) hl
  · refine (if_pos h.written).trans ?_
    show FixedLenField.addfield M s (g "omci_message") = _
    rw [hp, FixedLenField.addfield, hbuild, map_some]
  · refine (if_pos ((hg _ h.mem).trans h.found)).trans ((hget r).trans ?_)
    rw [← hp']
    rfl
  · show get (OmciFrame.store "omci_message" (e "omci_message") fields) n = _
    rw [hp', get_store_some, ← hp']
    rfl

end Messages

/-! ## Whole frames -/

namespace OmciFrame

variable {M : ClassMap} {frame : OmciFrame} {f : Field}

theorem exists_of_basicInRange (h : frame.basicInRange M f = true) :
    ∃ v, frame.getfieldval M f.name = some (.value v) ∧ f.fits v = true :=
  exists_of_any FrameValue.eq_of_value? h

theorem omciMessage_eq_some :
    frame.omciMessage M = some p ↔ frame.getfieldval M "omci_message" = some (.message p) := by
  rw [omciMessage]
  split
  · next q hq => rw [hq, some_inj, some_inj, FrameValue.message.injEq]
  · next hne => exact ⟨(nomatch ·), fun h => absurd h (hne p)⟩

/-- A basic field of a frame is coded. -/
theorem codes_basic {g e : String → Option FrameValue} {rest u : Octets} {last seen : List String}
    {fs : List (FieldDesc FrameValue)} {v : Value} (hv : g f.name = some (.value v))
    (he : e f.name = g f.name) (hfit : f.fits v = true) (hwidth : 0 < f.width)
    (h : Codes store g e rest last (f.name :: seen) fs u) :
    Codes store g e rest last seen (basic f :: fs) (f.encode v ++ u) := by
  refine Field.codes rfl hv he hfit ?_ (fun _ _ => get_store_some ..) h
  rw [append_assoc]
  refine append_ne_nil_of_left_ne_nil (ne_nil_of_length_pos ?_) _
  rw [f.length_encode v hfit]
  exact hwidth

/-- A frame in range, taken apart. -/
theorem exists_of_inRange (h : frame.inRange M = true) :
    (∀ f ∈ [transactionId, messageType, omci, omciTrailer], ∃ v,
      frame.getfieldval M f.name = some (.value v) ∧ f.fits v = true) ∧
    (∃ p, frame.omciMessage M = some p ∧ HasType (frame.getfieldval M) p.cls ∧
      p.inRange M = true) ∧ frame.payload = [] := by
  simp only [inRange, Bool.and_eq_true, decide_eq_true_eq, Option.any_eq_true,
    all_eq_true] at h
  obtain ⟨⟨hbasic, p, hp, htype, hin⟩, hpayload⟩ := h
  exact ⟨fun f hf => exists_of_basicInRange (hbasic f hf), ⟨p, hp, htype, hin⟩, hpayload⟩

/-- **A frame is read back from its 44 octets**: for every class map, every message class and all
values in range, with a message of at most 36 octets. -/
theorem dissect_build {M : ClassMap} {frame : OmciFrame} (hin : frame.inRange M = true)
    (hlen : ∀ p t, frame.omciMessage M = some p → p.build M = some t → t.length ≤ 36) :
    ∃ s, frame.build M = some s ∧ s.length = 44 ∧
      ∃ frame', dissect M s = some frame' ∧ frame.SaysSame M frame' := by
  obtain ⟨hbasic, ⟨p, hp, htype, hpin⟩, hpayload⟩ := exists_of_inRange hin
  obtain ⟨v₁, hv₁, hfit₁⟩ := hbasic transactionId (by simp)
  obtain ⟨v₂, hv₂, hfit₂⟩ := hbasic messageType (by simp)
  obtain ⟨v₃, hv₃, hfit₃⟩ := hbasic omci (by simp)
  obtain ⟨v₄, hv₄, hfit₄⟩ := hbasic omciTrailer (by simp)
  obtain ⟨t, ht, hread⟩ := FixedLenField.getfield_padded hpin
  obtain ⟨hpad, p', hget, hcls, hpayload', hsaid⟩ := hread (hlen p t hp ht)
  -- a reader finds the values written, and the message that was read
  let e := Function.update (frame.getfieldval M) "omci_message" (some (.message p'))
  have he : ∀ n, n ≠ "omci_message" → e n = frame.getfieldval M n :=
    fun n hn => Function.update_of_ne hn ..
  have hp' : e "omci_message" = some (.message p') := Function.update_self ..
  have htyped : Typed p.cls (frame.getfieldval M) e
      [omci.name, messageType.name, transactionId.name] := by
    refine ⟨htype, (he _ (by decide)).trans htype, by decide, ?_⟩
    simp only [forall_mem_cons, he omci.name (by decide), he messageType.name (by decide),
      he transactionId.name (by decide), hv₁, hv₂, hv₃, isSome_some, true_and]
    exact nofun
  have hcodes : Codes store (frame.getfieldval M) e []
      ("omci_message" :: [transactionId, messageType, omci, omciTrailer].map (·.name)) [] (desc M)
      (transactionId.encode v₁ ++ (messageType.encode v₂ ++ (omci.encode v₃ ++
        (FixedLenField.padded t ++ (omciTrailer.encode v₄ ++ []))))) := by
    have htrailer : omciTrailer.encode v₄ ++ [] ++ [] ≠ [] := by
      rw [append_nil, append_nil]
      exact ne_nil_of_length_pos (by rw [Codec.length_encode _ _ hfit₄]; decide)
    refine codes_basic hv₁ (he _ (by decide)) hfit₁ (by decide)
      (codes_basic hv₂ (he _ (by decide)) hfit₂ (by decide)
        (codes_basic hv₃ (he _ (by decide)) hfit₃ (by decide)
          (codes_messages htyped (omciMessage_eq_some.1 hp) hp' ht
            (ne_nil_of_length_pos (by omega)) htrailer hget
            (codes_basic hv₄ (he _ (by decide)) hfit₄ (by decide) (.nil (by decide))))))
  obtain ⟨fields, hloop, hall⟩ := hcodes.dissect (desc M) [] nofun
  rw [append_nil] at hloop
  have hval : ∀ {n}, n ∈ _ → getfieldval M ⟨fields, []⟩ n = e n :=
    fun hn => getfieldval_of_get (hall _ hn)
  refine ⟨_, ?_, ?_, ⟨fields, []⟩, by rw [dissect, hloop, map_some], rfl, fun f hf => ?_, p, p',
    hp, omciMessage_eq_some.2 ((hval mem_cons_self).trans hp'), hcls, hpayload', hsaid⟩
  · rw [build, hpayload]
    exact (congrArg (Option.map _) (hcodes.build [])).trans (by rw [map_some, append_nil]; rfl)
  · simp only [length_append, Codec.length_encode _ _ hfit₁, Codec.length_encode _ _ hfit₂,
      Codec.length_encode _ _ hfit₃, Codec.length_encode _ _ hfit₄, hpad]
    rfl
  · have hother : ∀ f ∈ [transactionId, messageType, omci, omciTrailer],
        f.name ≠ "omci_message" := by decide
    exact (hval (mem_cons_of_mem _ (mem_map_of_mem hf))).trans (he _ (hother f hf))

/-! ## VLAN tagging filters -/

/-- The class `VlanTaggingFilterData`. -/
def vlanTaggingFilterData : EntityClass where
  attributes :=
    [⟨shortField "managed_entity_id" none, [.readable, .setByCreate]⟩,
      ⟨shortListField "vlan_filter_list" none 12, [.readable, .writable, .setByCreate]⟩,
      ⟨byteField "forward_operation" none, [.readable, .writable, .setByCreate]⟩,
      ⟨byteField "number_of_entries" none, [.readable, .writable, .setByCreate]⟩]

/-- A class map with this one class. -/
def vlanClassMap : ClassMap := fun n => if n = 84 then some vlanTaggingFilterData else none

/-- A frame with a message to instance 2 of the class. -/
def vlanFrame (m : MessageType) (fields : Fields FieldValue) : OmciFrame where
  fields :=
    [("transaction_id", some (.value (.number 1))),
      ("message_type", some (.value (.number m.messageId))),
      ("omci_message", some (.message ⟨m, [("entity_class", some (.value (.number 84))),
        ("entity_id", some (.value (.number 2)))] ++ fields, []⟩))]
  payload := []

/-- A Set message for all three attributes. -/
def setVlanFilter : OmciFrame :=
  vlanFrame .omciSet [("attributes_mask", some (.value (.number 0xe000))),
    ("data", some (.data [("vlan_filter_list", .numbers (5 :: List.replicate 11 0)),
      ("forward_operation", .number 0x10), ("number_of_entries", .number 1)]))]

/-- A Create message that leaves the list of VLANs out. -/
def createVlanFilter : OmciFrame :=
  vlanFrame .omciCreate [("data", some (.data [("forward_operation", .number 0x10),
    ("number_of_entries", .number 1)]))]

theorem dissect_build_setVlanFilter :
    ∃ s, setVlanFilter.build vlanClassMap = some s ∧ s.length = 44 ∧
      ∃ frame', dissect vlanClassMap s = some frame' ∧
        setVlanFilter.SaysSame vlanClassMap frame' :=
  dissect_build (by decide +kernel) fun p t hp ht => by
    have hmsg : ((setVlanFilter.omciMessage vlanClassMap).bind
        (OmciMessage.build vlanClassMap)).map List.length = some 32 := by decide +kernel
    rw [hp, bind_some, ht, map_some, some_inj] at hmsg
    omega

/-- The attribute values that a reader finds in a frame. -/
def dataRead (frame : OmciFrame) : Option FieldValue := do
  let s ← frame.build vlanClassMap
  let frame' ← dissect vlanClassMap s
  let p ← frame'.omciMessage vlanClassMap
  p.getfieldval vlanClassMap "data"

/-- A frame has 44 octets, not 48; and when the list of VLANs is left out of a Create message, its
default, the empty list, takes no octets, so that the attributes after it are read as part of the
list. -/
theorem vlanFilter_octets :
    setVlanFilter.inRange vlanClassMap = true ∧
      (setVlanFilter.build vlanClassMap).map List.length = some 44 ∧
      dataRead createVlanFilter = some (.data [
        ("vlan_filter_list", .numbers (0x1001 :: List.replicate 11 0)),
        ("forward_operation", .number 0), ("number_of_entries", .number 0)]) := by
  decide +kernel

end OmciFrame

end Voltha.Frames
