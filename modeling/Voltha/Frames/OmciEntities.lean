import Voltha.Lib.Packet

/-!
# Managed entity classes

The part of `omci_entities.py` and `omci_defs.py` that the layout of OMCI messages rests on.  A
managed entity class is a list of attributes; an attribute has a scapy field, which says how its
value goes over the wire, and the ways it may be accessed.  A 16-bit mask selects attributes of a
class by their positions: the top bit is position 1, the bottom bit position 16, and position 0,
the instance id, is never selected.

The basic scapy fields are codecs of a fixed width (`Packet.Codec`): `numberCodec` (`ByteField`,
`ShortField`, `IntField`, `LongField`, and `BitField` of whole octets), `strCodec`
(`StrFixedLenField`, and `MACField` and `IPField` with the octets for the text) and `listCodec`
(`FieldListField` of numbers).

## Main results

* `mem_attributeIndicesFromMask`: **the two lookup tables together select the positions whose bit
  is set**.
* `mem_attributeIndicesFromMask_maskFor`: **the mask of some attribute names selects the
  positions of these names**.
* `getAttributes_addAttributes`: **attributes written one after the other are read back one after
  the other**, whatever follows them.
-/

namespace Voltha.Frames

open List hiding get
open OrderedDict
open Packet

/-! ## Fields -/

/-- The value of a basic field. -/
inductive Value where
  | number (n : ℕ)
  | octets (s : Octets)
  | numbers (l : List ℕ)
  deriving DecidableEq

/-- A number, the most significant octet first. -/
def numberCodec (width : ℕ) : Codec Value where
  width := width
  fits
    | .number n => n < 256 ^ width
    | _ => false
  encode
    | .number n => bigEndian width n
    | _ => []
  decode s :=
    if s.length < width then none
    else some (s.drop width, .number (number (s.take width)))
  length_encode
    | .number n, _ => length_bigEndian width n
  decode_encode
    | .number n, rest, h => by
      have hfit : n < 256 ^ width := by simpa using h
      have hlen : (bigEndian width n).length = width := length_bigEndian width n
      dsimp only
      rw [if_neg (by rw [length_append]; omega), drop_left' hlen, take_left' hlen,
        number_bigEndian hfit]

/-- A string of a fixed length: `struct.pack` cuts it, or fills it up with zeros. -/
def strCodec (width : ℕ) : Codec Value where
  width := width
  fits
    | .octets s => s.length = width
    | _ => false
  encode
    | .octets s => (s ++ replicate width 0).take width
    | _ => []
  decode s := some (s.drop width, .octets (s.take width))
  length_encode
    | .octets s, h => by
      have hlen : s.length = width := by simpa using h
      dsimp only
      rw [take_left' hlen, hlen]
  decode_encode
    | .octets s, rest, h => by
      have hlen : s.length = width := by simpa using h
      dsimp only
      rw [take_left' hlen, drop_left' hlen, take_left' hlen]

/-- `FieldListField.getfield`: so many numbers, or fewer when nothing is left. -/
def takeNumbers (width : ℕ) : ℕ → Octets → Option (Octets × List ℕ)
  | 0, s => some (s, [])
  | count + 1, s =>
    if s = [] then some (s, [])
    else if s.length < width then none
    else (takeNumbers width count (s.drop width)).map fun p =>
      (p.1, number (s.take width) :: p.2)

theorem takeNumbers_flatMap {width : ℕ} (hw : 0 < width) (rest : Octets) :
    ∀ {l : List ℕ}, (∀ n ∈ l, n < 256 ^ width) →
      takeNumbers width l.length (l.flatMap (bigEndian width) ++ rest) = some (rest, l)
  | [], _ => rfl
  | n :: l, h => by
    have hlen : (bigEndian width n).length = width := length_bigEndian width n
    have hlong : width ≤
        (bigEndian width n ++ (l.flatMap (bigEndian width) ++ rest)).length := by
      rw [length_append, hlen]
      exact Nat.le_add_right ..
    have hne : bigEndian width n ++ (l.flatMap (bigEndian width) ++ rest) ≠ [] :=
      ne_nil_of_length_pos (by omega)
    rw [flatMap_cons, append_assoc, length_cons, takeNumbers, if_neg hne,
      if_neg (by omega), drop_left' hlen, take_left' hlen,
      takeNumbers_flatMap hw rest fun m hm => h m (mem_cons_of_mem _ hm),
      number_bigEndian (h n mem_cons_self)]
    rfl

/-- A list of so many numbers. -/
def listCodec (width count : ℕ) (hw : 0 < width) : Codec Value where
  width := count * width
  fits
    | .numbers l => l.length = count ∧ ∀ n ∈ l, n < 256 ^ width
    | _ => false
  encode
    | .numbers l => l.flatMap (bigEndian width)
    | _ => []
  decode s := (takeNumbers width count s).map fun p => (p.1, .numbers p.2)
  length_encode
    | .numbers l, h => by
      have hlen : l.length = count := (of_decide_eq_true h).1
      simp only [length_flatMap, length_bigEndian, map_const', sum_replicate_nat,
        hlen]
  decode_encode
    | .numbers l, rest, h => by
      obtain ⟨hlen, hall⟩ := of_decide_eq_true h
      rw [← hlen, takeNumbers_flatMap hw rest hall]
      rfl

/-- A basic field of scapy. -/
structure Field extends Codec Value where
  name : String
  default : Option Value
  /-- What is written for the value `None`. -/
  blank : Value

/-- What is written for a value that is left out. -/
def Field.defaultValue (f : Field) : Value := f.default.getD f.blank

/-- A field for numbers of so many octets. -/
def numberField (width : ℕ) (name : String) (default : Option ℕ) : Field where
  toCodec := numberCodec width
  name := name
  default := default.map .number
  blank := .number 0

def byteField := numberField 1

def shortField := numberField 2

def intField := numberField 4

/-- `StrFixedLenField`. -/
def strFixedLenField (name : String) (default : Option Octets) (length : ℕ) : Field where
  toCodec := strCodec length
  name := name
  default := default.map .octets
  blank := .octets (replicate length 0)

/-- `FieldListField` of `ShortField`s; its default `None` is the empty list. -/
def shortListField (name : String) (default : Option (List ℕ)) (count : ℕ) : Field where
  toCodec := listCodec 2 count (by decide)
  name := name
  default := some (.numbers (default.getD []))
  blank := .numbers []

/-! ## Attributes -/

inductive AttributeAccess where
  | readable
  | writable
  | setByCreate
  deriving DecidableEq

structure EntityClassAttribute where
  field : Field
  access : List AttributeAccess

structure EntityClass where
  attributes : List EntityClassAttribute

/-- `entity_id_to_class_map`. -/
abbrev ClassMap := ℕ → Option EntityClass

/-- Attribute values, under the names of the attributes. -/
abbrev Data := List (String × Value)

namespace EntityClass

/-- The attributes in a Create message: those set by create, apart from the instance id. -/
def setByCreate (c : EntityClass) : List EntityClassAttribute :=
  c.attributes.filter fun a =>
    AttributeAccess.setByCreate ∈ a.access ∧ a.field.name ≠ "managed_entity_id"

/-- The values of all attributes in a Create message, class defaults where none are given. -/
def completed (c : EntityClass) (d : Data) : Data :=
  c.setByCreate.foldl (fun data a => insert a.field.name
    ((get d a.field.name).getD a.field.defaultValue) data) []

/-- `attribute_name_to_index_map`. -/
def attributeNameToIndexMap (c : EntityClass) : List (String × ℕ) :=
  ofList (c.attributes.zipIdx.map fun p => (p.1.field.name, p.2))

end EntityClass

/-! ## Masks -/

/-- The loop of `bitpos_from_mask`; the mask is zero after at most as many rounds as its value. -/
def bitposLoop : ℕ → ℕ → ℤ → ℤ → List ℤ
  | 0, _, _, _ => []
  | fuel + 1, mask, lsbPos, increment =>
    if mask = 0 then []
    else (if mask &&& 1 = 1 then [lsbPos] else []) ++
      bitposLoop fuel (mask >>> 1) (lsbPos + increment) increment

/-- `bitpos_from_mask`: the positions of the bits that are set. -/
def bitposFromMask (mask : ℕ) (lsbPos increment : ℤ) : List ℤ :=
  (bitposLoop mask mask lsbPos increment).insertionSort (· ≤ ·)

/-- `attribute_indices_from_mask`, the tables of the two octets written out; no position is
negative. -/
def attributeIndicesFromMask (mask : ℕ) : List ℕ :=
  (bitposFromMask ((mask >>> 8) &&& 0xff) 8 (-1) ++
    bitposFromMask (mask &&& 0xff) 16 (-1)).map Int.toNat

/-- One round of `mask_for`; an unknown name raises a `KeyError`, a position over 16 a
`ValueError`. -/
def EntityClass.addToMask (c : EntityClass) (mask : ℕ) (name : String) : Option ℕ :=
  match get c.attributeNameToIndexMap name with
  | none => none
  | some index => if index ≤ 16 then some (mask ||| 1 <<< (16 - index)) else none

/-- `mask_for`: the mask of some attribute names. -/
def EntityClass.maskFor (c : EntityClass) (names : List String) : Option ℕ :=
  names.foldlM c.addToMask 0

theorem mem_bitposLoop {p increment : ℤ} :
    ∀ {fuel mask : ℕ} {lsbPos : ℤ}, mask ≤ fuel →
      (p ∈ bitposLoop fuel mask lsbPos increment ↔
        ∃ k, mask.testBit k = true ∧ p = lsbPos + k * increment)
  | 0, mask, lsbPos, h => by
    have hm : mask = 0 := Nat.le_zero.1 h
    simp [bitposLoop, hm]
  | fuel + 1, mask, lsbPos, h => by
    rcases eq_or_ne mask 0 with rfl | hm
    · simp [bitposLoop]
    have hhalf : mask >>> 1 ≤ fuel := by
      rw [Nat.shiftRight_one]
      omega
    have hbit : (mask &&& 1 = 1) ↔ mask.testBit 0 = true := by
      rw [Nat.testBit_zero, Nat.and_one_is_mod, decide_eq_true_iff]
    rw [bitposLoop, if_neg hm, mem_append, mem_bitposLoop hhalf]
    constructor
    · rintro (hp | ⟨k, hk, hp⟩)
      · split at hp
        · next hlow => exact ⟨0, hbit.1 hlow, by simpa using hp⟩
        · exact absurd hp not_mem_nil
      · refine ⟨k + 1, by rwa [Nat.testBit_shiftRight, Nat.add_comm] at hk, ?_⟩
        rw [hp]
        push_cast
        ring
    · rintro ⟨k, hk, hp⟩
      cases k with
      | zero => exact .inl (by rw [if_pos (hbit.2 hk)]; simpa using hp)
      | succ k =>
        refine .inr ⟨k, by rwa [Nat.testBit_shiftRight, Nat.add_comm], ?_⟩
        rw [hp]
        push_cast
        ring

variable {mask i : ℕ}

theorem mem_bitposFromMask {p lsbPos increment : ℤ} :
    p ∈ bitposFromMask mask lsbPos increment ↔
      ∃ k, mask.testBit k = true ∧ p = lsbPos + k * increment := by
  rw [bitposFromMask, mem_insertionSort, mem_bitposLoop le_rfl]

/-- The positions from one of the tables. -/
theorem mem_bitposFromMask_octet (octet i : ℕ) {lsbPos : ℕ} (hpos : 8 ≤ lsbPos) :
    (∃ p ∈ bitposFromMask (octet &&& 0xff) lsbPos (-1), p.toNat = i) ↔
      i ≤ lsbPos ∧ lsbPos < i + 8 ∧ octet.testBit (lsbPos - i) = true := by
  have hmask : ∀ k, (octet &&& 0xff).testBit k = (octet.testBit k && decide (k < 8)) := by
    intro k
    rw [Nat.testBit_and, show 0xff = 2 ^ 8 - 1 from rfl, Nat.testBit_two_pow_sub_one]
  simp only [mem_bitposFromMask, hmask, Bool.and_eq_true, decide_eq_true_eq]
  constructor
  · rintro ⟨p, ⟨k, ⟨hk, hlt⟩, rfl⟩, rfl⟩
    have hi : ((lsbPos : ℤ) + k * (-1)).toNat = lsbPos - k := by omega
    rw [hi, Nat.sub_sub_self (by omega)]
    exact ⟨by omega, by omega, hk⟩
  · rintro ⟨hle, hlt, hk⟩
    exact ⟨_, ⟨lsbPos - i, ⟨hk, by omega⟩, rfl⟩, by omega⟩

/-- **The two tables select the positions whose bit is set**, the top bit of the 16 being
position 1. -/
theorem mem_attributeIndicesFromMask :
    i ∈ attributeIndicesFromMask mask ↔ 1 ≤ i ∧ i ≤ 16 ∧ mask.testBit (16 - i) = true := by
  have hhigh := mem_bitposFromMask_octet (mask >>> 8) i (le_refl 8)
  have hlow := mem_bitposFromMask_octet mask i (show 8 ≤ 16 by decide)
  simp only [Nat.cast_ofNat] at hhigh hlow
  simp only [attributeIndicesFromMask, mem_map, mem_append, or_and_right, exists_or,
    hhigh, hlow, Nat.testBit_shiftRight]
  constructor
  · rintro (⟨hle, hlt, hbit⟩ | ⟨hle, hlt, hbit⟩)
    · exact ⟨by omega, by omega, by rwa [show 16 - i = 8 + (8 - i) by omega]⟩
    · exact ⟨by omega, by omega, hbit⟩
  · rintro ⟨hone, hle, hbit⟩
    rcases Nat.lt_or_ge 8 i with h | h
    · exact .inr ⟨hle, by omega, hbit⟩
    · exact .inl ⟨h, by omega, by rwa [show 8 + (8 - i) = 16 - i by omega]⟩

/-- Adding a name to a mask sets the bit of its position. -/
theorem testBit_addToMask {c : EntityClass} {mask' : ℕ} {name : String}
    (h : c.addToMask mask name = some mask') (hi : i ≤ 16) :
    mask'.testBit (16 - i) = true ↔ mask.testBit (16 - i) = true ∨
      get c.attributeNameToIndexMap name = some i := by
  rw [EntityClass.addToMask] at h
  split at h
  · cases h
  · next index hget =>
    split at h
    · next hle =>
      cases h
      rw [Nat.testBit_or, Bool.or_eq_true, Nat.one_shiftLeft, Nat.testBit_two_pow,
        decide_eq_true_eq, hget, Option.some_inj]
      exact or_congr_right ⟨fun h => by omega, fun h => by rw [h]⟩
    · cases h

theorem testBit_foldlM_addToMask {c : EntityClass} {i : ℕ} (hi : i ≤ 16) :
    ∀ {names : List String} {mask mask' : ℕ}, names.foldlM c.addToMask mask = some mask' →
      (mask'.testBit (16 - i) = true ↔ mask.testBit (16 - i) = true ∨
        ∃ name ∈ names, get c.attributeNameToIndexMap name = some i)
  | [], mask, mask', h => by
    cases h
    simp
  | name :: names, mask, mask', h => by
    rw [foldlM_cons] at h
    cases hadd : c.addToMask mask name with
    | none =>
      rw [hadd] at h
      cases h
    | some mask₁ =>
      rw [hadd] at h
      rw [testBit_foldlM_addToMask hi h, testBit_addToMask hadd hi, or_assoc]
      simp only [mem_cons, exists_eq_or_imp]

/-- **The mask of some names selects the positions of these names.** -/
theorem mem_attributeIndicesFromMask_maskFor {c : EntityClass} {names : List String}
    (h : c.maskFor names = some mask) :
    i ∈ attributeIndicesFromMask mask ↔ 1 ≤ i ∧ i ≤ 16 ∧
      ∃ name ∈ names, get c.attributeNameToIndexMap name = some i := by
  rw [mem_attributeIndicesFromMask]
  refine and_congr_right fun _ => and_congr_right fun hi => ?_
  rw [testBit_foldlM_addToMask hi h, Nat.zero_testBit]
  simp only [Bool.false_eq_true, false_or]

/-- Two of the first attributes of `OntG`, not in their order. -/
theorem mask_of_ontG : 3 ∈ attributeIndicesFromMask 0xa000 ∧
    1 ∈ attributeIndicesFromMask 0xa000 ∧ 2 ∉ attributeIndicesFromMask 0xa000 := by
  have h : EntityClass.maskFor ⟨[⟨numberField 2 "managed_entity_id" none, []⟩,
      ⟨strFixedLenField "vendor_id" none 4, []⟩, ⟨strFixedLenField "version" none 14, []⟩,
      ⟨strFixedLenField "serial_number" none 8, []⟩]⟩ ["serial_number", "vendor_id"] =
        some 0xa000 := rfl
  simp only [mem_attributeIndicesFromMask_maskFor h]
  decide

/-! ## Attribute values on the wire -/

/-- The attributes at the positions of a mask that the class has. -/
def EntityClass.selected (c : EntityClass) (mask : ℕ) : List EntityClassAttribute :=
  (attributeIndicesFromMask mask).filterMap fun i => c.attributes[i]?

/-- Write the values of attributes, one after the other; no value is a `KeyError`. -/
def addAttributes (val : EntityClassAttribute → Option Value) (as : List EntityClassAttribute)
    (s : Octets) : Option Octets :=
  as.foldlM (fun s a => (val a).map fun v => s ++ a.field.encode v) s

/-- Read the values of attributes, one after the other. -/
def getAttributes : List EntityClassAttribute → Octets → Data → Option (Octets × Data)
  | [], s, data => some (s, data)
  | a :: as, s, data => match a.field.decode s with
    | none => none
    | some (s', v) => getAttributes as s' (insert a.field.name v data)

/-- The values of attributes, set one after the other. -/
def stored (val : EntityClassAttribute → Option Value) (as : List EntityClassAttribute)
    (data : Data) : Data :=
  as.foldl (fun data a => match val a with
    | none => data
    | some v => insert a.field.name v data) data

/-- **Attributes written one after the other are read back one after the other.** -/
theorem getAttributes_addAttributes (val : EntityClassAttribute → Option Value) :
    ∀ (as : List EntityClassAttribute),
      (∀ a ∈ as, ∃ v, val a = some v ∧ a.field.fits v = true) →
      ∃ t, (∀ s, addAttributes val as s = some (s ++ t)) ∧
        ∀ rest data, getAttributes as (t ++ rest) data = some (rest, stored val as data)
  | [], _ => ⟨[], fun s => by rw [append_nil]; rfl, fun _ _ => rfl⟩
  | a :: as, h => by
    obtain ⟨v, hval, hfit⟩ := h a mem_cons_self
    obtain ⟨t, hadd, hget⟩ :=
      getAttributes_addAttributes val as fun b hb => h b (mem_cons_of_mem _ hb)
    refine ⟨a.field.encode v ++ t, fun s => ?_, fun rest data => ?_⟩
    · rw [addAttributes, foldlM_cons, hval, ← append_assoc]
      exact hadd _
    · rw [append_assoc, getAttributes, a.field.decode_encode v _ hfit, stored,
        foldl_cons, hval]
      exact hget rest _

/-- What has been stored under a name is the value of the attribute of that name. -/
theorem get_stored {d : Data} (k : String) :
    ∀ (as : List EntityClassAttribute) (data : Data),
      (∀ a ∈ as, (get d a.field.name).isSome) →
      get (stored (fun a => get d a.field.name) as data) k =
        if k ∈ as.map (·.field.name) then get d k else get data k
  | [], data, _ => by rw [map_nil, if_neg not_mem_nil]; rfl
  | a :: as, data, h => by
    obtain ⟨v, hv⟩ := Option.isSome_iff_exists.1 (h a mem_cons_self)
    have ih := get_stored k as (insert a.field.name v data)
      fun b hb => h b (mem_cons_of_mem _ hb)
    rw [stored, foldl_cons, hv]
    refine ih.trans ?_
    rw [map_cons, get_insert]
    by_cases hk : k = a.field.name
    · rw [if_pos hk, if_pos (mem_cons.2 (.inl hk)), hk, hv, ite_self]
    · simp only [mem_cons, hk, false_or, if_false]

end Voltha.Frames
