import Voltha.Lib.Hex

/-!
# Ids of cores and devices

`id_generation.py`.  A core id is a hexadecimal numeral of four digits; the cores of a cluster get
the ids 0001, 0002, and so on, below the reserved broadcast id ffff.  The ids of devices and of
logical devices have 16 digits, of which the first four are the id of the core that made them.

`create_cluster_logical_device_ids` reads the core id in base 16.  `create_cluster_device_id`
reads it in base 10: from the tenth core on it raises an error, or makes an id of another core.

* `coreIdAt_eq`: the ids that `get_next_core_id` goes through.
* `logicalDeviceId_routes_back`: logical device ids name their core, and are all different.
* `routesBack_iff`: the device ids of a core name it exactly if its id is one of 0001, ..., 0009.
-/

namespace Voltha.Cluster

open List Option
open Hex

/-! ## The functions -/

/-- `BROADCAST_CORE_ID`. -/
def broadcastCoreId : Text := "ffff".toList

/-- `get_next_core_id`; nothing for the `ValueError` of `int`. -/
def getNextCoreId (current : Text) : Option Text :=
  if current = [] then some "0001".toList
  else (int 16 current).map fun n => format 4 (n + 1)

/-- The last characters of a text, `s[-n:]`. -/
def takeEnd (n : ℕ) (s : Text) : Text := s.drop (s.length - n)

/-- `create_cluster_logical_device_ids`: the logical device id and the datapath id. -/
def createClusterLogicalDeviceIds (coreId : Text) (switchId : ℕ) : Option (Text × ℕ) := do
  let switch := format 12 switchId
  let core ← int 16 coreId
  let dpid ← int 16 ("0000".toList ++ takeEnd 12 switch)
  pure (takeEnd 4 (format 4 core) ++ takeEnd 12 switch, dpid)

/-- `is_broadcast_core_id`; nothing for the `AssertionError`. -/
def isBroadcastCoreId (id : Text) : Option Bool :=
  if id.length = 16 then some (id.take 4 = broadcastCoreId) else none

/-- `uuid4().hex`. -/
structure Uuid where
  hex : Text
  length_hex : hex.length = 32

/-- `create_cluster_device_id`, with the number it draws. -/
def createClusterDeviceId (uuid : Uuid) (coreId : Text) : Option Text :=
  (int 10 coreId).map fun n => format 4 n ++ uuid.hex.take 12

/-- `get_core_id_from_device_id`; nothing for the `AssertionError`. -/
def getCoreIdFromDeviceId (deviceId : Text) : Option Text :=
  if deviceId.length = 16 then some (deviceId.take 4) else none

/-- `get_core_id_from_logical_device_id`. -/
def getCoreIdFromLogicalDeviceId (logicalDeviceId : Text) : Option Text :=
  if logicalDeviceId.length = 16 then some (logicalDeviceId.take 4) else none

/-! ## The sequence of core ids -/

/-- The ids that `get_next_core_id` goes through from the empty one. -/
def coreIdAt : ℕ → Option Text
  | 0 => some []
  | n + 1 => (coreIdAt n).bind getNextCoreId

theorem getNextCoreId_format (width n : ℕ) :
    getNextCoreId (format width n) = some (format 4 (n + 1)) := by
  rw [getNextCoreId, if_neg (format_ne_nil width n), int_format, map_some]

/-- The id number `n` is the numeral of `n`. -/
theorem coreIdAt_eq (n : ℕ) : coreIdAt (n + 1) = some (format 4 (n + 1)) := by
  induction n with
  | zero => rfl
  | succ n ih => rw [coreIdAt, ih, bind_some, getNextCoreId_format]

/-- An id of the sequence before the broadcast id. -/
def IsCoreId (c : Text) : Prop := ∃ n, 1 ≤ n ∧ n < 0xffff ∧ coreIdAt n = some c

theorem isCoreId_iff {c : Text} : IsCoreId c ↔ ∃ n, 1 ≤ n ∧ n < 0xffff ∧ c = format 4 n := by
  refine exists_congr fun n => and_congr_right fun hn => and_congr_right fun _ => ?_
  obtain ⟨m, rfl⟩ : ∃ m, n = m + 1 := ⟨n - 1, by omega⟩
  rw [coreIdAt_eq, some_inj, eq_comm]

/-! ## Logical device ids -/

variable {n : ℕ}

theorem takeEnd_of_length {s : Text} (h : s.length = n) : takeEnd n s = s := by
  rw [takeEnd, h, Nat.sub_self, drop_zero]

/-- The logical device id of a switch, and its datapath id, which is the switch id. -/
theorem createClusterLogicalDeviceIds_eq {switch : ℕ} (hn : n < 0xffff) (hs : switch < 2 ^ 48) :
    createClusterLogicalDeviceIds (format 4 n) switch =
      some (format 4 n ++ format 12 switch, switch) := by
  have hlen₄ : (format 4 n).length = 4 := length_format (by decide) (by omega)
  have hlen₁₂ : (format 12 switch).length = 12 := length_format (by decide) (by omega)
  have hdpid : int 16 ("0000".toList ++ format 12 switch) = some switch :=
    int_zeros_append 4 12 switch
  simp only [createClusterLogicalDeviceIds, int_format, takeEnd_of_length hlen₄,
    takeEnd_of_length hlen₁₂, hdpid, Option.bind_eq_bind, Option.bind_some, Option.pure_def]

/-- What is to hold of the logical device ids that a core makes: 16 digits, the core id read off
them, and none of them made for another core or switch. -/
def LogicalIdsRouteBack (c : Text) : Prop :=
  ∀ switch, switch < 2 ^ 48 → ∃ ld dpid, createClusterLogicalDeviceIds c switch = some (ld, dpid) ∧
    ld.length = 16 ∧ (∀ ch ∈ ld, (digitValue ch).isSome) ∧
    getCoreIdFromLogicalDeviceId ld = some c ∧
    ∀ c' switch', IsCoreId c' → switch' < 2 ^ 48 → (c', switch') ≠ (c, switch) →
      (createClusterLogicalDeviceIds c' switch').map Prod.fst ≠ some ld

/-- **Logical device ids name the core that made them, and are all different.** -/
theorem logicalDeviceId_routes_back {c : Text} (hc : IsCoreId c) : LogicalIdsRouteBack c := by
  obtain ⟨n, -, hn, rfl⟩ := isCoreId_iff.1 hc
  intro switch hs
  have hlen₄ : (format 4 n).length = 4 := length_format (by decide) (by omega)
  have hlen₁₂ : (format 12 switch).length = 12 := length_format (by decide) (by omega)
  have hlen : (format 4 n ++ format 12 switch).length = 16 := by
    rw [length_append, hlen₄, hlen₁₂]
  refine ⟨_, _, createClusterLogicalDeviceIds_eq hn hs, hlen, ?_, ?_, ?_⟩
  · intro ch hch
    rcases mem_append.1 hch with hch | hch
    · exact isSome_digitValue_of_readFrom (readFrom_format 4 n) ch hch
    · exact isSome_digitValue_of_readFrom (readFrom_format 12 switch) ch hch
  · rw [getCoreIdFromLogicalDeviceId, if_pos hlen, take_left' hlen₄]
  · intro c' switch' hc' hs' hne heq
    obtain ⟨n', -, hn', rfl⟩ := isCoreId_iff.1 hc'
    rw [createClusterLogicalDeviceIds_eq hn' hs', map_some, some_inj] at heq
    have hlen₄' : (format 4 n').length = (format 4 n).length := by
      rw [hlen₄]
      exact length_format (by decide) (by omega)
    obtain ⟨hcore, hswitch⟩ := append_inj heq hlen₄'
    exact hne (by rw [hcore, format_injective 12 hswitch])

/-! ## Device ids -/

/-- What is to hold of the ids that a core makes. -/
structure RoutesBack (c : Text) : Prop where
  device : ∀ uuid, (createClusterDeviceId uuid c).bind getCoreIdFromDeviceId = some c
  logical : LogicalIdsRouteBack c

theorem getCoreIdFromDeviceId_eq (uuid : Uuid) (h : n < 0x10000) :
    getCoreIdFromDeviceId (format 4 n ++ uuid.hex.take 12) = some (format 4 n) := by
  have hlen₄ : (format 4 n).length = 4 := length_format (by decide) (by omega)
  have hlen : (format 4 n ++ uuid.hex.take 12).length = 16 := by
    rw [length_append, hlen₄, length_take, uuid.length_hex]
    rfl
  rw [getCoreIdFromDeviceId, if_pos hlen, take_left' hlen₄]

/-- **The ids of a core route back to it exactly if its id has one significant digit, and that
digit is decimal.** -/
theorem routesBack_iff {c : Text} (hc : IsCoreId c) :
    RoutesBack c ↔ ∃ n, n < 10 ∧ int 16 c = some n := by
  obtain ⟨n, hone, hn, rfl⟩ := isCoreId_iff.1 hc
  rw [int_format]
  constructor
  · intro h
    have hdevice := h.device ⟨List.replicate 32 '0', length_replicate⟩
    rw [createClusterDeviceId] at hdevice
    cases hread : int 10 (format 4 n) with
    | none =>
      rw [hread] at hdevice
      cases hdevice
    | some v =>
      have hle := le_of_int_ten_format hread
      rw [hread, map_some, bind_some, getCoreIdFromDeviceId_eq _ (by omega),
        some_inj] at hdevice
      have hv : v = n := format_injective 4 hdevice
      exact ⟨n, int_ten_format.1 (hv ▸ hread), rfl⟩
  · rintro ⟨m, hm, heq⟩
    obtain rfl := some_inj.1 heq
    refine ⟨fun uuid => ?_, logicalDeviceId_routes_back hc⟩
    rw [createClusterDeviceId, int_ten_format.2 hm, map_some, bind_some,
      getCoreIdFromDeviceId_eq uuid (by omega)]

/-- The ids of the ninth core route back to it. -/
theorem routesBack_0009 : IsCoreId "0009".toList ∧ RoutesBack "0009".toList :=
  have hc : IsCoreId "0009".toList := ⟨9, by decide, by decide, by decide⟩
  ⟨hc, (routesBack_iff hc).2 ⟨9, by decide, by decide⟩⟩

/-- The device ids of the 16th core are ids of the tenth one, and the tenth one cannot make any. -/
theorem device_ids_of_other_core :
    let uuid : Uuid := ⟨List.replicate 32 '7', rfl⟩
    coreIdAt 16 = some "0010".toList ∧
      (createClusterDeviceId uuid "0010".toList).bind getCoreIdFromDeviceId =
        some "000a".toList ∧
      coreIdAt 10 = some "000a".toList ∧ createClusterDeviceId uuid "000a".toList = none := by
  decide

end Voltha.Cluster
