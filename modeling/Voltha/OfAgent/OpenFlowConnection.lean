import Voltha.Common.MessageQueue
import Voltha.Lib.Act

/-!
# The OpenFlow connection

`OpenFlowConnection.dataReceived` gets the bytes of a connection in pieces.  It keeps the bytes of
an incomplete message in `read_buffer`, and puts every message that is complete into a queue.  The
length of a message stands in its header, the first eight bytes.

The module of a protocol version unpacks the body of a message, which is a parameter here.

* `contained`: the messages that are complete in the first bytes of a stream.
* `receiveLoop_contained`: the loop over the buffer takes exactly these.
* `stream_reassembled`: **after every piece, the messages that are complete so far have been
  queued, once each and in order, and the buffer is the rest**.
-/

namespace Voltha.OfAgent

open List Act
open Common

/-- An octet string. -/
abbrev Bytes := List UInt8

/-- The exceptions of the connection and of `loxi`; `hangs` is a loop that does not end. -/
inductive WireError where
  | assertionError
  | protocolError (text : String)
  | valueError
  | attributeError (text : String)
  | hangs
  deriving DecidableEq, Repr

/-! ## Parsing -/

/-- The header of a message. -/
structure Header where
  version : ℕ
  type : ℕ
  len : ℕ
  xid : ℕ
  deriving DecidableEq, Repr

/-- `parse_header`: `struct.unpack_from("!BBHL", buf)` -/
def parseHeader : Bytes → Except WireError Header
  | v :: t :: l₁ :: l₀ :: x₃ :: x₂ :: x₁ :: x₀ :: _ =>
    .ok
      { version := v.toNat
        type := t.toNat
        len := l₁.toNat * 256 + l₀.toNat
        xid := ((x₃.toNat * 256 + x₂.toNat) * 256 + x₁.toNat) * 256 + x₀.toNat }
  | _ => .error (.protocolError "too short to be an OpenFlow message")

/-- `message.unpack` of the modules, by their wire version. -/
structure Loxi where
  Msg : Type
  unpack : ℕ → Bytes → Except WireError (Option Msg)

/-- `loxi.protocol`; a module is given by its wire version. -/
def protocol (ver : ℕ) : Except WireError ℕ :=
  if 1 ≤ ver ∧ ver ≤ 5 then .ok ver else .error .valueError

/-- `OFPT_HELLO` -/
def ofptHello : ℕ := 0

/-- `parse_message` of the module `ofp` -/
def Loxi.parseMessage (L : Loxi) (ofp : ℕ) (buf : Bytes) : Except WireError (Option L.Msg) := do
  let header ← parseHeader buf
  if header.version ≠ ofp ∧ header.type ≠ ofptHello then
    throw (.protocolError
      s!"wrong OpenFlow version (expected {ofp}, got {header.version})")
  if buf.length ≠ header.len then
    throw (.protocolError "incorrect message size")
  L.unpack ofp buf

/-! ## The connection -/

/-- `OpenFlowConnection`: what it has received. -/
structure OpenFlowConnection (μ : Type) where
  readBuffer : Option Bytes := none
  rx : MessageQueue μ := {}

/-- The loop of `dataReceived` over the buffer; it returns the offset.  Every round takes a message
of `_len` bytes, so that more rounds than the buffer has bytes only come from a length of 0. -/
def receiveLoop (L : Loxi) (buf : Bytes) :
    ℕ → ℕ → Act (OpenFlowConnection L.Msg) WireError ℕ
  | 0, _ => raise .hangs
  | rounds + 1, offset =>
    if offset < buf.length then
      if offset + 8 > buf.length then
        pure offset -- not enough data for the OpenFlow header
      else do
        let header ← ofExcept (parseHeader (buf.drop offset))
        let ofp ← ofExcept (protocol header.version)
        if offset + header.len > buf.length then
          pure offset -- not enough data to cover whole message
        else do
          let rawmsg := (buf.drop offset).take header.len
          match ← ofExcept (L.parseMessage ofp rawmsg) with
          | none => raise (.attributeError "'NoneType' object has no attribute 'xid'")
          | some msg =>
            modify fun c => { c with rx := c.rx.put msg }
            receiveLoop L buf rounds (offset + header.len)
    else pure offset

/-- `dataReceived` -/
def dataReceived (L : Loxi) (data : Bytes) : Act (OpenFlowConnection L.Msg) WireError Unit := do
  if data = [] then raise .assertionError
  else
    -- a buffer is never empty, so that `if buf` asks whether there is one
    let buf := match (← read).readBuffer with
      | some buf => if buf = [] then data else buf ++ data
      | none => data
    let offset ← receiveLoop L buf (buf.length + 1) 0
    modify fun c =>
      { c with readBuffer := if offset = buf.length then none else some (buf.drop offset) }

/-- The pieces of a stream, one after the other. -/
def receiveAll (L : Loxi) (pieces : List Bytes) : Act (OpenFlowConnection L.Msg) WireError Unit :=
  pieces.foldlM (fun _ data => dataReceived L data) ()

/-! ## Streams of messages -/

/-- A message with its bytes: the length field is the size, and `loxi` parses it. -/
structure WellFormed (L : Loxi) (raw : Bytes) (msg : L.Msg) : Prop where
  size : 8 ≤ raw.length
  parsed : ∃ header ofp, parseHeader raw = .ok header ∧ header.len = raw.length ∧
    protocol header.version = .ok ofp ∧ L.parseMessage ofp raw = .ok (some msg)

/-- The messages that are complete in the first `n` bytes of the stream of the messages. -/
def contained {μ : Type} : List (Bytes × μ) → ℕ → List (Bytes × μ)
  | [], _ => []
  | m :: msgs, n => if m.1.length ≤ n then m :: contained msgs (n - m.1.length) else []

/-- The bytes of messages. -/
def wire {μ : Type} (msgs : List (Bytes × μ)) : Bytes := msgs.flatMap Prod.fst

/-- The queue after messages were put into it one after the other. -/
def queueAll {μ : Type} (msgs : List (Bytes × μ)) (rx : MessageQueue μ) : MessageQueue μ :=
  (msgs.map Prod.snd).foldl MessageQueue.put rx

section Streams

variable {μ : Type}

theorem wire_cons (m : Bytes × μ) (msgs : List (Bytes × μ)) :
    wire (m :: msgs) = m.1 ++ wire msgs := flatMap_cons ..

theorem wire_append (msgs msgs' : List (Bytes × μ)) :
    wire (msgs ++ msgs') = wire msgs ++ wire msgs' := flatMap_append ..

/-- Messages that are complete stay so, and those behind them are looked for in the bytes that
follow. -/
theorem contained_append (done rest : List (Bytes × μ)) (n : ℕ) :
    contained (done ++ rest) ((wire done).length + n) = done ++ contained rest n := by
  induction done with
  | nil => rw [nil_append, nil_append, wire, flatMap_nil, length_nil,
      Nat.zero_add]
  | cons m done ih =>
    rw [cons_append, contained, wire_cons, length_append,
      if_pos (Nat.le_trans (Nat.le_add_right ..) (Nat.le_add_right ..)), Nat.add_assoc,
      Nat.add_sub_cancel_left, ih, cons_append]

/-- The messages that are complete come first, and the next one is not complete in the bytes that
follow them. -/
theorem exists_contained (msgs : List (Bytes × μ)) (n : ℕ) :
    ∃ rest, msgs = contained msgs n ++ rest ∧ (wire (contained msgs n)).length ≤ n ∧
      contained rest (n - (wire (contained msgs n)).length) = [] := by
  induction msgs generalizing n with
  | nil => exact ⟨[], rfl, Nat.zero_le n, rfl⟩
  | cons m msgs ih =>
    by_cases hm : m.1.length ≤ n
    · obtain ⟨rest, hrest, hle, hnone⟩ := ih (n - m.1.length)
      have hlen : (wire (contained (m :: msgs) n)).length =
          m.1.length + (wire (contained msgs (n - m.1.length))).length := by
        rw [contained, if_pos hm, wire_cons, length_append]
      refine ⟨rest, ?_, by omega, ?_⟩
      · rw [contained, if_pos hm, cons_append, ← hrest]
      · rw [hlen, ← Nat.sub_sub]
        exact hnone
    · have hnil : contained (m :: msgs) n = [] := by rw [contained, if_neg hm]
      refine ⟨m :: msgs, ?_, ?_, ?_⟩
      · rw [hnil, nil_append]
      · rw [hnil]
        exact Nat.zero_le n
      · rw [hnil]
        exact hnil

end Streams

/-! ## The loop -/

/-- The header is in the first eight bytes. -/
theorem parseHeader_congr {a b : Bytes} (h : a <+: b) (hlen : 8 ≤ a.length) :
    parseHeader a = parseHeader b := by
  obtain ⟨c, rfl⟩ := h
  match a, hlen with
  | _ :: _ :: _ :: _ :: _ :: _ :: _ :: _ :: _, _ => rfl

section Loop

variable {L : Loxi}

/-- A message that is complete at the offset. -/
theorem receiveLoop_message {buf raw : Bytes} {msg : L.Msg} (hwf : WellFormed L raw msg)
    {offset : ℕ} (hraw : raw <+: buf.drop offset) (rounds : ℕ) (c : OpenFlowConnection L.Msg) :
    receiveLoop L buf (rounds + 1) offset c =
      receiveLoop L buf rounds (offset + raw.length) { c with rx := c.rx.put msg } := by
  obtain ⟨header, ofp, hheader, hlen, hofp, hmsg⟩ := hwf.parsed
  have hsize := hwf.size
  have hle := hraw.length_le
  rw [length_drop] at hle
  have htake : (buf.drop offset).take header.len = raw := by
    rw [hlen]
    exact (prefix_iff_eq_take.mp hraw).symm
  rw [receiveLoop, if_pos (by omega), if_neg (by omega), ← parseHeader_congr hraw hsize, hheader,
    ofExcept_ok_bind, hofp, ofExcept_ok_bind, if_neg (by omega), htake, hmsg, ofExcept_ok_bind,
    hlen]
  rfl

/-- A message that is not complete at the offset. -/
theorem receiveLoop_rest {buf raw : Bytes} {msg : L.Msg} (hwf : WellFormed L raw msg) {offset : ℕ}
    (hraw : buf.drop offset <+: raw) (hlt : buf.length < offset + raw.length) (rounds : ℕ)
    (c : OpenFlowConnection L.Msg) : receiveLoop L buf (rounds + 1) offset c = (.ok offset, c) := by
  obtain ⟨header, ofp, hheader, hlen, hofp, -⟩ := hwf.parsed
  rw [receiveLoop]
  split
  · split
    · rfl
    · next hlong =>
      rw [parseHeader_congr hraw (by rw [length_drop]; omega), hheader, ofExcept_ok_bind, hofp,
        ofExcept_ok_bind, if_pos (by omega)]
      rfl
  · rfl

/-- **The loop takes the messages that are complete in the buffer.** -/
theorem receiveLoop_contained (buf : Bytes) (msgs : List (Bytes × L.Msg)) :
    ∀ (rounds offset : ℕ) (c : OpenFlowConnection L.Msg), (∀ m ∈ msgs, WellFormed L m.1 m.2) →
      offset ≤ buf.length → buf.drop offset <+: wire msgs → buf.length - offset < rounds →
      receiveLoop L buf rounds offset c =
        (.ok (offset + (wire (contained msgs (buf.length - offset))).length),
          { c with rx := queueAll (contained msgs (buf.length - offset)) c.rx }) := by
  induction msgs with
  | nil =>
    intro rounds offset c _ hle hpre hrounds
    have hnil := prefix_nil.mp hpre
    rw [drop_eq_nil_iff] at hnil
    obtain ⟨rounds, rfl⟩ := Nat.exists_eq_add_of_lt hrounds
    rw [receiveLoop, if_neg (by omega)]
    rfl
  | cons m msgs ih =>
    intro rounds offset c hwf hle hpre hrounds
    have hm := hwf m mem_cons_self
    have hlen : (buf.drop offset).length = buf.length - offset := length_drop
    obtain ⟨rounds, rfl⟩ : ∃ r, rounds = r + 1 := ⟨rounds - 1, by omega⟩
    rw [wire_cons] at hpre
    by_cases hlt : buf.length < offset + m.1.length
    · -- the message is still to come in part
      have hraw : buf.drop offset <+: m.1 :=
        prefix_of_prefix_length_le hpre (prefix_append ..) (by omega)
      rw [receiveLoop_rest hm hraw hlt, contained, if_neg (by omega)]
      rfl
    · have hraw : m.1 <+: buf.drop offset :=
        prefix_of_prefix_length_le (prefix_append ..) hpre (by omega)
      obtain ⟨tail, htail⟩ := hraw
      have hdrop : buf.drop (offset + m.1.length) = tail := by
        rw [← drop_drop, ← htail, drop_left]
      have hsub : buf.length - (offset + m.1.length) = buf.length - offset - m.1.length := by omega
      have hsize := hm.size
      rw [receiveLoop_message hm ⟨tail, htail⟩,
        ih rounds (offset + m.1.length) _ (fun m' hm' => hwf m' (mem_cons_of_mem _ hm'))
          (by omega) ?_ (by omega), contained, if_pos (by omega), hsub, wire_cons,
        length_append, Nat.add_assoc]
      · rfl
      rw [hdrop]
      rw [← htail] at hpre
      exact prefix_append_right_inj _ |>.mp hpre

end Loop

/-! ## Pieces -/

/-- What is left of the bytes that were received. -/
def remaining {μ : Type} (msgs : List (Bytes × μ)) (bytes : Bytes) : Option Bytes :=
  let tail := bytes.drop (wire (contained msgs bytes.length)).length
  if tail = [] then none else some tail

/-- The connection after the first bytes of the stream. -/
def afterBytes {μ : Type} (msgs : List (Bytes × μ)) (rx : MessageQueue μ) (bytes : Bytes) :
    OpenFlowConnection μ where
  readBuffer := remaining msgs bytes
  rx := queueAll (contained msgs bytes.length) rx

section Pieces

variable {L : Loxi} {msgs : List (Bytes × L.Msg)}

section

variable (hwf : ∀ m ∈ msgs, WellFormed L m.1 m.2) (rx : MessageQueue L.Msg)
include hwf rx

/-- The next piece of the stream. -/
theorem dataReceived_afterBytes {bytes data : Bytes} (hdata : data ≠ [])
    (hstream : bytes ++ data <+: wire msgs) :
    dataReceived L data (afterBytes msgs rx bytes) =
      (.ok (), afterBytes msgs rx (bytes ++ data)) := by
  obtain ⟨rest, hrest, hle, hnone⟩ := exists_contained msgs bytes.length
  generalize hdone : contained msgs bytes.length = done at hrest hle hnone
  -- the buffer is what follows the messages that are complete
  obtain ⟨tail, hbytes⟩ : ∃ tail, bytes = wire done ++ tail := by
    rw [hrest, wire_append] at hstream
    have hpre : wire done <+: bytes := prefix_of_prefix_length_le (prefix_append ..)
      ((prefix_append bytes data).trans hstream) hle
    exact ⟨_, hpre.choose_spec.symm⟩
  have hnow : contained msgs (bytes ++ data).length =
      done ++ contained rest (tail ++ data).length := by
    rw [hrest, hbytes, append_assoc, length_append, contained_append]
  have htail : bytes.drop (wire done).length = tail := by rw [hbytes, drop_left]
  have hbuf : (match (afterBytes msgs rx bytes).readBuffer with
      | some buf => if buf = [] then data else buf ++ data
      | none => data) = tail ++ data := by
    unfold afterBytes remaining
    rw [hdone, htail]
    by_cases hnil : tail = []
    · rw [if_pos hnil, hnil, nil_append]
    · rw [if_neg hnil]
      exact if_neg hnil
  have hloop := receiveLoop_contained (L := L) (tail ++ data) rest
    ((tail ++ data).length + 1) 0 (afterBytes msgs rx bytes)
    (fun m hm => hwf m (hrest ▸ mem_append_right _ hm)) (Nat.zero_le _)
    (by
      rw [hrest, wire_append, hbytes, append_assoc] at hstream
      exact (prefix_append_right_inj _).mp hstream)
    (by omega)
  rw [Nat.sub_zero, Nat.zero_add] at hloop
  unfold dataReceived
  rw [if_neg hdata, read_bind, hbuf, bind_of_ok hloop]
  have hdrop : (bytes ++ data).drop (wire (done ++ contained rest (tail ++ data).length)).length =
      (tail ++ data).drop (wire (contained rest (tail ++ data).length)).length := by
    rw [wire_append, length_append, ← drop_drop, hbytes, append_assoc,
      drop_left]
  have hlast : (wire (contained rest (tail ++ data).length)).length ≤ (tail ++ data).length :=
    (exists_contained rest (tail ++ data).length).choose_spec.2.1
  refine congrArg (Prod.mk _) ?_
  unfold afterBytes remaining queueAll
  rw [hnow, hdone, hdrop, map_append, foldl_append]
  refine congrArg (OpenFlowConnection.mk · _) ?_
  by_cases hall : (wire (contained rest (tail ++ data).length)).length = (tail ++ data).length
  · rw [if_pos hall, if_pos (drop_eq_nil_iff.mpr hall.ge)]
  · rw [if_neg hall, if_neg fun hnil => hall (Nat.le_antisymm hlast (drop_eq_nil_iff.mp hnil))]

/-- All pieces. -/
theorem receiveAll_afterBytes {pieces : List Bytes} :
    ∀ {bytes : Bytes}, [] ∉ pieces → bytes ++ pieces.flatten <+: wire msgs →
      receiveAll L pieces (afterBytes msgs rx bytes) =
        (.ok (), afterBytes msgs rx (bytes ++ pieces.flatten)) := by
  induction pieces with
  | nil =>
    intro bytes _ _
    rw [flatten_nil, append_nil]
    rfl
  | cons data pieces ih =>
    intro bytes hpieces hstream
    rw [mem_cons, not_or] at hpieces
    rw [flatten_cons, ← append_assoc] at hstream ⊢
    unfold receiveAll at ih ⊢
    rw [foldlM_cons, bind_of_ok (dataReceived_afterBytes hwf rx (Ne.symm hpieces.1)
      ((prefix_append ..).trans hstream))]
    exact ih hpieces.2 hstream

end

end Pieces

/-- **The byte stream is reassembled exactly**: after every piece the messages that are complete in
the bytes so far were put into the queue, once each and in order, and the buffer is the rest of the
bytes.  With nobody waiting they are in the queue. -/
theorem stream_reassembled (L : Loxi) (msgs : List (Bytes × L.Msg))
    (hwf : ∀ m ∈ msgs, WellFormed L m.1 m.2) (rx : MessageQueue L.Msg) (pieces : List Bytes)
    (hpieces : [] ∉ pieces) (hstream : pieces.flatten <+: wire msgs) (received : List Bytes)
    (hreceived : received <+: pieces) :
    ∃ c, receiveAll L received { rx := rx } = (.ok (), c) ∧
      c.readBuffer = remaining msgs received.flatten ∧
      c.rx = queueAll (contained msgs received.flatten.length) rx ∧
      (rx.waiting = [] →
        c.rx.queue = rx.queue ++ (contained msgs received.flatten.length).map Prod.snd) := by
  have hnil : contained msgs 0 = [] := by
    cases msgs with
    | nil => rfl
    | cons m msgs =>
      have hsize := (hwf m mem_cons_self).size
      rw [contained, if_neg (by omega)]
  have hstart : afterBytes msgs rx [] = { rx := rx } := by
    unfold afterBytes remaining
    rw [length_nil, hnil]
    rfl
  have hrun : receiveAll L received (afterBytes msgs rx []) = _ := receiveAll_afterBytes hwf rx
    (fun hmem => hpieces (hreceived.subset hmem)) (by
      obtain ⟨later, rfl⟩ := hreceived
      rw [flatten_append] at hstream
      exact (prefix_append ..).trans hstream)
  rw [hstart, nil_append] at hrun
  refine ⟨_, hrun, rfl, rfl, fun hwait => ?_⟩
  exact congrArg MessageQueue.queue (MessageQueue.foldl_put hwait _)

namespace Sample

/-- A library that unpacks nothing. -/
def loxi : Loxi where
  Msg := Bytes
  unpack _ buf := .ok (some buf)

instance : DecidableEq loxi.Msg := inferInstanceAs (DecidableEq Bytes)

/-- A hello. -/
def hello : Bytes := [5, 0, 0, 8, 0, 0, 0, 1]

/-- An echo request with two bytes of data. -/
def echo : Bytes := [5, 2, 0, 10, 0, 0, 0, 2, 7, 7]

/-- The first bytes of the two messages, cut inside their headers. -/
def pieces : List Bytes := [[5, 0, 0], [8, 0, 0, 0, 1, 5, 2, 0], [10, 0, 0, 0, 2, 7]]

theorem wellFormed : ∀ m ∈ [(hello, hello), (echo, echo)], WellFormed loxi m.1 m.2 := by
  intro m hm
  rcases mem_pair.mp hm with rfl | rfl
  · exact ⟨by decide, ⟨5, 0, 8, 1⟩, 5, by decide, rfl, rfl, by decide +kernel⟩
  · exact ⟨by decide, ⟨5, 2, 10, 2⟩, 5, by decide, rfl, rfl, by decide +kernel⟩

end Sample

open Sample

theorem stream_reassembled_sample : ∃ c, receiveAll loxi pieces {} = (.ok (), c) ∧
    c.readBuffer = some [5, 2, 0, 10, 0, 0, 0, 2, 7] ∧ c.rx.queue = [hello] := by
  obtain ⟨c, hrun, hbuffer, -, hqueue⟩ := stream_reassembled loxi
    [(hello, hello), (echo, echo)] wellFormed {} pieces
    (by decide) ⟨[7], rfl⟩ pieces prefix_rfl
  exact ⟨c, hrun, hbuffer, hqueue rfl⟩

end Voltha.OfAgent
