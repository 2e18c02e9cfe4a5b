import Voltha.Lib.OrderedDict
import Voltha.Lib.Run

/-!
# The OMCI communication channel

`OMCI_CC` sends requests to an ONU and matches the responses by their transaction ids, which are
counted up to `0xFFFF` and then from 1 again.  A response takes its request out of `_requests` at
once, but the deferred of the request is fired later by the reactor.  In between the timer of the
request may go off; `_request_failure` then takes out of `_requests` what it finds there under the
id, and that is another request, if the id was assigned again in the meantime.

`send` also calls `flush`, which has a `yield` in its body: the call makes a generator that is never
run, and nothing is flushed.

* `Inv`: what holds in all runs of the ids, the deferreds and the entries of `_requests`, and that
  all outstanding requests are in `_requests` as long as the timers are safe.
* `requests_match_iff`: requests and responses match in all states of a run exactly if no timer goes
  off for a request whose id another entry of `_requests` has.
-/

namespace Voltha.Omci

open List hiding get
open OrderedDict

/-- `MAX_OMCI_TX_ID`. -/
def maxOmciTxId : ℕ := 0xFFFF

/-- A received frame: its transaction id and its content. -/
structure RxFrame where
  tid : ℕ
  content : ℕ
  deriving DecidableEq

/-- What decoding a received message gives. -/
inductive Decoded where
  | frame (f : RxFrame)
  /-- a frame for an unknown managed entity that `_decode_unknown_me` can read -/
  | unknownMe (f : RxFrame)
  | failed
  deriving DecidableEq

/-- A request that was sent, with the time of its sending.  Requests are numbered in this order. -/
structure Request where
  tid : ℕ
  /-- whether a timeout was set -/
  timer : Bool
  sentAt : ℕ
  deriving DecidableEq

/-- How the deferred of a request has fired: with a frame that arrived at some time, or with a
failure. -/
inductive Fired where
  | frame (f : RxFrame) (arrivedAt : ℕ)
  | timeout
  deriving DecidableEq

/-- What the reactor was asked to call later. -/
inductive LaterCall where
  | callback (request : ℕ) (f : RxFrame) (arrivedAt : ℕ)
  | publishRxFrame (request : ℕ) (f : RxFrame)
  | publishConnectivityEvent (connected : Bool)
  deriving DecidableEq

/-- The statistics that the handlers keep. -/
structure Stats where
  txFrames : ℕ
  rxFrames : ℕ
  rxUnknownTid : ℕ
  rxOnuFrames : ℕ
  rxUnknownMe : ℕ
  rxTimeouts : ℕ
  txErrors : ℕ
  consecutiveErrors : ℕ
  deriving DecidableEq

/-- An enabled `OMCI_CC`, the deferreds of its requests and the calls that wait in the reactor. -/
structure OmciCc where
  txTid : ℕ
  /-- `_requests`: the number of the request with an id -/
  requests : List (ℕ × ℕ)
  stats : Stats
  sends : List Request
  /-- the requests to which a response was received -/
  answered : List ℕ
  /-- the deferreds that have fired, in their order -/
  firings : List (ℕ × Fired)
  later : List LaterCall
  clock : ℕ
  deriving DecidableEq

namespace OmciCc

def init : OmciCc := ⟨1, [], ⟨0, 0, 0, 0, 0, 0, 0, 0⟩, [], [], [], [], 0⟩

/-- `_requests.pop`. -/
def popRequest (c : OmciCc) (tid : ℕ) : OmciCc :=
  { c with requests := c.requests.filter (·.1 ≠ tid) }

/-- `_get_tx_tid`. -/
def getTxTid (c : OmciCc) : ℕ × OmciCc :=
  (c.txTid, { c with txTid := if c.txTid + 1 > maxOmciTxId then 1 else c.txTid + 1 })

/-- One more error in a row; the first one is published. -/
def countError (c : OmciCc) : OmciCc :=
  { c with
    stats := { c.stats with consecutiveErrors := c.stats.consecutiveErrors + 1 }
    later := if c.stats.consecutiveErrors = 0 then c.later ++ [.publishConnectivityEvent false]
      else c.later }

/-- A transmission that has failed. -/
def sendFailed (c : OmciCc) : OmciCc :=
  { c with stats := { c.stats with txErrors := c.stats.txErrors + 1 } }.countError

/-- A request that was transmitted. -/
def sent (c : OmciCc) (tid : ℕ) (timer : Bool) : OmciCc :=
  { c with
    requests := insert tid c.sends.length c.requests
    sends := c.sends ++ [⟨tid, timer, c.clock⟩]
    stats := { c.stats with txFrames := c.stats.txFrames + 1 } }

/-- `send` of a frame without a transaction id; `transmitted` says whether `send_proxied_message`
succeeds. -/
def send (c : OmciCc) (timer transmitted : Bool) : OmciCc :=
  let (tid, c) := c.getTxTid
  if (get c.requests tid).isSome then c.sendFailed
  else if transmitted then c.sent tid timer
  else c.sendFailed

/-- A response to a request: its deferred is called later. -/
def answer (c : OmciCc) (f : RxFrame) (r : ℕ) : OmciCc :=
  { c.popRequest f.tid with
    answered := c.answered ++ [r]
    later := c.later ++ [.callback r f c.clock, .publishRxFrame r f] }

/-- The matching of a frame in `receive_message`. -/
def matchFrame (c : OmciCc) (f : RxFrame) : OmciCc :=
  match get c.requests f.tid with
  | none => { c with stats := { c.stats with rxUnknownTid := c.stats.rxUnknownTid + 1 } }
  | some r => c.answer f r

/-- A good frame ends a row of errors. -/
def countFrame (c : OmciCc) : OmciCc :=
  { c with
    stats := { c.stats with rxFrames := c.stats.rxFrames + 1, consecutiveErrors := 0 }
    later := if c.stats.rxFrames = 0 ∨ c.stats.consecutiveErrors ≠ 0 then
      c.later ++ [.publishConnectivityEvent true] else c.later }

/-- `receive_message`.  Id 0 is for the frames that an ONU sends on its own. -/
def receiveMessage (c : OmciCc) : Decoded → OmciCc
  | .frame f =>
    if f.tid = 0 then { c with stats := { c.stats with rxOnuFrames := c.stats.rxOnuFrames + 1 } }
    else c.countFrame.matchFrame f
  | .unknownMe f =>
    { c with stats := { c.stats with rxUnknownMe := c.stats.rxUnknownMe + 1 } }.matchFrame f
  | .failed => c

/-- The deferred of the request has fired. -/
def Called (c : OmciCc) (r : ℕ) : Prop := r ∈ c.firings.map Prod.fst

instance (c : OmciCc) (r : ℕ) : Decidable (c.Called r) :=
  inferInstanceAs (Decidable (r ∈ c.firings.map Prod.fst))

/-- A deferred fires. -/
def fire (c : OmciCc) (r : ℕ) (v : Fired) : OmciCc :=
  { c with firings := c.firings ++ [(r, v)] }

/-- `_request_failure` for a timeout. -/
def requestFailure (c : OmciCc) (tid : ℕ) : OmciCc :=
  let c := c.popRequest tid
  { c with stats := { c.stats with rxTimeouts := c.stats.rxTimeouts + 1 } }.countError

/-- The timer of a request goes off and cancels the deferred.  It is not active any more when the
deferred has fired. -/
def timeout (c : OmciCc) (r : ℕ) : OmciCc :=
  match c.sends[r]? with
  | none => c
  | some q =>
    if q.timer = true ∧ ¬ c.Called r then
      (c.fire r .timeout).requestFailure q.tid
    else c

/-- The reactor makes one of the calls.  A deferred that was cancelled takes no notice of a
callback, and the publications change nothing here. -/
def make (c : OmciCc) (i : ℕ) : OmciCc :=
  match c.later[i]? with
  | none => c
  | some call =>
    let c := { c with later := c.later.eraseIdx i }
    match call with
    | .callback r f arrivedAt =>
      if c.Called r then c else c.fire r (.frame f arrivedAt)
    | .publishRxFrame _ _ => c
    | .publishConnectivityEvent _ => c

end OmciCc

/-- What happens to the channel. -/
inductive CcEvent where
  | send (timer transmitted : Bool)
  | receive (d : Decoded)
  | timeout (r : ℕ)
  | make (i : ℕ)
  deriving DecidableEq

/-- What an event does. -/
def OmciCc.handle (c : OmciCc) : CcEvent → OmciCc
  | .send timer transmitted => c.send timer transmitted
  | .receive d => c.receiveMessage d
  | .timeout r => c.timeout r
  | .make i => c.make i

/-- Time goes on. -/
def OmciCc.tick (c : OmciCc) : OmciCc := { c with clock := c.clock + 1 }

/-- The channel after an event. -/
def OmciCc.step (c : OmciCc) (event : CcEvent) : OmciCc := c.tick.handle event

/-! ## Matching requests and responses -/

variable {c : OmciCc} {timer : Bool}

namespace OmciCc

/-- The request was sent, and it was neither answered nor did it time out. -/
def Outstanding (c : OmciCc) (r : ℕ) (q : Request) : Prop :=
  c.sends[r]? = some q ∧ r ∉ c.answered ∧ ¬ c.Called r

/-- Requests and responses match. -/
structure RequestsMatch (c : OmciCc) : Prop where
  distinct : ∀ r r' q q', c.Outstanding r q → c.Outstanding r' q' → q.tid = q'.tid → r = r'
  range : ∀ q ∈ c.sends, 1 ≤ q.tid ∧ q.tid ≤ maxOmciTxId
  once : (c.firings.map Prod.fst).Nodup
  own : ∀ r f arrivedAt, (r, Fired.frame f arrivedAt) ∈ c.firings →
    ∃ q, c.sends[r]? = some q ∧ f.tid = q.tid ∧ q.sentAt < arrivedAt
  table : ∀ tid r, get c.requests tid = some r ↔
    ∃ q, c.Outstanding r q ∧ q.tid = tid

/-! ## The invariant -/

/-- What holds in all runs, and in those that are safe. -/
structure Inv (safe : Prop) (c : OmciCc) : Prop where
  tid : 1 ≤ c.txTid ∧ c.txTid ≤ maxOmciTxId
  range : ∀ q ∈ c.sends, 1 ≤ q.tid ∧ q.tid ≤ maxOmciTxId
  past : ∀ q ∈ c.sends, q.sentAt ≤ c.clock
  entry : ∀ tid r, get c.requests tid = some r → ∃ q, c.Outstanding r q ∧ q.tid = tid
  answered : ∀ r ∈ c.answered, r < c.sends.length
  called : ∀ r, c.Called r → r < c.sends.length
  once : (c.firings.map Prod.fst).Nodup
  own : ∀ r f arrivedAt, (r, Fired.frame f arrivedAt) ∈ c.firings →
    ∃ q, c.sends[r]? = some q ∧ f.tid = q.tid ∧ q.sentAt < arrivedAt
  callback : ∀ r f arrivedAt, LaterCall.callback r f arrivedAt ∈ c.later →
    r ∈ c.answered ∧ ∃ q, c.sends[r]? = some q ∧ f.tid = q.tid ∧ q.sentAt < arrivedAt
  /-- all outstanding requests are in `_requests` -/
  tabled : safe → ∀ r q, c.Outstanding r q → get c.requests q.tid = some r

variable {safe : Prop}

theorem Inv.init : Inv safe init where
  tid := by decide
  range := nofun
  past := nofun
  entry := nofun
  answered := nofun
  called := nofun
  once := nodup_nil
  own := nofun
  callback := nofun
  tabled := fun _ r q h => by
    have hnone : (OmciCc.init).sends[r]? = none := rfl
    exact absurd (hnone.symm.trans h.1) (by simp)

/-- Requests and responses match while the run is safe. -/
theorem Inv.requestsMatch (h : c.Inv True) : c.RequestsMatch where
  distinct := fun r r' q q' hq hq' heq =>
    Option.some_inj.mp ((h.tabled trivial r q hq).symm.trans (heq ▸ h.tabled trivial r' q' hq'))
  range := h.range
  once := h.once
  own := h.own
  table := fun tid r => ⟨h.entry tid r, fun ⟨q, hq, htid⟩ => htid ▸ h.tabled trivial r q hq⟩

/-! ## Steps that the invariant does not see -/

/-- The channel has changed its statistics, its next id and its publications at most. -/
structure Same (c c' : OmciCc) : Prop where
  tid : 1 ≤ c.txTid ∧ c.txTid ≤ maxOmciTxId → 1 ≤ c'.txTid ∧ c'.txTid ≤ maxOmciTxId
  requests : c'.requests = c.requests
  sends : c'.sends = c.sends
  answered : c'.answered = c.answered
  firings : c'.firings = c.firings
  clock : c'.clock = c.clock
  callback : ∀ r f arrivedAt, LaterCall.callback r f arrivedAt ∈ c'.later →
    LaterCall.callback r f arrivedAt ∈ c.later

variable {c' : OmciCc} {r : ℕ} {q : Request}

section

variable (h : Same c c')
include h

theorem Same.trans {c'' : OmciCc} (h' : Same c' c'') : Same c c'' where
  tid := fun ht => h'.tid (h.tid ht)
  requests := h'.requests.trans h.requests
  sends := h'.sends.trans h.sends
  answered := h'.answered.trans h.answered
  firings := h'.firings.trans h.firings
  clock := h'.clock.trans h.clock
  callback := fun r f a hc => h.callback r f a (h'.callback r f a hc)

theorem Same.outstanding : c'.Outstanding r q ↔ c.Outstanding r q := by
  rw [Outstanding, Outstanding, Called, Called, h.sends, h.answered, h.firings]

theorem Same.inv (hc : c.Inv safe) : c'.Inv safe where
  tid := h.tid hc.tid
  range := h.sends ▸ hc.range
  past := by rw [h.sends, h.clock]; exact hc.past
  entry := fun tid r he => by
    obtain ⟨q, hq, htid⟩ := hc.entry tid r (h.requests ▸ he)
    exact ⟨q, h.outstanding.mpr hq, htid⟩
  answered := by rw [h.answered, h.sends]; exact hc.answered
  called := by
    intro r hr
    rw [Called, h.firings] at hr
    exact h.sends ▸ hc.called r hr
  once := h.firings ▸ hc.once
  own := by rw [h.firings, h.sends]; exact hc.own
  callback := fun r f a hl => by
    rw [h.answered, h.sends]
    exact hc.callback r f a (h.callback r f a hl)
  tabled := fun hsafe r q hq => h.requests ▸ hc.tabled hsafe r q (h.outstanding.mp hq)

end

/-- Only the statistics have changed. -/
theorem Same.stats (c : OmciCc) (stats : Stats) : Same c { c with stats } :=
  ⟨fun h => h, rfl, rfl, rfl, rfl, rfl, fun _ _ _ h => h⟩

variable {f : RxFrame} {tid : ℕ}

theorem mem_append_connectivity {l : List LaterCall} {b : Bool} {a : ℕ}
    (h : LaterCall.callback r f a ∈ l ++ [.publishConnectivityEvent b]) :
    LaterCall.callback r f a ∈ l := by
  rcases mem_append.mp h with h | h
  · exact h
  · exact nomatch mem_singleton.mp h

section

variable (c : OmciCc)

theorem Same.countError : Same c c.countError := by
  refine ⟨fun h => h, rfl, rfl, rfl, rfl, rfl, fun r f a h => ?_⟩
  rw [OmciCc.countError] at h
  split at h
  · exact mem_append_connectivity h
  · exact h

theorem Same.countFrame : Same c c.countFrame := by
  refine ⟨fun h => h, rfl, rfl, rfl, rfl, rfl, fun r f a h => ?_⟩
  rw [OmciCc.countFrame] at h
  split at h
  · exact mem_append_connectivity h
  · exact h

theorem Same.sendFailed : Same c c.sendFailed :=
  (Same.stats c _).trans (Same.countError _)

theorem Same.getTxTid : Same c c.getTxTid.2 := by
  refine ⟨fun h => ?_, rfl, rfl, rfl, rfl, rfl, fun _ _ _ h => h⟩
  show 1 ≤ (if c.txTid + 1 > maxOmciTxId then 1 else c.txTid + 1) ∧
    (if c.txTid + 1 > maxOmciTxId then 1 else c.txTid + 1) ≤ maxOmciTxId
  split
  · exact by decide
  · omega

/-- A call was taken from the reactor. -/
theorem Same.taken (i : ℕ) : Same c { c with later := c.later.eraseIdx i } :=
  ⟨fun h => h, rfl, rfl, rfl, rfl, rfl, fun _ _ _ h => mem_of_mem_eraseIdx h⟩

/-! ## Steps of requests and responses -/

theorem get_popRequest (tid tid' : ℕ) :
    get (c.popRequest tid).requests tid' =
      if tid' = tid then none else get c.requests tid' :=
  lookup_filter_ne

end

theorem called_fire {r' : ℕ} {v : Fired} : (c.fire r v).Called r' ↔ c.Called r' ∨ r' = r := by
  rw [Called, Called, fire, map_append, mem_append, map_singleton,
    mem_singleton]

section

variable (h : c.Inv safe)
include h

theorem Inv.tick : c.tick.Inv safe ∧ ∀ q ∈ c.tick.sends, q.sentAt < c.tick.clock :=
  ⟨{ h with past := fun q hq => Nat.le_succ_of_le (h.past q hq) },
    fun q hq => Nat.lt_succ_of_le (h.past q hq)⟩

omit h in
/-- A new request is the last one of those sent. -/
theorem getElem?_sent :
    (c.sent tid timer).sends[r]? = some q ↔
      c.sends[r]? = some q ∨ r = c.sends.length ∧ q = ⟨tid, timer, c.clock⟩ := by
  show (c.sends ++ [(⟨tid, timer, c.clock⟩ : Request)])[r]? = some q ↔ _
  rcases Nat.lt_trichotomy r c.sends.length with hr | rfl | hr
  · rw [getElem?_append_left hr]
    exact ⟨.inl, fun h => h.resolve_right fun h => absurd h.1 (Nat.ne_of_lt hr)⟩
  · rw [getElem?_concat_length, getElem?_eq_none (Nat.le_refl _)]
    simp [eq_comm]
  · have hlen : (c.sends ++ [(⟨tid, timer, c.clock⟩ : Request)]).length ≤ r := by
      rw [length_append]
      exact hr
    rw [getElem?_eq_none hlen, getElem?_eq_none (Nat.le_of_lt hr)]
    simp only [reduceCtorEq, false_or, false_iff, not_and]
    exact fun heq => absurd heq.symm (Nat.ne_of_lt hr)

theorem outstanding_sent :
    (c.sent tid timer).Outstanding r q ↔
      c.Outstanding r q ∨ r = c.sends.length ∧ q = ⟨tid, timer, c.clock⟩ := by
  constructor
  · rintro ⟨hs, ha, hc⟩
    exact (getElem?_sent.mp hs).imp_left fun hs => ⟨hs, ha, hc⟩
  · rintro (⟨hs, ha, hc⟩ | ⟨rfl, rfl⟩)
    · exact ⟨getElem?_sent.mpr (.inl hs), ha, hc⟩
    · refine ⟨getElem?_sent.mpr (.inr ⟨rfl, rfl⟩), fun ha => ?_, fun hc => ?_⟩
      · exact Nat.lt_irrefl _ (h.answered _ ha)
      · exact Nat.lt_irrefl _ (h.called _ hc)

omit h in
theorem get_sent (tid' : ℕ) : get (c.sent tid timer).requests tid' =
    if tid' = tid then some c.sends.length else get c.requests tid' :=
  get_insert ..

theorem Inv.sent (timer : Bool) (hrange : 1 ≤ tid ∧ tid ≤ maxOmciTxId)
    (hnone : get c.requests tid = none) : (c.sent tid timer).Inv safe where
  tid := h.tid
  range := fun q hq => by
    rcases mem_append.mp hq with hq | hq
    · exact h.range q hq
    · rw [mem_singleton.mp hq]
      exact hrange
  past := fun q hq => by
    rcases mem_append.mp hq with hq | hq
    · exact h.past q hq
    · rw [mem_singleton.mp hq]
      exact Nat.le_refl _
  entry := fun tid' r he => by
    rw [get_sent] at he
    split at he
    · next htid =>
      refine ⟨⟨tid, timer, c.clock⟩, (outstanding_sent h).mpr (.inr ⟨?_, rfl⟩), htid.symm⟩
      exact (Option.some_inj.mp he).symm
    · obtain ⟨q, hq, htid⟩ := h.entry tid' r he
      exact ⟨q, (outstanding_sent h).mpr (.inl hq), htid⟩
  answered := fun r hr => Nat.lt_of_lt_of_le (h.answered r hr) (by simp [OmciCc.sent])
  called := fun r hr => Nat.lt_of_lt_of_le (h.called r hr) (by simp [OmciCc.sent])
  once := h.once
  own := fun r f a hf => by
    obtain ⟨q, hq, hown⟩ := h.own r f a hf
    exact ⟨q, getElem?_sent.mpr (.inl hq), hown⟩
  callback := fun r f a hf => by
    obtain ⟨ha, q, hq, hown⟩ := h.callback r f a hf
    exact ⟨ha, q, getElem?_sent.mpr (.inl hq), hown⟩
  tabled := fun hsafe r q hq => by
    rw [get_sent]
    rcases (outstanding_sent h).mp hq with hq | ⟨rfl, rfl⟩
    · -- an outstanding request is in the table, where the new id is not
      have hr := h.tabled hsafe r q hq
      have hne : q.tid ≠ tid := by
        intro heq
        rw [heq, hnone] at hr
        cases hr
      rw [if_neg hne]
      exact hr
    · rw [if_pos rfl]

theorem Inv.answer (hpast : ∀ q ∈ c.sends, q.sentAt < c.clock)
    (hr : get c.requests f.tid = some r) : (c.answer f r).Inv safe := by
  obtain ⟨q, hq, htid⟩ := h.entry f.tid r hr
  have hget : ∀ tid, get (c.answer f r).requests tid =
      if tid = f.tid then none else get c.requests tid := get_popRequest c f.tid
  exact
  { tid := h.tid
    range := h.range
    past := h.past
    entry := fun tid r' he => by
      rw [hget] at he
      split at he
      · cases he
      · next hne =>
        obtain ⟨q', hq', htid'⟩ := h.entry tid r' he
        refine ⟨q', ⟨hq'.1, fun ha => ?_, hq'.2.2⟩, htid'⟩
        rcases mem_append.mp ha with ha | ha
        · exact hq'.2.1 ha
        · -- the answered request has the id of the frame
          rw [mem_singleton.mp ha] at hq'
          have hqq : q' = q := Option.some_inj.mp (hq'.1.symm.trans hq.1)
          exact hne (htid'.symm.trans (hqq ▸ htid))
    answered := fun r' ha => by
      rcases mem_append.mp ha with ha | ha
      · exact h.answered r' ha
      · rw [mem_singleton.mp ha]
        exact (List.getElem?_eq_some_iff.mp hq.1).1
    called := h.called
    once := h.once
    own := h.own
    callback := fun r' f' a hl => by
      rcases mem_append.mp hl with hl | hl
      · obtain ⟨ha, hown⟩ := h.callback r' f' a hl
        exact ⟨mem_append_left _ ha, hown⟩
      · rcases mem_cons.mp hl with hl | hl
        · cases hl
          refine ⟨mem_append_right _ (mem_singleton_self _), q, hq.1, htid.symm, ?_⟩
          exact hpast q (mem_of_getElem? hq.1)
        · cases mem_singleton.mp hl
    tabled := fun hsafe r' q' hout => by
      obtain ⟨hs, ha, hc⟩ := hout
      have hold := h.tabled hsafe r' q' ⟨hs, fun h => ha (mem_append_left _ h), hc⟩
      rw [hget]
      split
      · next heq =>
        -- the request with the id of the frame is the one that was answered
        have hrr : r' = r := Option.some_inj.mp ((heq ▸ hold).symm.trans hr)
        exact absurd (mem_append_right _ (mem_singleton.mpr hrr)) ha
      · exact hold }

/-- The deferred of a request fires, and its entry is taken out of the table. -/
theorem Inv.fire {v : Fired} {requests : List (ℕ × ℕ)} (hlt : r < c.sends.length)
    (hnot : ¬ c.Called r)
    (hentry : ∀ tid r', get requests tid = some r' → get c.requests tid = some r' ∧ r' ≠ r)
    (hkept : safe → ∀ tid r', get c.requests tid = some r' → r' ≠ r →
      get requests tid = some r')
    (hown : ∀ f a, v = .frame f a → ∃ q, c.sends[r]? = some q ∧ f.tid = q.tid ∧ q.sentAt < a) :
    ({ c with requests := requests }.fire r v).Inv safe where
  tid := h.tid
  range := h.range
  past := h.past
  entry := fun tid r' he => by
    obtain ⟨hold, hne⟩ := hentry tid r' he
    obtain ⟨q, ⟨hs, ha, hc⟩, htid⟩ := h.entry tid r' hold
    exact ⟨q, ⟨hs, ha, fun hc' => (called_fire.mp hc').elim hc hne⟩, htid⟩
  answered := h.answered
  called := fun r' hc => by
    rcases called_fire.mp hc with hc | rfl
    · exact h.called r' hc
    · exact hlt
  once := by
    rw [OmciCc.fire, map_append, map_singleton]
    refine nodup_append.mpr ⟨h.once, nodup_singleton r, ?_⟩
    rintro a ha b hb rfl
    cases mem_singleton.mp hb
    exact hnot ha
  own := fun r' f a hf => by
    rcases mem_append.mp hf with hf | hf
    · exact h.own r' f a hf
    · cases mem_singleton.mp hf
      exact hown f a rfl
  callback := h.callback
  tabled := fun hsafe r' q ⟨hs, ha, hc⟩ => by
    have hold := h.tabled hsafe r' q ⟨hs, ha, fun h => hc (called_fire.mpr (.inl h))⟩
    exact hkept hsafe _ r' hold fun heq => hc (called_fire.mpr (.inr heq))

/-! ## Runs -/

omit h in
/-- What a timer that goes off does, apart from the statistics. -/
theorem Same.timeout (hq : c.sends[r]? = some q) :
    Same (if q.timer = true ∧ ¬ c.Called r then (c.popRequest q.tid).fire r .timeout else c)
      (c.timeout r) := by
  rw [OmciCc.timeout, hq]
  dsimp only
  split
  · exact (Same.stats _ _).trans (Same.countError _)
  · exact ⟨fun h => h, rfl, rfl, rfl, rfl, rfl, fun _ _ _ h => h⟩

/-- A timer does not go off for a request whose id another entry of the table has. -/
def Safe (c : OmciCc) : CcEvent → Prop
  | .timeout r => ∀ q, c.sends[r]? = some q → q.timer = true → ¬ c.Called r →
      ∀ r', get c.requests q.tid = some r' → r' = r
  | _ => True

theorem Inv.send (timer transmitted : Bool) : (c.send timer transmitted).Inv safe := by
  have hnext := (Same.getTxTid c).inv h
  rw [OmciCc.send]
  dsimp only
  split
  · exact (Same.sendFailed _).inv hnext
  · next hnone =>
    split
    · exact hnext.sent timer h.tid (by simpa using hnone)
    · exact (Same.sendFailed _).inv hnext

theorem Inv.matchFrame (hpast : ∀ q ∈ c.sends, q.sentAt < c.clock) (f : RxFrame) :
    (c.matchFrame f).Inv safe := by
  rw [OmciCc.matchFrame]
  split
  · exact (Same.stats _ _).inv h
  · next r hr => exact h.answer hpast hr

theorem Inv.receiveMessage (hpast : ∀ q ∈ c.sends, q.sentAt < c.clock) (d : Decoded) :
    (c.receiveMessage d).Inv safe := by
  cases d with
  | frame f =>
    rw [OmciCc.receiveMessage]
    split
    · exact (Same.stats _ _).inv h
    · exact ((Same.countFrame c).inv h).matchFrame hpast f
  | unknownMe f =>
    rw [OmciCc.receiveMessage]
    refine Inv.matchFrame ?_ ?_ f
    · exact (Same.stats c _).inv h
    · exact hpast
  | failed => exact h

theorem Inv.timeout (hsafe : safe → c.Safe (.timeout r)) : (c.timeout r).Inv safe := by
  rcases hq : c.sends[r]? with _ | q
  · rw [OmciCc.timeout, hq]
    exact h
  · refine (Same.timeout hq).inv ?_
    have hpop := get_popRequest c q.tid
    split
    · next hfires =>
      refine h.fire (List.getElem?_eq_some_iff.mp hq).1 hfires.2 (fun tid r' he => ?_)
        (fun hs tid r' he hne => (hpop tid).trans ?_) (by rintro _ _ ⟨⟩)
      · replace he := (hpop tid).symm.trans he
        split at he
        · cases he
        · next hne =>
          -- the entries of the request have its id
          refine ⟨he, fun heq => hne ?_⟩
          obtain ⟨q', hq', htid⟩ := h.entry tid r' he
          rw [← htid, Option.some_inj.mp (hq'.1.symm.trans (heq ▸ hq))]
      · rw [if_neg, he]
        rintro rfl
        exact hne (hsafe hs q hq hfires.1 hfires.2 r' he)
    · exact h

theorem Inv.make (i : ℕ) : (c.make i).Inv safe := by
  rw [OmciCc.make]
  split
  · exact h
  · next call hcall =>
    have htaken := (Same.taken c i).inv h
    dsimp only
    cases call with
    | callback r f a =>
      dsimp only
      split
      · exact htaken
      · next hnot =>
        -- an answered request is not in the table
        obtain ⟨hans, hown⟩ := h.callback r f a (mem_of_getElem? hcall)
        refine htaken.fire (h.answered r hans) hnot (fun tid r' he => ⟨he, ?_⟩)
          (fun _ _ _ he _ => he) ?_
        · rintro rfl
          obtain ⟨q, hq, -⟩ := h.entry tid r' he
          exact hq.2.1 hans
        · rintro f' a' heq
          cases heq
          exact hown
    | publishRxFrame => exact htaken
    | publishConnectivityEvent => exact htaken

theorem Inv.step {event : CcEvent} (hsafe : safe → c.Safe event) : (c.step event).Inv safe := by
  obtain ⟨htick, hpast⟩ := h.tick
  cases event with
  | send timer transmitted => exact htick.send timer transmitted
  | receive d => exact htick.receiveMessage hpast d
  | timeout r => exact htick.timeout hsafe
  | make i => exact htick.make i

omit h in
theorem Inv.run (events : List CcEvent) : (events.foldl OmciCc.step OmciCc.init).Inv False :=
  (allAlong_true events OmciCc.init).foldl (fun _ _ h _ => h.step False.elim) .init

/-- A timer that goes off for a request whose id another entry has makes that entry disappear. -/
theorem not_requestsMatch_of_not_safe {event : CcEvent} (hfails : ¬ c.Safe event) :
    ¬ (c.step event).RequestsMatch := by
  cases event with
  | send | receive | make => exact absurd trivial hfails
  | timeout r =>
    simp only [Safe, not_forall] at hfails
    obtain ⟨q, hq, htimer, hnot, r', hr', hne⟩ := hfails
    obtain ⟨q', hq', htid⟩ := h.entry q.tid r' hr'
    have hsame := Same.timeout (c := c.tick) hq
    rw [if_pos ⟨htimer, hnot⟩] at hsame
    -- the other request is still outstanding, but its id was popped
    have hout : (c.tick.timeout r).Outstanding r' q' := by
      refine hsame.outstanding.mpr ⟨hq'.1, hq'.2.1, fun hc => ?_⟩
      exact (called_fire.mp hc).elim hq'.2.2 hne
    intro hmatch
    have hget : get (c.tick.timeout r).requests q.tid = some r' :=
      (hmatch.table q.tid r').mpr ⟨q', hout, htid⟩
    rw [hsame.requests] at hget
    have hnone := get_popRequest c.tick q.tid q.tid
    rw [if_pos rfl] at hnone
    cases hnone.symm.trans hget

end

end OmciCc

open OmciCc

/-- **Requests and responses match in all states of a run** exactly if no timer goes off for a
request whose id another entry of `_requests` has. -/
theorem requests_match_iff (events : List CcEvent) :
    AllAlong step Safe init events ↔
      ∀ l, l <+: events → (l.foldl OmciCc.step OmciCc.init).RequestsMatch :=
  allAlong_iff (fun _ h => Inv.requestsMatch h) (fun _ _ h hsafe => Inv.step h fun _ => hsafe)
    (fun _ _ h => OmciCc.not_requestsMatch_of_not_safe h) Inv.init

/-! ## A response that comes with the timeout -/

/-- A request with a timer, requests with all other ids, the response to the first request and a
request that gets its id again. -/
def wrappedEvents : List CcEvent :=
  .send true true :: List.replicate (maxOmciTxId - 1) (.send false true) ++
    [.receive (.frame ⟨1, 0⟩), .send false true]

/-- `m` requests were sent, the first of them with a timer, and nothing else has happened. -/
structure Filled (m : ℕ) (c : OmciCc) : Prop where
  txTid : c.txTid = m % maxOmciTxId + 1
  first : ∃ q, c.sends[0]? = some q ∧ q.tid = 1 ∧ q.timer = true
  firings : c.firings = []
  entry : get c.requests 1 = some 0
  free : ∀ tid, m < tid → get c.requests tid = none

theorem Filled.init : Filled 1 (OmciCc.init.step (.send true true)) where
  txTid := by decide
  first := ⟨⟨1, true, 1⟩, by decide, rfl, rfl⟩
  firings := by decide
  entry := by decide
  free := fun tid htid => by
    have hget : get (OmciCc.init.step (.send true true)).requests tid =
        if tid = 1 then some 0 else none := get_insert 1 tid 0 []
    rw [hget, if_neg (by omega)]

/-- A request that finds its id free. -/
theorem step_send_of_free (hfree : get c.requests c.txTid = none) :
    c.step (.send timer true) = c.tick.getTxTid.2.sent c.txTid timer := by
  have hnone : (get c.tick.getTxTid.2.requests c.txTid).isSome = false := by
    rw [show c.tick.getTxTid.2.requests = c.requests from rfl, hfree]
    rfl
  show (if (get c.tick.getTxTid.2.requests c.txTid).isSome then _ else _) = _
  rw [hnone]
  rfl

theorem Filled.step {m : ℕ} (h : Filled m c) (hpos : 1 ≤ m) (hm : m < maxOmciTxId) :
    Filled (m + 1) (c.step (.send false true)) := by
  have htid : c.txTid = m + 1 := by rw [h.txTid, Nat.mod_eq_of_lt hm]
  rw [step_send_of_free (h.free _ (by omega))]
  have hget : ∀ tid, get (c.tick.getTxTid.2.sent c.txTid false).requests tid =
      if tid = c.txTid then some c.sends.length else get c.requests tid := get_sent
  exact
  { txTid := by
      show (if c.txTid + 1 > maxOmciTxId then 1 else c.txTid + 1) = (m + 1) % maxOmciTxId + 1
      rw [htid]
      rcases Nat.lt_or_ge (m + 1) maxOmciTxId with hlt | hge
      · rw [if_neg (by omega), Nat.mod_eq_of_lt hlt]
      · have heq : m + 1 = maxOmciTxId := by omega
        rw [if_pos (by omega), heq, Nat.mod_self]
    first := by
      obtain ⟨q, hq, hown⟩ := h.first
      exact ⟨q, OmciCc.getElem?_sent.mpr (.inl hq), hown⟩
    firings := h.firings
    entry := by rw [hget, if_neg (by omega), h.entry]
    free := fun tid hlt => by rw [hget, if_neg (by omega), h.free tid (by omega)] }

theorem Filled.run {m n : ℕ} (hpos : 1 ≤ m) (hmn : m + n ≤ maxOmciTxId) (h : Filled m c) :
    Filled (m + n) ((List.replicate n (CcEvent.send false true)).foldl OmciCc.step c) := by
  induction n generalizing m c with
  | zero => exact h
  | succ n ih =>
    rw [replicate_succ, foldl_cons, show m + (n + 1) = m + 1 + n by omega]
    exact ih (by omega) (by omega) (h.step hpos (by omega))

/-- When all ids are in use, the response to the first request makes its id free, and the next
request gets it. -/
theorem Filled.wrapped (h : Filled maxOmciTxId c) :
    ∃ q c', [CcEvent.receive (.frame ⟨1, 0⟩), .send false true].foldl OmciCc.step c = c' ∧
      c'.sends[0]? = some q ∧ q.tid = 1 ∧ q.timer = true ∧ c'.firings = [] ∧
      ∃ r, get c'.requests 1 = some r ∧ r ≠ 0 := by
  obtain ⟨q, hq, htid, htimer⟩ := h.first
  have hreceive : c.step (.receive (.frame ⟨1, 0⟩)) = c.tick.countFrame.answer ⟨1, 0⟩ 0 := by
    show c.tick.countFrame.matchFrame ⟨1, 0⟩ = _
    have hget : get c.tick.countFrame.requests 1 = some 0 := h.entry
    rw [OmciCc.matchFrame, hget]
  have hfree : get (c.tick.countFrame.answer ⟨1, 0⟩ 0).requests 1 = none := by
    have hpop := OmciCc.get_popRequest c.tick.countFrame 1 1
    rwa [if_pos rfl] at hpop
  have hnext : (c.tick.countFrame.answer ⟨1, 0⟩ 0).txTid = 1 :=
    h.txTid.trans (by rw [Nat.mod_self])
  rw [foldl_cons, foldl_cons, foldl_nil, hreceive,
    step_send_of_free (hnext ▸ hfree), hnext]
  refine ⟨q, _, rfl, OmciCc.getElem?_sent.mpr (.inl hq), htid, htimer, h.firings,
    c.sends.length, ?_, ?_⟩
  · exact (get_sent 1).trans (if_pos rfl)
  · have hpos := (List.getElem?_eq_some_iff.mp hq).1
    omega

/-- **The timeout of an answered request takes another request out of the table.** -/
theorem timeout_forgets_request :
    ¬ ((wrappedEvents ++ [CcEvent.timeout 0]).foldl OmciCc.step OmciCc.init).RequestsMatch := by
  have hfilled := Filled.run (n := maxOmciTxId - 1) (by decide) (by decide) Filled.init
  rw [show 1 + (maxOmciTxId - 1) = maxOmciTxId by decide] at hfilled
  obtain ⟨q, c, hc, hq, htid, htimer, hfirings, r, hr, hne⟩ := hfilled.wrapped
  rw [← foldl_cons, ← foldl_append] at hc
  have hinv := OmciCc.Inv.run wrappedEvents
  rw [wrappedEvents, hc] at hinv
  rw [foldl_append, wrappedEvents, hc, foldl_cons, foldl_nil]
  refine not_requestsMatch_of_not_safe hinv fun hsafe => hne ?_
  refine hsafe q hq htimer ?_ r (htid ▸ hr)
  rw [Called, hfirings]
  exact not_mem_nil

end Voltha.Omci
