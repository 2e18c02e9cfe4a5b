import Voltha.Cluster.CoreStores
import Voltha.Lib.Act

/-!
# Dispatching global requests

`Dispatcher` of `dispatcher.py`.  A global request is executed here, on a peer, or, if it is a
broadcast, here and on all peers.  The peers map has a slot for each core, empty while the core
has no instance; another map has the connections to the peers.  All calls are made one after the
other: the calls to peers block.

What a dispatch does to the outside is the list of sites where the request was executed.
`World` has what the outside answers: the local handler may raise an exception, and a peer
answers with a response or a status code.

## Main results

* `executed_broadcastRequest`: a broadcast is executed here, and then on the connected live peers.
* `followsRules_iff`: **a request is executed where the documented rules say exactly if**
  `Suits` holds of the request, the maps and the local handler.
* `dispatcher_correct_iff`: the same together with the look-ups of instances, which fail on
  empty slots.
-/

namespace Voltha.Cluster

open List OrderedDict Act
open Hex

/-! ## The dispatcher -/

/-- The fields of `Dispatcher` that a dispatch reads and does not change. -/
structure Dispatcher where
  instanceId : Text
  coreStoreId : Text
  peersMap : Slots
  nodup_keys : peersMap.coreIds.Nodup

/-- Where a request is executed. -/
inductive Site where
  | here
  | peer (coreId : Text)
  deriving DecidableEq

/-- What a dispatch changes: the connections, a core having a channel or `None`, and the sites
where the request was executed so far. -/
structure Wires where
  grpcConnMap : List (Text × Bool)
  executed : List Site
  deriving DecidableEq

inductive StatusCode where
  | invalidArgument
  | notFound
  | alreadyExists
  | permissionDenied
  | unauthenticated
  | unavailable
  | unknown
  | other (n : ℕ)
  deriving DecidableEq

/-- What the outside answers, to requests with responses of type `ρ`. -/
structure World (ρ : Type) where
  /-- the response of the local handler; nothing if it raises -/
  localHandler : Option ρ
  peer : Text → Except StatusCode ρ
  /-- whether a new connection to a core can be made -/
  connects : Text → Bool
  mergeFrom : ρ → ρ → ρ

/-- What a dispatch returns. -/
inductive Result (ρ : Type) where
  | response (r : ρ)
  | dispatchError (code : StatusCode)
  | none
  deriving DecidableEq

/-- The arguments that choose where a request goes; an empty text is an argument not given. -/
structure Request where
  coreId : Text
  id : Text
  broadcast : Bool
  deriving DecidableEq

namespace Dispatcher

variable {ρ : Type} [DecidableEq ρ]

/-- The request is executed at a site. -/
def execute (site : Site) : Act Wires String Unit :=
  modify fun s => { s with executed := s.executed ++ [site] }

/-- `_local_dispatch`. -/
def localDispatch (w : World ρ) : Act Wires String ρ := do
  execute .here
  match w.localHandler with
  | some r => pure r
  | none => raise "Exception"

/-- `_reconnect_to_peer`, for a core whose slot is not empty. -/
def reconnectToPeer (w : World ρ) (coreId : Text) : Act Wires String Unit :=
  modify fun s => { s with
    grpcConnMap := insert coreId (w.connects coreId)
      (erase coreId s.grpcConnMap) }

/-- `_dispatch_to_peer`, with what is done after a peer was unavailable and has been reconnected. -/
def callPeer (d : Dispatcher) (w : World ρ) (coreId : Text)
    (afterReconnect : Act Wires String (Result ρ)) : Act Wires String (Result ρ) :=
  match get d.peersMap coreId with
  | some (some _) => do
    let s ← read
    if get s.grpcConnMap coreId = some true then do
      execute (.peer coreId)
      match w.peer coreId with
      | .ok r => pure (.response r)
      | .error code =>
        if code = .unavailable then do
          reconnectToPeer w coreId
          afterReconnect
        else pure (.dispatchError code)
    else raise "KeyError"
  | _ => pure .none

/-- `_dispatch_to_peer` with a number of retries. -/
def dispatchToPeer (d : Dispatcher) (w : World ρ) (coreId : Text) :
    ℕ → Act Wires String (Result ρ)
  | 0 => callPeer d w coreId (pure (.dispatchError .unavailable))
  | retry + 1 => callPeer d w coreId (dispatchToPeer d w coreId retry)

/-- The loop of `_broadcast_request` over the peers map: `result` is the response that the others
are merged into, and `responses` are those that have been merged. -/
def broadcastLoop (d : Dispatcher) (w : World ρ) :
    List (Text × Option Instance) → ρ → List ρ → Act Wires String ρ
  | [], result, _ => pure result
  | (coreId, inst) :: rest, result, responses => do
    let s ← read
    if coreId = d.coreStoreId then broadcastLoop d w rest result responses
    else if inst.isSome ∧ get s.grpcConnMap coreId = some true then do
      match ← dispatchToPeer d w coreId 0 with
      | .dispatchError _ => broadcastLoop d w rest result responses
      | .response r =>
        if r = result ∨ r ∈ responses then broadcastLoop d w rest result responses
        else broadcastLoop d w rest (w.mergeFrom result r) (responses ++ [r])
      | .none => raise "TypeError"
    else broadcastLoop d w rest result responses

/-- `_broadcast_request`. -/
def broadcastRequest (d : Dispatcher) (w : World ρ) : Act Wires String ρ := do
  let result ← localDispatch w
  broadcastLoop d w d.peersMap result []

/-- The branches of `dispatch` once an id that is given has been decoded. -/
def dispatchDecoded (d : Dispatcher) (w : World ρ) (r : Request) (coreIdFromRequestId : Text) :
    Act Wires String (Result ρ) :=
  if r.broadcast then do
    let res ← broadcastRequest d w
    pure (.response res)
  else if (r.coreId ≠ [] ∧ r.coreId = d.coreStoreId) ∨ r.id = [] ∨
      (coreIdFromRequestId ≠ [] ∧ (coreIdFromRequestId = d.coreStoreId ∨
        isBroadcastCoreId r.id = some true)) then do
    let res ← localDispatch w
    pure (.response res)
  else if coreIdFromRequestId ≠ [] then dispatchToPeer d w coreIdFromRequestId 0
  else pure (.dispatchError .invalidArgument)

/-- `dispatch`. -/
def dispatch (d : Dispatcher) (w : World ρ) (r : Request) (s : Wires) : Result ρ × Wires :=
  let decoded := if r.id = [] then some [] else getCoreIdFromDeviceId r.id
  match decoded with
  | none => (.dispatchError .notFound, s)
  | some coreId => match dispatchDecoded d w r coreId s with
    | (.ok result, s') => (result, s')
    | (.error _, s') => (.dispatchError .unknown, s')

/-- The loop of `get_core_id_from_instance_id`; an empty slot raises a `TypeError`. -/
def findInstance (instanceId : Text) : List (Text × Option Instance) → Except String (Option Text)
  | [] => .ok none
  | (_, none) :: _ => .error "TypeError: 'NoneType' object has no attribute '__getitem__'"
  | (coreId, some inst) :: rest =>
    if inst.id = instanceId then .ok (some coreId) else findInstance instanceId rest

/-- `get_core_id_from_instance_id`. -/
def getCoreIdFromInstanceId (d : Dispatcher) (instanceId : Text) : Except String (Option Text) :=
  if instanceId = d.instanceId then .ok (some d.coreStoreId)
  else findInstance instanceId d.peersMap

/-- The loop of `get_cluster_instances`. -/
def collectInstances : List (Text × Option Instance) → Except String (List Text)
  | [] => .ok []
  | (_, none) :: _ => .error "TypeError: 'NoneType' object has no attribute '__getitem__'"
  | (_, some inst) :: rest => (collectInstances rest).map (inst.id :: ·)

/-- `get_cluster_instances`. -/
def getClusterInstances (d : Dispatcher) : Except String (List Text) :=
  (collectInstances d.peersMap).map (d.instanceId :: ·)

/-! ## The documented rules -/

/-- The core has a running instance among the peers. -/
def Live (d : Dispatcher) (c : Text) : Prop :=
  ∃ inst, get d.peersMap c = some (some inst)

instance (d : Dispatcher) (c : Text) : Decidable (d.Live c) :=
  match h : get d.peersMap c with
  | some (some inst) => isTrue ⟨inst, h⟩
  | some none => isFalse fun ⟨inst, h'⟩ => by rw [h] at h'; cases h'
  | none => isFalse fun ⟨inst, h'⟩ => by rw [h] at h'; cases h'

/-- There is a connection to the core. -/
abbrev Connected (conns : List (Text × Bool)) (c : Text) : Prop :=
  get conns c = some true

/-- The core that a request other than a broadcast names: the one given, or else the one encoded
in the id, where the broadcast core id stands for the local core, or else the local one.  An id
that is too long or too short names none. -/
def named (d : Dispatcher) (r : Request) : Option Text :=
  if r.coreId ≠ [] then some r.coreId
  else if r.id = [] then some d.coreStoreId
  else (getCoreIdFromDeviceId r.id).map fun c =>
    if c = broadcastCoreId then d.coreStoreId else c

/-- The request failed with a `DispatchError`, and was executed nowhere. -/
def Failed (out : Result ρ × Wires) : Prop :=
  out.2.executed = [] ∧ ∃ code, out.1 = .dispatchError code

/-- What the rules ask of a request other than a broadcast, by the core that it names. -/
def Rule (d : Dispatcher) (c : Option Text) (out : Result ρ × Wires) : Prop :=
  match c with
  | none => Failed out
  | some c =>
    if c = d.coreStoreId then out.2.executed = [.here]
    else if d.Live c then out.2.executed = [.peer c]
    else Failed out

/-- The request was executed where the documented rules say, and nowhere else. -/
def FollowsRules (d : Dispatcher) (w : World ρ) (r : Request) (conns : List (Text × Bool)) : Prop :=
  let out := d.dispatch w r ⟨conns, []⟩
  if r.broadcast then
    out.2.executed.Nodup ∧ ∀ site, site ∈ out.2.executed ↔
      site = .here ∨ ∃ c, site = .peer c ∧ c ≠ d.coreStoreId ∧ d.Live c ∧ Connected conns c
  else d.Rule (d.named r) out

/-! ## Calls of peers -/

variable {d : Dispatcher} {w : World ρ} {r : Request} {c : Text} {s : Wires}

omit [DecidableEq ρ] in
theorem dispatchToPeer_of_not_live (h : ¬ d.Live c) (s : Wires) :
    dispatchToPeer d w c 0 s = (.ok .none, s) := by
  rw [dispatchToPeer, callPeer]
  rcases hget : get d.peersMap c with _ | (_ | inst)
  · rfl
  · rfl
  · exact absurd ⟨inst, hget⟩ h

omit [DecidableEq ρ] in
theorem dispatchToPeer_of_not_connected (h : d.Live c) (hconn : ¬ Connected s.grpcConnMap c) :
    dispatchToPeer d w c 0 s = (.error "KeyError", s) := by
  obtain ⟨inst, hget⟩ := h
  rw [dispatchToPeer, callPeer, hget]
  dsimp only
  rw [read_bind, if_neg hconn]
  rfl

omit [DecidableEq ρ] in
/-- A call of a connected live peer is made once, and changes no connection but its own. -/
theorem dispatchToPeer_of_connected (h : d.Live c) (hconn : Connected s.grpcConnMap c) :
    ∃ result s', dispatchToPeer d w c 0 s = (.ok result, s') ∧ result ≠ .none ∧
      s'.executed = s.executed ++ [.peer c] ∧
      ∀ c', c' ≠ c → get s'.grpcConnMap c' = get s.grpcConnMap c' := by
  obtain ⟨inst, hget⟩ := h
  rw [dispatchToPeer, callPeer, hget]
  dsimp only
  rw [read_bind, if_pos hconn, execute, modify_bind]
  rcases w.peer c with code | r
  · dsimp only
    by_cases hcode : code = .unavailable
    · rw [if_pos hcode, reconnectToPeer, modify_bind]
      refine ⟨.dispatchError .unavailable, _, rfl, (nomatch ·), rfl, fun c' hc' => ?_⟩
      rw [get_insert, if_neg hc', get_erase, if_neg hc']
    · rw [if_neg hcode]
      exact ⟨.dispatchError code, _, rfl, (nomatch ·), rfl, fun _ _ => rfl⟩
  · exact ⟨.response r, _, rfl, (nomatch ·), rfl, fun _ _ => rfl⟩

/-! ## Broadcasts -/

/-- The entries of the peers map that a broadcast goes to. -/
def Reached (d : Dispatcher) (conns : List (Text × Bool)) (p : Text × Option Instance) : Prop :=
  p.1 ≠ d.coreStoreId ∧ p.2.isSome ∧ Connected conns p.1

instance (d : Dispatcher) (conns : List (Text × Bool)) (p : Text × Option Instance) :
    Decidable (d.Reached conns p) := inferInstanceAs (Decidable (_ ∧ _ ∧ _))

/-- The loop executes the request once on every entry it goes to. -/
theorem executed_broadcastLoop :
    ∀ {l : List (Text × Option Instance)} {result : ρ} {responses : List ρ} {s : Wires},
      (l.map Prod.fst).Nodup → (∀ p ∈ l, get d.peersMap p.1 = some p.2) →
      (broadcastLoop d w l result responses s).2.executed =
          s.executed ++ (l.filter fun p => decide (d.Reached s.grpcConnMap p)).map
            fun p => .peer p.1
  | [], result, responses, s, _, _ => by
    rw [broadcastLoop, filter_nil, map_nil, append_nil]
    rfl
  | (c, inst) :: l, result, responses, s, hnodup, hslot => by
    rw [map_cons, nodup_cons] at hnodup
    have hrest : ∀ p ∈ l, get d.peersMap p.1 = some p.2 :=
      fun p hp => hslot p (mem_cons_of_mem _ hp)
    rw [broadcastLoop, read_bind]
    by_cases hr : d.Reached s.grpcConnMap (c, inst)
    · obtain ⟨hne, hsome, hconn⟩ := hr
      obtain ⟨i, rfl⟩ := Option.isSome_iff_exists.1 hsome
      have hlive : d.Live c := ⟨i, hslot (c, some i) mem_cons_self⟩
      obtain ⟨res, s', hcall, hnone, hexec, hconns⟩ :=
        dispatchToPeer_of_connected (w := w) hlive hconn
      -- the entries still to come keep their connections
      have hsame : (l.filter fun p => decide (d.Reached s'.grpcConnMap p)) =
          l.filter fun p => decide (d.Reached s.grpcConnMap p) := by
        refine filter_congr fun p hp => ?_
        have hkey : p.1 ∈ l.map Prod.fst := mem_map_of_mem hp
        have hpc : p.1 ≠ c := fun h => hnodup.1 (h ▸ hkey)
        exact decide_eq_decide.2 (by rw [Reached, Reached, Connected, hconns p.1 hpc])
      have hmore : ∀ result' responses',
          (broadcastLoop d w l result' responses' s').2.executed = s.executed ++
            (((c, some i) :: l).filter fun p => decide (d.Reached s.grpcConnMap p)).map
              fun p => .peer p.1 := by
        intro result' responses'
        rw [executed_broadcastLoop hnodup.2 hrest, hexec, hsame,
          filter_cons_of_pos (by simpa using ⟨hne, hsome, hconn⟩), map_cons,
          append_assoc]
        rfl
      rw [if_neg hne, if_pos ⟨hsome, hconn⟩, bind_of_ok hcall]
      cases res with
      | response r =>
        dsimp only
        split
        · exact hmore ..
        · exact hmore ..
      | dispatchError code => exact hmore ..
      | none => exact absurd rfl hnone
    · have hskip : (broadcastLoop d w l result responses s).2.executed = s.executed ++
          (((c, inst) :: l).filter fun p => decide (d.Reached s.grpcConnMap p)).map
            fun p => .peer p.1 := by
        rw [executed_broadcastLoop hnodup.2 hrest, filter_cons_of_neg (by simpa using hr)]
      by_cases hc : c = d.coreStoreId
      · rw [if_pos hc]
        exact hskip
      · rw [if_neg hc, if_neg fun h => hr ⟨hc, h⟩]
        exact hskip

/-- The peers that a broadcast goes to, in the order of the peers map. -/
def reachedPeers (d : Dispatcher) (conns : List (Text × Bool)) : List Site :=
  (d.peersMap.filter fun p => decide (d.Reached conns p)).map fun p => .peer p.1

theorem mem_reachedPeers {conns : List (Text × Bool)} {site : Site} :
    site ∈ d.reachedPeers conns ↔
      ∃ c, site = .peer c ∧ c ≠ d.coreStoreId ∧ d.Live c ∧ Connected conns c := by
  simp only [reachedPeers, mem_map, mem_filter, decide_eq_true_eq]
  constructor
  · rintro ⟨⟨c, inst⟩, ⟨hmem, hne, hsome, hconn⟩, rfl⟩
    obtain ⟨i, rfl⟩ := Option.isSome_iff_exists.1 hsome
    exact ⟨c, rfl, hne, ⟨i, get_of_mem d.nodup_keys hmem⟩, hconn⟩
  · rintro ⟨c, rfl, hne, ⟨i, hget⟩, hconn⟩
    exact ⟨(c, some i), ⟨mem_of_lookup hget, hne, rfl, hconn⟩, rfl⟩

theorem nodup_reachedPeers (d : Dispatcher) (conns : List (Text × Bool)) :
    (d.reachedPeers conns).Nodup := by
  have hkeys : ((d.peersMap.filter fun p => decide (d.Reached conns p)).map Prod.fst).Nodup :=
    d.nodup_keys.sublist (filter_sublist.map _)
  have hmap : d.reachedPeers conns =
      ((d.peersMap.filter fun p => decide (d.Reached conns p)).map Prod.fst).map Site.peer := by
    rw [map_map]
    rfl
  rw [hmap]
  exact hkeys.map fun c c' h => Site.peer.inj h

omit [DecidableEq ρ] in
theorem executed_localDispatch (w : World ρ) (s : Wires) :
    (localDispatch w s).2.executed = s.executed ++ [.here] := by
  rw [localDispatch, execute, modify_bind]
  cases w.localHandler <;> rfl

/-- **A broadcast is executed here, and, unless the local handler raises, on the connected live
peers.** -/
theorem executed_broadcastRequest (d : Dispatcher) (w : World ρ) (s : Wires) :
    (broadcastRequest d w s).2.executed =
      s.executed ++ [.here] ++
        if w.localHandler.isSome then d.reachedPeers s.grpcConnMap else [] := by
  rw [broadcastRequest, bind_apply, localDispatch, execute, modify_bind]
  cases w.localHandler with
  | none => exact (append_nil _).symm
  | some r =>
    exact executed_broadcastLoop d.nodup_keys fun p hp => get_of_mem d.nodup_keys hp

/-! ## When the rules are followed -/

/-- An id that is given has the length of an id. -/
def WellFormed (id : Text) : Prop := id = [] ∨ id.length = 16

instance (id : Text) : Decidable (WellFormed id) := inferInstanceAs (Decidable (_ ∨ _))

/-- The core id encoded in an id is one of another core: neither the local one nor the broadcast
one. -/
def Elsewhere (d : Dispatcher) (id : Text) : Prop :=
  id.length = 16 ∧ id.take 4 ≠ d.coreStoreId ∧ id.take 4 ≠ broadcastCoreId

instance (d : Dispatcher) (id : Text) : Decidable (d.Elsewhere id) :=
  inferInstanceAs (Decidable (_ ∧ _ ∧ _))

/-- When a request is executed where the rules say.  A broadcast needs an id that can be decoded,
if any, and a local handler that does not raise, if there are peers to go on to.  Other requests:
* to the local core, an id that can be decoded, if any;
* to another core given by its id, an encoded id of the same core, and a connection to it if it is
  live; a core that is not live is only refused if the id cannot be decoded, or names a core that
  is live but not connected;
* with an id alone, if it names another core, that core is live and connected. -/
def Suits (d : Dispatcher) (w : World ρ) (r : Request) (conns : List (Text × Bool)) : Prop :=
  if r.broadcast then
    WellFormed r.id ∧ (w.localHandler.isSome ∨
      ∀ c, c ≠ d.coreStoreId → d.Live c → ¬ Connected conns c)
  else if r.coreId = [] then
    d.Elsewhere r.id → d.Live (r.id.take 4) ∧ Connected conns (r.id.take 4)
  else if r.coreId = d.coreStoreId then WellFormed r.id
  else if d.Live r.coreId then
    d.Elsewhere r.id ∧ r.id.take 4 = r.coreId ∧ Connected conns r.coreId
  else ¬ WellFormed r.id ∨
    d.Elsewhere r.id ∧ d.Live (r.id.take 4) ∧ ¬ Connected conns (r.id.take 4)

section Outcomes

theorem dispatch_of_not_wellFormed (h : ¬ WellFormed r.id) (s : Wires) :
    d.dispatch w r s = (.dispatchError .notFound, s) := by
  rw [WellFormed, not_or] at h
  rw [dispatch, if_neg h.1, getCoreIdFromDeviceId, if_neg h.2]

/-- What a dispatch makes of the outcome of a branch. -/
def outcome (x : Except String (Result ρ) × Wires) : Result ρ × Wires :=
  match x with
  | (.ok result, s') => (result, s')
  | (.error _, s') => (.dispatchError .unknown, s')

/-- An id that can be decoded, or none at all. -/
theorem dispatch_of_wellFormed (h : WellFormed r.id) (s : Wires) :
    d.dispatch w r s = outcome (dispatchDecoded d w r (r.id.take 4) s) := by
  rw [dispatch]
  rcases h with h | h
  · rw [if_pos h, h]
    rfl
  · have hne : r.id ≠ [] := ne_nil_of_length_pos (by omega)
    rw [if_neg hne, getCoreIdFromDeviceId, if_pos h]
    rfl

omit [DecidableEq ρ] in
theorem snd_outcome (x : Except String (Result ρ) × Wires) : (outcome x).2 = x.2 := by
  rcases x with ⟨_ | _, s⟩ <;> rfl

/-- A broadcast with an id that can be decoded. -/
theorem executed_dispatch_broadcast (hb : r.broadcast = true) (h : WellFormed r.id) (s : Wires) :
    (d.dispatch w r s).2.executed = (broadcastRequest d w s).2.executed := by
  rw [dispatch_of_wellFormed h, snd_outcome, dispatchDecoded, if_pos hb, bind_pure_apply]

variable (hb : r.broadcast = false)
include hb

/-- The requests that are executed here. -/
theorem executed_dispatch_here (h : WellFormed r.id)
    (hhere : (r.coreId ≠ [] ∧ r.coreId = d.coreStoreId) ∨ ¬ d.Elsewhere r.id) (s : Wires) :
    (d.dispatch w r s).2.executed = s.executed ++ [.here] := by
  rw [dispatch_of_wellFormed h, snd_outcome, dispatchDecoded, if_neg (Bool.eq_false_iff.1 hb),
    if_pos, bind_pure_apply, executed_localDispatch]
  refine hhere.imp_right fun helse => h.imp_right fun hlen => ⟨?_, ?_⟩
  · refine ne_nil_of_length_pos ?_
    rw [length_take, hlen]
    decide
  · rw [Elsewhere, not_and, not_and_or, not_not, not_not] at helse
    refine (helse hlen).imp_right fun hbc => ?_
    rw [isBroadcastCoreId, if_pos hlen, hbc]
    exact congrArg some (decide_eq_true rfl)

/-- The requests that go to a peer. -/
theorem dispatch_elsewhere (h : d.Elsewhere r.id)
    (hne : ¬ (r.coreId ≠ [] ∧ r.coreId = d.coreStoreId)) (s : Wires) :
    d.dispatch w r s = outcome (dispatchToPeer d w (r.id.take 4) 0 s) := by
  rw [dispatch_of_wellFormed (.inr h.1)]
  obtain ⟨hlen, hlocal, hbc⟩ := h
  have hid : r.id ≠ [] := ne_nil_of_length_pos (by omega)
  have hcore : r.id.take 4 ≠ [] := by
    refine ne_nil_of_length_pos ?_
    rw [length_take, hlen]
    decide
  have hnot : isBroadcastCoreId r.id ≠ some true := by
    rw [isBroadcastCoreId, if_pos hlen]
    exact fun heq => hbc (of_decide_eq_true (Option.some_inj.1 heq))
  rw [dispatchDecoded, if_neg (Bool.eq_false_iff.1 hb),
    if_neg (by tauto), if_pos hcore]

/-- What can become of a request that is not sent to the local core. -/
theorem dispatch_cases (hne : ¬ (r.coreId ≠ [] ∧ r.coreId = d.coreStoreId)) (s : Wires) :
    ¬ WellFormed r.id ∧ d.dispatch w r s = (.dispatchError .notFound, s) ∨
    (WellFormed r.id ∧ ¬ d.Elsewhere r.id) ∧
      (d.dispatch w r s).2.executed = s.executed ++ [.here] ∨
    (d.Elsewhere r.id ∧ ¬ d.Live (r.id.take 4)) ∧ d.dispatch w r s = (.none, s) ∨
    (d.Elsewhere r.id ∧ d.Live (r.id.take 4) ∧ ¬ Connected s.grpcConnMap (r.id.take 4)) ∧
      d.dispatch w r s = (.dispatchError .unknown, s) ∨
    (d.Elsewhere r.id ∧ d.Live (r.id.take 4) ∧ Connected s.grpcConnMap (r.id.take 4)) ∧
      (d.dispatch w r s).2.executed = s.executed ++ [.peer (r.id.take 4)] := by
  by_cases helse : d.Elsewhere r.id
  · rw [dispatch_elsewhere hb helse hne]
    by_cases hlive : d.Live (r.id.take 4)
    · by_cases hconn : Connected s.grpcConnMap (r.id.take 4)
      · obtain ⟨result, s', hcall, -, hexec, -⟩ := dispatchToPeer_of_connected (w := w) hlive hconn
        rw [hcall]
        exact .inr (.inr (.inr (.inr ⟨⟨helse, hlive, hconn⟩, hexec⟩)))
      · rw [dispatchToPeer_of_not_connected hlive hconn]
        exact .inr (.inr (.inr (.inl ⟨⟨helse, hlive, hconn⟩, rfl⟩)))
    · rw [dispatchToPeer_of_not_live hlive]
      exact .inr (.inr (.inl ⟨⟨helse, hlive⟩, rfl⟩))
  · by_cases hwf : WellFormed r.id
    · exact .inr (.inl ⟨⟨hwf, helse⟩, executed_dispatch_here hb hwf (.inr helse) s⟩)
    · exact .inl ⟨hwf, dispatch_of_not_wellFormed hwf s⟩

end Outcomes

/-- **A broadcast follows the rules exactly if its id can be decoded and the local handler does
not keep it from the peers.** -/
theorem followsRules_broadcast_iff {conns : List (Text × Bool)} (hb : r.broadcast = true) :
    d.FollowsRules w r conns ↔ d.Suits w r conns := by
  rw [FollowsRules, Suits, if_pos hb, if_pos hb]
  by_cases hwf : WellFormed r.id
  · rw [executed_dispatch_broadcast hb hwf, executed_broadcastRequest, nil_append]
    cases hlocal : w.localHandler.isSome with
    | true =>
      refine iff_of_true ⟨?_, fun site => ?_⟩ ⟨hwf, .inl rfl⟩
      · rw [if_pos rfl]
        refine nodup_cons.2 ⟨fun h => ?_, nodup_reachedPeers d conns⟩
        obtain ⟨c, hc, -⟩ := mem_reachedPeers.1 h
        cases hc
      · rw [if_pos rfl, singleton_append, mem_cons, mem_reachedPeers]
    | false =>
      rw [if_neg Bool.false_ne_true, append_nil]
      constructor
      · rintro ⟨-, hall⟩
        refine ⟨hwf, .inr fun c hne hlive hconn => ?_⟩
        have := (hall (.peer c)).2 (.inr ⟨c, rfl, hne, hlive, hconn⟩)
        simp at this
      · rintro ⟨-, h⟩
        have hnone := h.resolve_left Bool.false_ne_true
        refine ⟨nodup_singleton _, fun site => ?_⟩
        rw [mem_singleton]
        refine ⟨.inl, ?_⟩
        rintro (hsite | ⟨c, -, hne, hlive, hconn⟩)
        · exact hsite
        · exact absurd hconn (hnone c hne hlive)
  · rw [dispatch_of_not_wellFormed hwf]
    refine iff_of_false ?_ fun h => hwf h.1
    rintro ⟨-, hall⟩
    have := (hall .here).2 (.inl rfl)
    simp at this

variable {conns : List (Text × Bool)}

theorem named_of_coreId (h : r.coreId ≠ []) : d.named r = some r.coreId := if_pos h

theorem named_of_nil (hc : r.coreId = []) :
    d.named r = if d.Elsewhere r.id then some (r.id.take 4)
      else if WellFormed r.id then some d.coreStoreId else none := by
  rw [named, if_neg (not_not.2 hc), getCoreIdFromDeviceId]
  by_cases hid : r.id = []
  · simp [hid, Elsewhere, WellFormed]
  · by_cases hlen : r.id.length = 16
    · by_cases hlocal : r.id.take 4 = d.coreStoreId <;>
        by_cases hbc : r.id.take 4 = broadcastCoreId <;>
          simp [hid, hlen, hlocal, hbc, Elsewhere, WellFormed]
    · simp [hid, hlen, Elsewhere, WellFormed]

theorem wellFormed_of_elsewhere (h : d.Elsewhere r.id) : WellFormed r.id := .inr h.1

section

variable (hb : r.broadcast = false)
include hb

theorem followsRules_of_not_broadcast :
    d.FollowsRules w r conns ↔ d.Rule (d.named r) (d.dispatch w r ⟨conns, []⟩) := by
  rw [FollowsRules, if_neg (Bool.eq_false_iff.1 hb)]

section

variable (hne : ¬ (r.coreId ≠ [] ∧ r.coreId = d.coreStoreId))
include hne

theorem executed_eq_peer_iff :
    (d.dispatch w r ⟨conns, []⟩).2.executed = [.peer c] ↔
      d.Elsewhere r.id ∧ r.id.take 4 = c ∧ d.Live c ∧ Connected conns c := by
  rcases dispatch_cases (w := w) hb hne ⟨conns, []⟩ with ⟨hwf, h⟩ | ⟨⟨-, helse⟩, h⟩ |
    ⟨⟨-, hlive⟩, h⟩ | ⟨⟨-, -, hconn⟩, h⟩ | ⟨⟨helse, hlive, hconn⟩, h⟩ <;> rw [h]
  · exact iff_of_false nofun fun h' => hwf (wellFormed_of_elsewhere h'.1)
  · exact iff_of_false nofun fun h' => helse h'.1
  · exact iff_of_false nofun fun ⟨_, heq, hlive', _⟩ => hlive (heq ▸ hlive')
  · exact iff_of_false nofun fun ⟨_, heq, _, hconn'⟩ => hconn (heq ▸ hconn')
  · simp only [nil_append, singleton_inj, Site.peer.injEq]
    exact ⟨fun heq => ⟨helse, heq, heq ▸ hlive, heq ▸ hconn⟩, fun h' => h'.2.1⟩

theorem failed_iff :
    Failed (d.dispatch w r ⟨conns, []⟩) ↔ ¬ WellFormed r.id ∨
      d.Elsewhere r.id ∧ d.Live (r.id.take 4) ∧ ¬ Connected conns (r.id.take 4) := by
  rcases dispatch_cases (w := w) hb hne ⟨conns, []⟩ with ⟨hwf, h⟩ | ⟨⟨hwf, helse⟩, h⟩ |
    ⟨⟨helse, hlive⟩, h⟩ | ⟨hunconnected, h⟩ | ⟨⟨helse, hlive, hconn⟩, h⟩ <;> rw [Failed, h]
  · exact iff_of_true ⟨rfl, _, rfl⟩ (.inl hwf)
  · exact iff_of_false nofun (not_or.2 ⟨not_not.2 hwf, fun h' => helse h'.1⟩)
  · exact iff_of_false nofun
      (not_or.2 ⟨not_not.2 (wellFormed_of_elsewhere helse), fun h' => hlive h'.2.1⟩)
  · exact iff_of_true ⟨rfl, _, rfl⟩ (.inr hunconnected)
  · exact iff_of_false nofun
      (not_or.2 ⟨not_not.2 (wellFormed_of_elsewhere helse), fun h' => h'.2.2 hconn⟩)

end

/-- A request without a core id follows the rules exactly if an id of another core is one of a
connected live peer. -/
theorem rule_id_iff (hc : r.coreId = []) :
    d.Rule (d.named r) (d.dispatch w r ⟨conns, []⟩) ↔
      (d.Elsewhere r.id → d.Live (r.id.take 4) ∧ Connected conns (r.id.take 4)) := by
  have hne : ¬ (r.coreId ≠ [] ∧ r.coreId = d.coreStoreId) := fun h => h.1 hc
  by_cases helse : d.Elsewhere r.id
  · rw [named_of_nil hc, if_pos helse, Rule, if_neg helse.2.1]
    split
    · rw [executed_eq_peer_iff hb hne]
      tauto
    · have hwf := wellFormed_of_elsewhere helse
      rw [failed_iff hb hne]
      tauto
  · refine iff_of_true ?_ fun h => absurd h helse
    rw [named_of_nil hc, if_neg helse]
    by_cases hwf : WellFormed r.id
    · rw [if_pos hwf, Rule, if_pos rfl, executed_dispatch_here hb hwf (.inr helse)]
      rfl
    · rw [if_neg hwf]
      exact (failed_iff hb hne).2 (.inl hwf)

/-- A request to a core other than the local one goes to the core in its id instead, or is
executed here. -/
theorem rule_coreId_iff (hc : r.coreId ≠ []) (hother : r.coreId ≠ d.coreStoreId) :
    d.Rule (d.named r) (d.dispatch w r ⟨conns, []⟩) ↔
      if d.Live r.coreId then
        d.Elsewhere r.id ∧ r.id.take 4 = r.coreId ∧ Connected conns r.coreId
      else ¬ WellFormed r.id ∨
        d.Elsewhere r.id ∧ d.Live (r.id.take 4) ∧ ¬ Connected conns (r.id.take 4) := by
  have hne : ¬ (r.coreId ≠ [] ∧ r.coreId = d.coreStoreId) := fun h => hother h.2
  rw [named_of_coreId hc, Rule, if_neg hother]
  split
  · next hlive => rw [executed_eq_peer_iff hb hne, and_iff_right hlive]
  · exact failed_iff hb hne

end

/-- **A request is executed where the documented rules say exactly if it suits.** -/
theorem followsRules_iff (d : Dispatcher) (w : World ρ) (r : Request) (conns : List (Text × Bool)) :
    d.FollowsRules w r conns ↔ d.Suits w r conns := by
  cases hb : r.broadcast with
  | true => exact followsRules_broadcast_iff hb
  | false =>
    rw [followsRules_of_not_broadcast hb, Suits, if_neg (Bool.eq_false_iff.1 hb)]
    by_cases hc : r.coreId = []
    · rw [if_pos hc, rule_id_iff hb hc]
    · rw [if_neg hc]
      by_cases hlocal : r.coreId = d.coreStoreId
      · rw [if_pos hlocal, named_of_coreId hc, Rule, if_pos hlocal]
        by_cases hwf : WellFormed r.id
        · rw [executed_dispatch_here hb hwf (.inl ⟨hc, hlocal⟩)]
          exact iff_of_true rfl hwf
        · rw [dispatch_of_not_wellFormed hwf]
          exact iff_of_false (nomatch ·) hwf
      · rw [if_neg hlocal, rule_coreId_iff hb hc hlocal]

/-! ## Looking up instances -/

/-- No slot of the peers map is empty. -/
def Filled (d : Dispatcher) : Prop := ∀ p ∈ d.peersMap, p.2.isSome

/-- The look-ups of instances return normally. -/
def LookupsReturn (d : Dispatcher) : Prop :=
  (∀ instanceId, ∃ coreId, d.getCoreIdFromInstanceId instanceId = .ok coreId) ∧
    ∃ instances, d.getClusterInstances = .ok instances

theorem findInstance_of_filled (instanceId : Text) :
    ∀ {l : List (Text × Option Instance)}, (∀ p ∈ l, p.2.isSome) →
      ∃ coreId, findInstance instanceId l = .ok coreId
  | [], _ => ⟨none, rfl⟩
  | (_, none) :: _, h => absurd (h _ mem_cons_self) (nomatch ·)
  | (coreId, some inst) :: l, h => by
    rw [findInstance]
    split
    · exact ⟨some coreId, rfl⟩
    · exact findInstance_of_filled instanceId fun p hp => h p (mem_cons_of_mem _ hp)

/-- The list of instances can be collected exactly if no slot is empty. -/
theorem collectInstances_iff :
    ∀ {l : List (Text × Option Instance)},
      (∃ instances, collectInstances l = .ok instances) ↔ ∀ p ∈ l, p.2.isSome
  | [] => iff_of_true ⟨[], rfl⟩ nofun
  | (_, none) :: l => by
    refine iff_of_false ?_ fun h => absurd (h _ mem_cons_self) (nomatch ·)
    rintro ⟨instances, h⟩
    cases h
  | (coreId, some inst) :: l => by
    rw [forall_mem_cons, collectInstances, ← collectInstances_iff (l := l)]
    rcases collectInstances l with e | instances
    · refine iff_of_false ?_ ?_
      · rintro ⟨instances, h⟩
        cases h
      · rintro ⟨-, instances, h⟩
        cases h
    · exact iff_of_true ⟨_, rfl⟩ ⟨rfl, _, rfl⟩

theorem lookupsReturn_iff (d : Dispatcher) : d.LookupsReturn ↔ d.Filled := by
  constructor
  · rintro ⟨-, instances, h⟩
    refine collectInstances_iff.1 ?_
    rw [getClusterInstances] at h
    rcases hl : collectInstances d.peersMap with e | l
    · rw [hl] at h
      cases h
    · exact ⟨l, rfl⟩
  · intro h
    refine ⟨fun instanceId => ?_, ?_⟩
    · rw [getCoreIdFromInstanceId]
      split
      · exact ⟨_, rfl⟩
      · exact findInstance_of_filled instanceId h
    · obtain ⟨l, hl⟩ := collectInstances_iff.2 h
      exact ⟨d.instanceId :: l, by rw [getClusterInstances, hl]; rfl⟩

/-! ## The dispatcher as a whole -/

/-- **The dispatcher follows the documented rules, and its look-ups return, exactly for the
requests that suit and the peers maps without an empty slot.** -/
theorem dispatcher_correct_iff (d : Dispatcher) (w : World ρ) (r : Request)
    (conns : List (Text × Bool)) :
    d.FollowsRules w r conns ∧ d.LookupsReturn ↔ d.Suits w r conns ∧ d.Filled :=
  and_congr (d.followsRules_iff w r conns) d.lookupsReturn_iff

/-- Core 0001 with a running core 0002, and the empty slot of a core 0003 that has left. -/
def withEmptySlot : Dispatcher where
  instanceId := "one".toList
  coreStoreId := "0001".toList
  peersMap := [("0002".toList, some ⟨"two".toList, "host2".toList⟩), ("0003".toList, none)]
  nodup_keys := by decide

/-- The handlers of all instances succeed. -/
def answering : World ℕ where
  localHandler := some 0
  peer := fun _ => .ok 1
  connects := fun _ => true
  mergeFrom := fun a _ => a

/-- A request to core 0002 is executed on core 0001.  The result for an id of core 0003, which
has no instance, is `None`, and the list of instances cannot be built. -/
theorem dispatches_astray :
    let conns := [("0002".toList, true)]
    withEmptySlot.dispatch answering ⟨"0002".toList, [], false⟩ ⟨conns, []⟩ =
        (.response 0, ⟨conns, [.here]⟩) ∧
      withEmptySlot.dispatch answering ⟨[], "0003000000000001".toList, false⟩ ⟨conns, []⟩ =
        (.none, ⟨conns, []⟩) ∧
      withEmptySlot.getClusterInstances =
        .error "TypeError: 'NoneType' object has no attribute '__getitem__'" := by
  decide +kernel

end Dispatcher

end Voltha.Cluster
