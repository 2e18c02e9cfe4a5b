import Voltha.Cluster.CoreStores
import Voltha.Lib.Act
import Voltha.Lib.Run

/-!
# The connections to the peers

The dispatcher has a connection to each core that has an instance.  `update_grpc_client_map`
compares a new peers map with the old one, slot by slot, and closes and opens connections where
they differ.  A call to a peer that is unavailable makes its connection anew.

A connection is known by the host that its channel was made for.  The steps that are yielded return
at once, so that a map is processed without interruption.

* `mem_toOpen`, `mem_toClose`: which connections are opened and closed.
* `Mirrors.update`: a map is processed without an error, and the connections mirror it then.
* `connections_mirror`: the same in every run.
-/

namespace Voltha.Cluster

open List hiding get
open OrderedDict Act
open Hex

/-! ## The dispatcher -/

/-- The peers map: slots that are empty or hold an instance with a host. -/
structure PeersMap where
  slots : Slots
  nodup : slots.coreIds.Nodup
  hosts : ∀ p ∈ slots, ∀ inst ∈ p.2, inst.host ≠ []

/-- `grpc_conn_map`: the hosts of the channels. -/
abbrev Connections := List (Text × Text)

/-- The orders in which Python goes through a set of ids and through a dictionary. -/
structure IterOrder where
  ids : List Text → List Text
  ids_perm : ∀ l, (ids l).Perm l
  items : Connections → Connections
  items_perm : ∀ l, (items l).Perm l

/-- The slots that hold a new instance, with its host. -/
def toOpen (old new : Slots) : Connections :=
  new.filterMap fun p =>
    if get old p.1 = some p.2 then none else p.2.map fun inst => (p.1, inst.host)

/-- The set of slots that have lost the instance they held, in the new map or with their id. -/
def toClose (old new : Slots) : List Text :=
  (((new.filter fun p => get old p.1 ≠ some p.2 ∧ (get old p.1).join ≠ none) ++
    old.filter fun p => p.1 ∉ new.coreIds ∧ p.2 ≠ none).map Prod.fst).dedup

/-- `_disconnect_from_peer`. -/
def disconnectFromPeer (peerId : Text) : Act Connections String Unit := do
  let conns ← read
  if get conns peerId = none then raise "KeyError" else modify (erase peerId)

/-- The first loop of `_refresh_grpc_connections`. -/
def closeAll : List Text → Act Connections String Unit
  | [] => pure ()
  | id :: ids => do
    disconnectFromPeer id
    closeAll ids

/-- The second loop. -/
def openAll : Connections → Act Connections String Unit
  | [] => pure ()
  | (id, host) :: rest => do
    let conns ← read
    doIf (get conns id ≠ none) (disconnectFromPeer id)
    doIf (host ≠ []) (modify (insert id host))
    openAll rest

/-- `update_grpc_client_map`, up to the point where it catches exceptions. -/
def updateGrpcClientMap (order : IterOrder) (old new : Slots) : Act Connections String Unit := do
  closeAll (order.ids (toClose old new))
  openAll (order.items (toOpen old new))

/-- `_reconnect_to_peer`, up to the point where it catches exceptions. -/
def reconnectToPeer (slots : Slots) (peerId : Text) : Act Connections String Unit := do
  disconnectFromPeer peerId
  match (get slots peerId).join with
  | some inst => modify (insert peerId inst.host)
  | none => pure ()

/-- The fields that tracking the peers changes. -/
structure PeerTracker where
  peersMap : PeersMap
  grpcConnMap : Connections

inductive PeerEvent where
  /-- A turn of `_start_tracking_peers`. -/
  | peersMap (new : PeersMap) (order : IterOrder)
  /-- One call of `_dispatch_to_peer`, which may find the peer unavailable; a retry is another. -/
  | dispatch (coreId : Text) (unavailable : Bool)

namespace PeerTracker

def start : PeerTracker := ⟨⟨[], nodup_nil, nofun⟩, []⟩

def step (s : PeerTracker) : PeerEvent → PeerTracker
  | .peersMap new order =>
    ⟨new, (updateGrpcClientMap order s.peersMap.slots new.slots s.grpcConnMap).2⟩
  | .dispatch coreId unavailable =>
    -- without an instance it returns, and without a connection it raises an exception
    if (get s.peersMap.slots coreId).join ≠ none ∧ get s.grpcConnMap coreId ≠ none ∧
        unavailable then
      { s with grpcConnMap := (reconnectToPeer s.peersMap.slots coreId s.grpcConnMap).2 }
    else s

end PeerTracker

/-- There is a connection for each instance, to its host, and no other one. -/
def Mirrors (slots : Slots) (conns : Connections) : Prop :=
  ∀ id, get conns id = (get slots id).join.map Instance.host

/-! ## Opening and closing -/

variable {conns : Connections} {old new : PeersMap} {id : Text}

theorem disconnectFromPeer_of_get (h : get conns id ≠ none) :
    disconnectFromPeer id conns = (.ok (), erase id conns) := by
  rw [disconnectFromPeer, read_bind, if_neg h]
  rfl

theorem closeAll_eq {ids : List Text} :
    ∀ {conns : Connections}, ids.Nodup → (∀ id ∈ ids, get conns id ≠ none) →
      closeAll ids conns = (.ok (), ids.foldl (fun d k => erase k d) conns) := by
  induction ids with
  | nil => exact fun _ _ => rfl
  | cons id ids ih =>
    intro conns hnodup hget
    rw [nodup_cons] at hnodup
    rw [forall_mem_cons] at hget
    rw [closeAll, bind_of_ok (disconnectFromPeer_of_get hget.1), foldl_cons]
    refine ih hnodup.2 fun k hk => ?_
    have hne : k ≠ id := fun heq => hnodup.1 (heq ▸ hk)
    rw [get_erase, if_neg hne]
    exact hget.2 k hk

/-- The connections that are opened are to the hosts given, and the others stay. -/
theorem openAll_eq {host : Text → Text} {items : Connections} :
    ∀ {conns : Connections}, (∀ p ∈ items, p.2 = host p.1 ∧ p.2 ≠ []) →
      ∃ conns', openAll items conns = (.ok (), conns') ∧ ∀ id,
        (id ∈ items.map Prod.fst → get conns' id = some (host id)) ∧
          (id ∉ items.map Prod.fst → get conns' id = get conns id) := by
  induction items with
  | nil => exact fun {conns} _ => ⟨conns, rfl, fun _ => ⟨nofun, fun _ => rfl⟩⟩
  | cons p items ih =>
    obtain ⟨id, h⟩ := p
    intro conns hitems
    simp only [forall_mem_cons] at hitems
    obtain ⟨⟨rfl, hne⟩, hitems⟩ := hitems
    obtain ⟨conns₁, hclear, hget₁⟩ : ∃ conns₁,
        doIf (get conns id ≠ none) (disconnectFromPeer id) conns = (.ok (), conns₁) ∧
          ∀ k, k ≠ id → get conns₁ k = get conns k := by
      by_cases h : get conns id = none
      · exact ⟨conns, by simp [doIf, h]; rfl, fun _ _ => rfl⟩
      · exact ⟨erase id conns, by simp [doIf, h, disconnectFromPeer_of_get h],
          fun k hk => by rw [get_erase, if_neg hk]⟩
    have hput : doIf (host id ≠ []) (modify (insert id (host id))) conns₁ =
        ((.ok (), insert id (host id) conns₁) : Except String Unit × Connections) := by
      simp [doIf, hne]
      rfl
    obtain ⟨conns', hrun, hget⟩ := @ih (insert id (host id) conns₁) hitems
    refine ⟨conns', ?_, fun k => ?_⟩
    · rw [openAll, read_bind, bind_of_ok hclear, bind_of_ok hput, hrun]
    · rw [map_cons, mem_cons, not_or]
      by_cases hmem : k ∈ items.map Prod.fst
      · exact ⟨fun _ => (hget k).1 hmem, fun hk => absurd hmem hk.2⟩
      · rw [(hget k).2 hmem, get_insert]
        refine ⟨fun hk => ?_, fun hk => by rw [if_neg hk.1, hget₁ k hk.1]⟩
        rw [if_pos (hk.resolve_right hmem), hk.resolve_right hmem]

/-! ## What is opened and closed -/

theorem get_eq_some_iff (m : PeersMap) {slot : Option Instance} :
    get m.slots id = some slot ↔ (id, slot) ∈ m.slots :=
  lookup_eq_some_iff_mem m.nodup

theorem mem_toOpen {host : Text} : (id, host) ∈ toOpen old.slots new.slots ↔
    ∃ inst, get new.slots id = some (some inst) ∧ get old.slots id ≠ some (some inst) ∧
      inst.host = host := by
  simp only [toOpen, mem_filterMap, get_eq_some_iff new]
  constructor
  · rintro ⟨⟨id', slot⟩, hmem, h⟩
    split at h
    · cases h
    · next hne =>
      obtain ⟨inst, rfl, heq⟩ := Option.map_eq_some_iff.mp h
      obtain ⟨rfl, rfl⟩ := Prod.mk.inj heq
      exact ⟨inst, hmem, hne, rfl⟩
  · rintro ⟨inst, hmem, hne, rfl⟩
    exact ⟨_, hmem, if_neg hne⟩

theorem mem_toClose : id ∈ toClose old.slots new.slots ↔
    (get old.slots id).join ≠ none ∧ get new.slots id ≠ get old.slots id := by
  rw [toClose, mem_dedup, mem_map]
  constructor
  · rintro ⟨⟨id', slot⟩, hmem, rfl⟩
    rcases mem_append.mp hmem with hmem | hmem <;>
      obtain ⟨hmem, hcond⟩ := mem_filter.mp hmem <;> rw [decide_eq_true_iff] at hcond
    · rw [(get_eq_some_iff new).mpr hmem]
      exact ⟨hcond.2, hcond.1.symm⟩
    · rw [(get_eq_some_iff old).mpr hmem, get_eq_none_iff.mpr hcond.1]
      exact ⟨hcond.2, nofun⟩
  · rintro ⟨hold, hne⟩
    rcases hnew : get new.slots id with _ | slot
    · obtain ⟨inst, hinst⟩ := Option.ne_none_iff_exists'.mp hold
      refine ⟨(id, some inst), mem_append_right _ (mem_filter.mpr ⟨?_, ?_⟩), rfl⟩
      · exact (get_eq_some_iff old).mp (Option.join_eq_some_iff.mp hinst)
      · exact decide_eq_true ⟨get_eq_none_iff.mp hnew, nofun⟩
    · rw [hnew] at hne
      exact ⟨(id, slot), mem_append_left _ (mem_filter.mpr ⟨(get_eq_some_iff new).mp hnew,
        decide_eq_true ⟨hne.symm, hold⟩⟩), rfl⟩

/-! ## Mirrored maps -/

/-- **A map is processed without an error, and the connections mirror it then.** -/
theorem Mirrors.update (order : IterOrder) (h : Mirrors old.slots conns) (new : PeersMap) :
    (updateGrpcClientMap order old.slots new.slots conns).1 = .ok () ∧
      Mirrors new.slots (updateGrpcClientMap order old.slots new.slots conns).2 := by
  have hopen := fun p => (order.items_perm (toOpen old.slots new.slots)).mem_iff (a := p)
  have hperm := order.ids_perm (toClose old.slots new.slots)
  have hclose : ∀ id ∈ order.ids (toClose old.slots new.slots), get conns id ≠ none := by
    intro id hid
    rw [h id, Ne, Option.map_eq_none_iff]
    exact (mem_toClose.mp (hperm.mem_iff.mp hid)).1
  obtain ⟨conns', hrun, hget⟩ := @openAll_eq
    (fun id => ((get new.slots id).join.map Instance.host).getD [])
    (order.items (toOpen old.slots new.slots))
    ((order.ids (toClose old.slots new.slots)).foldl (fun d k => erase k d) conns) <| by
      rintro ⟨id, host⟩ hp
      obtain ⟨inst, hinst, -, rfl⟩ := mem_toOpen.mp ((hopen _).mp hp)
      exact ⟨by rw [hinst]; rfl, new.hosts _ ((get_eq_some_iff new).mp hinst) inst rfl⟩
  rw [updateGrpcClientMap,
    bind_of_ok (closeAll_eq (hperm.nodup_iff.mpr (nodup_dedup _)) hclose), hrun]
  refine ⟨rfl, fun id => ?_⟩
  have hopened : id ∈ (order.items (toOpen old.slots new.slots)).map Prod.fst ↔
      ∃ inst, get new.slots id = some (some inst) ∧ get old.slots id ≠ some (some inst) := by
    simp [hopen, mem_toOpen]
  by_cases hid : id ∈ (order.items (toOpen old.slots new.slots)).map Prod.fst
  · obtain ⟨inst, hnew, -⟩ := hopened.mp hid
    rw [(hget id).1 hid, hnew]
    rfl
  · rw [(hget id).2 hid, get_foldl_erase, h id]
    by_cases hsame : get new.slots id = get old.slots id
    · rw [if_neg fun hc => (mem_toClose.mp (hperm.mem_iff.mp hc)).2 hsame, hsame]
    · have hnew : (get new.slots id).join = none := by
        refine Option.eq_none_iff_forall_ne_some.mpr fun inst hinst => hid (hopened.mpr ?_)
        have hinst := Option.join_eq_some_iff.mp hinst
        exact ⟨inst, hinst, fun hold => hsame (hinst.trans hold.symm)⟩
      rw [hnew]
      by_cases hold : (get old.slots id).join = none
      · rw [hold]
        exact ite_self _
      · exact if_pos (hperm.mem_iff.mpr (mem_toClose.mpr ⟨hold, hsame⟩))

theorem Mirrors.reconnect {slots : Slots} (h : Mirrors slots conns) (hget : get conns id ≠ none) :
    Mirrors slots (reconnectToPeer slots id conns).2 := by
  have hinst := h id
  rw [reconnectToPeer, bind_of_ok (disconnectFromPeer_of_get hget)]
  rcases hslot : (get slots id).join with _ | inst
  · rw [hslot] at hinst
    exact absurd hinst hget
  · intro k
    show get (insert id inst.host (erase id conns)) k = _
    rw [get_insert, get_erase]
    by_cases hk : k = id
    · rw [if_pos hk, hk, hslot]
      rfl
    · rw [if_neg hk, if_neg hk, h k]

namespace PeerTracker

/-- What is to hold of a map that is processed. -/
def Right (s : PeerTracker) : PeerEvent → Prop
  | .peersMap new order =>
    (updateGrpcClientMap order s.peersMap.slots new.slots s.grpcConnMap).1 = .ok () ∧
      Mirrors new.slots (s.step (.peersMap new order)).grpcConnMap
  | .dispatch _ _ => True

/-- **In every run, each map is processed without an error, and the connections mirror it then.** -/
theorem connections_mirror (events : List PeerEvent) : AllAlong step Right start events := by
  refine (allAlong_congr (I := fun s => Mirrors s.peersMap.slots s.grpcConnMap)
    (c := fun _ _ => True) (fun s e h _ => ?_) (fun s e h => ?_) fun _ => rfl).mp
    (allAlong_true events start)
  · cases e with
    | peersMap new order => exact (h.update order new).2
    | dispatch coreId unavailable =>
      rw [step]
      split
      · next hcall => exact h.reconnect hcall.2.1
      · exact h
  · cases e with
    | peersMap new order => exact iff_of_true trivial (h.update order new)
    | dispatch coreId unavailable => exact Iff.rfl

end PeerTracker

end Voltha.Cluster
