import Voltha.Core.Messages
import Voltha.Lib.Act
import Voltha.Lib.OrderedDict
import Voltha.Lib.Run

/-!
# Port peers

`AdapterAgent` keeps the ports of devices under `/devices/{id}/ports/{port_no}`, and each port lists
its peers.  `add_port` and `delete_port` first edit the records of the ports that the given port
names, then the record of the port itself; what that record had before is not looked at.

* `PortStore`: the stored ports, each under its own number at a known device.
* `addPort_spec`, `deletePort_spec`: what a call that returns leaves at each address.
* `PeersSymmetric`: two stored ports list each other or neither does, and every listed port is
  there.
* `removeEach_length`: removing the items of a list while walking it leaves half of them.
* `port_peers_symmetric_iff`: the calls of a run keep the peers symmetric exactly if none of them
  drops a peer from a record or leaves an entry for a deleted port; and which ports
  `delete_all_peer_references` leaves without peers.
-/

namespace Voltha.Core

open List OrderedDict Act

/-! ## The store -/

/-- The ports of the devices in the store, by address. -/
structure PortStore where
  devices : List String
  ports : List (PeerPort × Port)
  nodup : (ports.map Prod.fst).Nodup
  keyed : ∀ e ∈ ports, e.1.portNo = e.2.portNo
  known : ∀ e ∈ ports, e.1.deviceId ∈ devices

variable {s s' : PortStore} {p : Port} {a : PeerPort} {d : String}

namespace PortStore

/-- The port that is stored at an address. -/
def portAt (s : PortStore) (a : PeerPort) : Option Port := s.ports.lookup a

/-- Write the record of an address of a known device. -/
def set (s : PortStore) (a : PeerPort) (p : Port) (hkey : a.portNo = p.portNo)
    (hdev : a.deviceId ∈ s.devices) : PortStore where
  devices := s.devices
  ports := insert a p s.ports
  nodup := nodup_keys_insert s.nodup
  keyed := fun e he => by
    rcases mem_insert he with rfl | he
    · exact hkey
    · exact s.keyed e he
  known := fun e he => by
    rcases mem_insert he with rfl | he
    · exact hdev
    · exact s.known e he

/-- Drop the record of an address. -/
def erase (s : PortStore) (a : PeerPort) : PortStore where
  devices := s.devices
  ports := s.ports.filter fun e => e.1 ≠ a
  nodup := s.nodup.sublist (filter_sublist.map _)
  keyed := fun e he => s.keyed e (mem_of_mem_filter he)
  known := fun e he => s.known e (mem_of_mem_filter he)

theorem portAt_set (s : PortStore) (a b : PeerPort) (p : Port) (hkey : a.portNo = p.portNo)
    (hdev : a.deviceId ∈ s.devices) :
    (s.set a p hkey hdev).portAt b = if b = a then some p else s.portAt b :=
  lookup_insert

theorem portAt_erase (s : PortStore) (a b : PeerPort) :
    (s.erase a).portAt b = if b = a then none else s.portAt b := lookup_filter_ne

theorem portAt_eq_some :
    s.portAt a = some p ↔ (a, p) ∈ s.ports := lookup_eq_some_iff_mem s.nodup

theorem portNo_of_portAt (h : s.portAt a = some p) :
    a.portNo = p.portNo := s.keyed _ (portAt_eq_some.mp h)

theorem known_of_portAt (h : s.portAt a = some p) :
    a.deviceId ∈ s.devices := s.known _ (portAt_eq_some.mp h)

end PortStore

/-! ## The proxy of the root, at ports -/

/-- `root_proxy.get('/devices/{}/ports/{}')`: a copy of the record. -/
def getPort (a : PeerPort) : Act PortStore Err Port := fun s =>
  match s.portAt a with
  | some p => (.ok p, s)
  | none =>
    if a.deviceId ∈ s.devices then (.error (.keyError s!"key port_no={a.portNo} not found"), s)
    else (.error (.keyError s!"key id={a.deviceId} not found"), s)

/-- `root_proxy.update('/devices/{}/ports/{}', port)` -/
def updatePort (a : PeerPort) (p : Port) : Act PortStore Err Unit := fun s =>
  if hdev : a.deviceId ∈ s.devices then
    if (s.portAt a).isNone then (.error (.keyError s!"key port_no={a.portNo} not found"), s)
    else if hkey : a.portNo = p.portNo then (.ok (), s.set a p hkey hdev)
    else (.error (.valueError "Cannot change key field"), s)
  else (.error (.keyError s!"key id={a.deviceId} not found"), s)

/-- `root_proxy.add('/devices/{}/ports', port)` -/
def insertPort (deviceId : String) (p : Port) : Act PortStore Err Unit := fun s =>
  if hdev : deviceId ∈ s.devices then
    if (s.portAt ⟨deviceId, p.portNo⟩).isSome then
      (.error (.valueError s!"Duplicate key \"{p.portNo}\""), s)
    else (.ok (), s.set ⟨deviceId, p.portNo⟩ p rfl hdev)
  else (.error (.keyError s!"key id={deviceId} not found"), s)

/-- `root_proxy.remove('/devices/{}/ports/{}')` -/
def removePort (a : PeerPort) : Act PortStore Err Unit := fun s =>
  if a.deviceId ∈ s.devices then
    if (s.portAt a).isNone then (.error (.keyError s!"key port_no={a.portNo} not found"), s)
    else (.ok (), s.erase a)
  else (.error (.keyError s!"key id={a.deviceId} not found"), s)

/-- `root_proxy.get('/devices/{}/ports')`: copies of the records. -/
def getPorts (deviceId : String) : Act PortStore Err (List Port) := fun s =>
  if deviceId ∈ s.devices then
    (.ok ((s.ports.filter fun e => e.1.deviceId = deviceId).map Prod.snd), s)
  else (.error (.keyError s!"key id={deviceId} not found"), s)

/-! ## The adapter agent -/

/-- `isinstance(e, KeyError)` -/
def Err.isKeyError : Err → Bool
  | .keyError _ => true
  | _ => false

/-- `_make_up_to_date`, for ports. -/
def makeUpToDate (deviceId : String) (p : Port) : Act PortStore Err Unit :=
  exceptOn Err.isKeyError
    (do
      let _ ← getPort ⟨deviceId, p.portNo⟩
      updatePort ⟨deviceId, p.portNo⟩ p)
    (insertPort deviceId p)

/-- `_remove_node`, for ports. -/
def removeNode (deviceId : String) (portNo : ℕ) : Act PortStore Err Unit :=
  exceptOn Err.isKeyError
    (do
      let _ ← getPort ⟨deviceId, portNo⟩
      removePort ⟨deviceId, portNo⟩)
    (pure ())

/-- `if me_as_peer not in peer_port.peers: peer_port.peers.add().CopyFrom(me_as_peer)` -/
def Port.addPeer (me : PeerPort) (p : Port) : Port :=
  if me ∈ p.peers then p else { p with peers := p.peers ++ [me] }

/-- `if me_as_peer in peer_port.peers: peer_port.peers.remove(me_as_peer)`: the first occurrence
goes. -/
def Port.removePeer (me : PeerPort) (p : Port) : Port :=
  if me ∈ p.peers then { p with peers := p.peers.erase me } else p

/-- The loop of `_add_peer_reference` and of `_del_peer_reference`: rewrite the record of each peer
in turn. -/
def editPeers (edit : Port → Port) (peers : List PeerPort) : Act PortStore Err Unit :=
  peers.foldlM (fun _ peer => do
    let peerPort ← getPort peer
    updatePort peer (edit peerPort)) ()

/-- `_add_peer_reference`, less the assignment to `port.device_id`. -/
def addPeerReference (deviceId : String) (port : Port) : Act PortStore Err Unit :=
  editPeers (Port.addPeer ⟨deviceId, port.portNo⟩) port.peers

/-- `_del_peer_reference` -/
def delPeerReference (deviceId : String) (port : Port) : Act PortStore Err Unit :=
  editPeers (Port.removePeer ⟨deviceId, port.portNo⟩) port.peers

/-- `add_port` -/
def addPort (deviceId : String) (port : Port) : Act PortStore Err Unit := do
  addPeerReference deviceId port
  makeUpToDate deviceId { port with deviceId := deviceId }

/-- `delete_port` -/
def deletePort (deviceId : String) (port : Port) : Act PortStore Err Unit := do
  delPeerReference deviceId port
  removeNode deviceId port.portNo

/-- `for peer in port.peers: port.peers.remove(peer)`, from position `i` on: the iterator goes on
by position in the list that the body shortens.  Each round but the last takes an item out, so that
the length of the list bounds the rounds. -/
def removeEachFrom : ℕ → ℕ → List PeerPort → List PeerPort
  | 0, _, peers => peers
  | rounds + 1, i, peers =>
    match peers[i]? with
    | some peer => removeEachFrom rounds (i + 1) (peers.erase peer)
    | none => peers

/-- `for peer in port.peers: port.peers.remove(peer)` -/
def removeEach (peers : List PeerPort) : List PeerPort := removeEachFrom peers.length 0 peers

/-- `delete_all_peer_references` -/
def deleteAllPeerReferences (deviceId : String) : Act PortStore Err Unit := do
  let ports ← getPorts deviceId
  ports.foldlM (fun _ port =>
    updatePort ⟨deviceId, port.portNo⟩ { port with peers := removeEach port.peers }) ()

/-! ## What the calls leave at each address -/

@[simp] theorem addPeer_portNo (me : PeerPort) (p : Port) : (p.addPeer me).portNo = p.portNo := by
  unfold Port.addPeer
  split <;> rfl

@[simp] theorem removePeer_portNo (me : PeerPort) (p : Port) :
    (p.removePeer me).portNo = p.portNo := by
  unfold Port.removePeer
  split <;> rfl

theorem getPort_ok (h : getPort a s = (.ok p, s')) : s.portAt a = some p ∧ s' = s := by
  unfold getPort at h
  split at h
  · next q hq =>
    cases h
    exact ⟨hq, rfl⟩
  · split at h <;> cases h

theorem getPort_of_portAt (h : s.portAt a = some p) : getPort a s = (.ok p, s) := by
  unfold getPort
  rw [h]

theorem getPort_error (h : s.portAt a = none) :
    ∃ text, getPort a s = (.error (.keyError text), s) := by
  unfold getPort
  rw [h]
  dsimp only
  split
  · exact ⟨_, rfl⟩
  · exact ⟨_, rfl⟩

open PortStore

theorem updatePort_of_portAt {q : Port} (h : s.portAt a = some q) (hkey : a.portNo = p.portNo) :
    updatePort a p s = (.ok (), s.set a p hkey (known_of_portAt h)) := by
  unfold updatePort
  rw [dif_pos (known_of_portAt h), if_neg (by rw [h]; simp), dif_pos hkey]

/-- The loop over the peers, if it returns: every peer was there, and each record has been rewritten
once per mention. -/
theorem editPeers_ok {edit : Port → Port} (hedit : ∀ p, (edit p).portNo = p.portNo)
    {peers : List PeerPort} :
    ∀ {s s' : PortStore}, editPeers edit peers s = (.ok (), s') →
      (∀ b ∈ peers, (s.portAt b).isSome) ∧
        ∀ b, s'.portAt b = (s.portAt b).map (edit^[peers.count b]) := by
  induction peers with
  | nil =>
    intro s s' h
    cases h
    refine ⟨nofun, fun b => ?_⟩
    simp
  | cons a peers ih =>
    intro s s' h
    rw [editPeers, foldlM_cons] at h
    obtain ⟨⟨⟩, s₁, hhead, htail⟩ := bind_eq_ok h
    obtain ⟨q, s₀, hget, hupdate⟩ := bind_eq_ok hhead
    obtain ⟨hq, rfl⟩ := getPort_ok hget
    have hkey : a.portNo = (edit q).portNo := by
      rw [hedit]
      exact portNo_of_portAt hq
    rw [updatePort_of_portAt hq hkey] at hupdate
    cases hupdate
    obtain ⟨hsome, hat⟩ := ih htail
    refine ⟨?_, fun b => ?_⟩
    · intro b hb
      rcases mem_cons.mp hb with rfl | hb
      · rw [hq]
        rfl
      · have := hsome b hb
        rw [portAt_set] at this
        split at this
        · next hba =>
          rw [hba, hq]
          rfl
        · exact this
    · rw [hat, portAt_set]
      by_cases hba : b = a
      · subst hba
        rw [if_pos rfl, hq, count_cons_self, Option.map_some, Option.map_some,
          Function.iterate_succ_apply]
      · rw [if_neg hba, count_cons_of_ne (Ne.symm hba)]

/-- `_make_up_to_date`, if it returns: the record is there. -/
theorem makeUpToDate_ok (h : makeUpToDate d p s = (.ok (), s')) (b : PeerPort) :
    s'.portAt b = if b = ⟨d, p.portNo⟩ then some p else s.portAt b := by
  rw [makeUpToDate, exceptOn] at h
  rcases hq : s.portAt ⟨d, p.portNo⟩ with _ | q
  · obtain ⟨text, hget⟩ := getPort_error hq
    rw [bind_of_error hget] at h
    simp only [Err.isKeyError, if_true] at h
    unfold insertPort at h
    split at h
    · rw [if_neg (by rw [hq]; simp)] at h
      cases h
      exact portAt_set ..
    · cases h
  · rw [bind_of_ok (getPort_of_portAt hq), updatePort_of_portAt hq rfl] at h
    cases h
    exact portAt_set ..

/-- `_remove_node`, if it returns: the record is not there. -/
theorem removeNode_ok {n : ℕ} (h : removeNode d n s = (.ok (), s')) (b : PeerPort) :
    s'.portAt b = if b = ⟨d, n⟩ then none else s.portAt b := by
  rw [removeNode, exceptOn] at h
  rcases hq : s.portAt ⟨d, n⟩ with _ | q
  · obtain ⟨text, hget⟩ := getPort_error hq
    rw [bind_of_error hget] at h
    cases h
    split
    · next hb => rw [hb, hq]
    · rfl
  · have hremove : removePort ⟨d, n⟩ s = (.ok (), s.erase ⟨d, n⟩) := by
      unfold removePort
      rw [if_pos (known_of_portAt hq), if_neg (by rw [hq]; simp)]
    rw [bind_of_ok (getPort_of_portAt hq), hremove] at h
    cases h
    exact portAt_erase ..

/-- **`add_port`, if it returns**: the peers were there and list the port, and the record of the
port is the given one. -/
theorem addPort_spec {port : Port} (h : addPort d port s = (.ok (), s')) :
    (∀ b ∈ port.peers, (s.portAt b).isSome) ∧
      ∀ b, s'.portAt b = if b = ⟨d, port.portNo⟩ then some { port with deviceId := d }
        else (s.portAt b).map ((Port.addPeer ⟨d, port.portNo⟩)^[port.peers.count b]) := by
  obtain ⟨⟨⟩, s₁, hadd, hmake⟩ := bind_eq_ok h
  obtain ⟨hsome, hat⟩ := editPeers_ok (addPeer_portNo _) hadd
  refine ⟨hsome, fun b => ?_⟩
  rw [makeUpToDate_ok hmake, hat]

/-- **`delete_port`, if it returns**: each mention of a peer has taken one entry for the port out of
the record of the peer, and the record of the port is gone. -/
theorem deletePort_spec {port : Port} (h : deletePort d port s = (.ok (), s')) :
    ∀ b, s'.portAt b = if b = ⟨d, port.portNo⟩ then none
      else (s.portAt b).map ((Port.removePeer ⟨d, port.portNo⟩)^[port.peers.count b]) := by
  obtain ⟨⟨⟩, s₁, hdel, hremove⟩ := bind_eq_ok h
  obtain ⟨-, hat⟩ := editPeers_ok (removePeer_portNo _) hdel
  intro b
  rw [removeNode_ok hremove, hat]

/-! ## What the edits do to the peers -/

theorem mem_addPeer {me x : PeerPort} : x ∈ (p.addPeer me).peers ↔ x ∈ p.peers ∨ x = me := by
  unfold Port.addPeer
  split
  · next hme =>
    constructor
    · exact .inl
    · rintro (hx | rfl)
      · exact hx
      · exact hme
  · simp

theorem mem_addPeer_iterate {me x : PeerPort} :
    ∀ n, x ∈ ((Port.addPeer me)^[n] p).peers ↔ x ∈ p.peers ∨ n ≠ 0 ∧ x = me
  | 0 => by simp
  | n + 1 => by
    rw [Function.iterate_succ_apply', mem_addPeer, mem_addPeer_iterate n]
    simp only [ne_eq, Nat.succ_ne_zero, not_false_eq_true, true_and]
    tauto

theorem count_removePeer {me x : PeerPort} :
    (p.removePeer me).peers.count x = if x = me then p.peers.count x - 1 else p.peers.count x := by
  unfold Port.removePeer
  split
  · split
    · next hx =>
      subst hx
      exact count_erase_self
    · next hx => exact count_erase_of_ne hx
  · next hme =>
    split
    · next hx =>
      subst hx
      rw [count_eq_zero_of_not_mem hme]
    · rfl

theorem count_removePeer_iterate {me x : PeerPort} :
    ∀ n, ((Port.removePeer me)^[n] p).peers.count x =
      if x = me then p.peers.count x - n else p.peers.count x
  | 0 => by simp
  | n + 1 => by
    rw [Function.iterate_succ_apply', count_removePeer, count_removePeer_iterate n]
    split
    · omega
    · rfl

/-! ## Symmetry -/

/-- Two stored ports list each other or neither does, and every listed port is stored. -/
structure PeersSymmetric (s : PortStore) : Prop where
  symm : ∀ a b p q, s.portAt a = some p → s.portAt b = some q → (b ∈ p.peers ↔ a ∈ q.peers)
  present : ∀ a p, s.portAt a = some p → ∀ b ∈ p.peers, (s.portAt b).isSome

theorem PeersSymmetric.empty (h : s.ports = []) : PeersSymmetric s := by
  have hnone : ∀ a, s.portAt a = none := by
    intro a
    rw [portAt, h]
    rfl
  constructor
  · intro a b p q hp
    rw [hnone] at hp
    cases hp
  · intro a p hp
    rw [hnone] at hp
    cases hp

/-- Each listed port is there and lists back. -/
theorem peersSymmetric_iff :
    PeersSymmetric s ↔ ∀ a p, s.portAt a = some p → ∀ b ∈ p.peers,
      ∃ q, s.portAt b = some q ∧ a ∈ q.peers := by
  constructor
  · intro hs a p hp b hb
    obtain ⟨q, hq⟩ := Option.isSome_iff_exists.mp (hs.present a p hp b hb)
    exact ⟨q, hq, (hs.symm a b p q hp hq).mp hb⟩
  · intro h
    have hback : ∀ a b p q, s.portAt a = some p → s.portAt b = some q → b ∈ p.peers →
        a ∈ q.peers := by
      intro a b p q hp hq hb
      obtain ⟨q', hq', ha⟩ := h a p hp b hb
      rw [hq] at hq'
      cases hq'
      exact ha
    refine ⟨fun a b p q hp hq => ⟨hback a b p q hp hq, hback b a q p hq hp⟩, ?_⟩
    intro a p hp b hb
    obtain ⟨q, hq, -⟩ := h a p hp b hb
    exact Option.isSome_iff_exists.mpr ⟨q, hq⟩

/-- A call of the agent. -/
inductive PortCall where
  | add (deviceId : String) (port : Port)
  | delete (deviceId : String) (port : Port)
  deriving DecidableEq, Repr

/-- Make a call. -/
def PortCall.run : PortCall → Act PortStore Err Unit
  | .add deviceId port => addPort deviceId port
  | .delete deviceId port => deletePort deviceId port

/-- The store after a call. -/
def PortStore.after (s : PortStore) (c : PortCall) : PortStore := (c.run s).2

/-- The call returns normally. -/
def PortCall.Normal (s : PortStore) (c : PortCall) : Prop := (c.run s).1 = .ok ()

/-- An `add` names all other ports that its record listed so far; the port of a `delete` names
every other port as often as that port lists it. -/
def PortCall.Fits (s : PortStore) : PortCall → Prop
  | .add deviceId port =>
    ∀ e ∈ s.ports, e.1 = ⟨deviceId, port.portNo⟩ →
      ∀ b ∈ e.2.peers, b ≠ ⟨deviceId, port.portNo⟩ → b ∈ port.peers
  | .delete deviceId port =>
    ∀ e ∈ s.ports, e.1 ≠ ⟨deviceId, port.portNo⟩ →
      e.2.peers.count ⟨deviceId, port.portNo⟩ ≤ port.peers.count e.1

instance (s : PortStore) (c : PortCall) : Decidable (c.Normal s) :=
  inferInstanceAs (Decidable (_ = _))

instance (s : PortStore) : ∀ c : PortCall, Decidable (c.Fits s)
  | .add .. => inferInstanceAs (Decidable (∀ e ∈ s.ports, _))
  | .delete .. => inferInstanceAs (Decidable (∀ e ∈ s.ports, _))

/-! ## One call -/

section Calls

variable {s s' : PortStore} {d : String} {port : Port}

section

variable (hs : PeersSymmetric s) (h : addPort d port s = (.ok (), s'))
include hs h

/-- An `add` that names all other ports that the record listed so far keeps the symmetry. -/
theorem PeersSymmetric.addPort (hfits : (PortCall.add d port).Fits s) : PeersSymmetric s' := by
  rw [peersSymmetric_iff] at hs ⊢
  obtain ⟨hsome, hat⟩ := addPort_spec h
  have hself : s'.portAt ⟨d, port.portNo⟩ = some { port with deviceId := d } := by
    rw [hat, if_pos rfl]
  -- a record that named `x` still does, and it names the port if the port names it
  have hother : ∀ {b q} (x : PeerPort), b ≠ ⟨d, port.portNo⟩ → s.portAt b = some q →
      x ∈ q.peers ∨ b ∈ port.peers ∧ x = ⟨d, port.portNo⟩ →
      ∃ q', s'.portAt b = some q' ∧ x ∈ q'.peers := by
    intro b q x hne hq hx
    refine ⟨_, by rw [hat, if_neg hne, hq]; rfl, (mem_addPeer_iterate _).mpr ?_⟩
    refine hx.imp_right ?_
    rintro ⟨hb, rfl⟩
    exact ⟨Nat.ne_of_gt (count_pos_iff.mpr hb), rfl⟩
  intro a p' hp' b hb
  by_cases ha : a = ⟨d, port.portNo⟩
  · subst ha
    rw [hself] at hp'
    cases hp'
    by_cases hbme : b = ⟨d, port.portNo⟩
    · subst hbme
      exact ⟨_, hself, hb⟩
    · obtain ⟨q, hq⟩ := Option.isSome_iff_exists.mp (hsome b hb)
      exact hother _ hbme hq (.inr ⟨hb, rfl⟩)
  · rw [hat, if_neg ha] at hp'
    obtain ⟨p, hp, rfl⟩ := Option.map_eq_some_iff.mp hp'
    rcases (mem_addPeer_iterate _).mp hb with hb | ⟨hcount, rfl⟩
    · obtain ⟨q, hq, haq⟩ := hs a p hp b hb
      by_cases hbme : b = ⟨d, port.portNo⟩
      · subst hbme
        exact ⟨_, hself, hfits _ (portAt_eq_some.mp hq) rfl a haq ha⟩
      · exact hother a hbme hq (.inl haq)
    · exact ⟨_, hself, count_pos_iff.mp (Nat.pos_of_ne_zero hcount)⟩

/-- An `add` that keeps the symmetry leaves out no other port that the record listed: that port
still lists this one. -/
theorem fits_of_addPort (hs' : PeersSymmetric s') : (PortCall.add d port).Fits s := by
  obtain ⟨-, hat⟩ := addPort_spec h
  rintro ⟨a, p⟩ he rfl b hb hne
  obtain ⟨q, hq, hme⟩ :=
    peersSymmetric_iff.mp hs _ p (portAt_eq_some.mpr he) b hb
  have hq' : s'.portAt b =
      some ((Port.addPeer ⟨d, port.portNo⟩)^[port.peers.count b] q) := by
    rw [hat, if_neg hne, hq]
    rfl
  obtain ⟨r, hr, hbr⟩ :=
    peersSymmetric_iff.mp hs' b _ hq' _ ((mem_addPeer_iterate _).mpr (.inl hme))
  rw [hat, if_pos rfl] at hr
  cases hr
  exact hbr

end

/-- A `delete` that names every other port as often as it is listed there keeps the symmetry. -/
theorem PeersSymmetric.deletePort (hs : PeersSymmetric s) (h : deletePort d port s = (.ok (), s'))
    (hfits : (PortCall.delete d port).Fits s) : PeersSymmetric s' := by
  rw [peersSymmetric_iff] at hs ⊢
  have hat := deletePort_spec h
  intro a p' hp' b hb
  rw [hat] at hp'
  split at hp'
  · cases hp'
  · next ha =>
    obtain ⟨p, hp, rfl⟩ := Option.map_eq_some_iff.mp hp'
    have hle : p.peers.count ⟨d, port.portNo⟩ ≤ port.peers.count a :=
      hfits _ (portAt_eq_some.mp hp) ha
    have hpos := count_pos_iff.mpr hb
    rw [count_removePeer_iterate] at hpos
    split at hpos
    · next hbme =>
      subst hbme
      omega
    · next hbme =>
      obtain ⟨q, hq, haq⟩ := hs a p hp b (count_pos_iff.mp hpos)
      refine ⟨_, by rw [hat, if_neg hbme, hq]; rfl, count_pos_iff.mp ?_⟩
      rw [count_removePeer_iterate, if_neg ha]
      exact count_pos_iff.mpr haq

/-- A `delete` that names a port less often than it is listed there leaves an entry for a port that
is gone. -/
theorem fits_of_deletePort (h : deletePort d port s = (.ok (), s')) (hs' : PeersSymmetric s') :
    (PortCall.delete d port).Fits s := by
  have hat := deletePort_spec h
  rintro ⟨b, q⟩ he hne
  dsimp only at hne ⊢
  by_contra hlt
  have hq' : s'.portAt b =
      some ((Port.removePeer ⟨d, port.portNo⟩)^[port.peers.count b] q) := by
    rw [hat, if_neg hne, portAt_eq_some.mpr he]
    rfl
  have hpos : 0 < ((Port.removePeer ⟨d, port.portNo⟩)^[port.peers.count b] q).peers.count
      ⟨d, port.portNo⟩ := by
    rw [count_removePeer_iterate, if_pos rfl]
    omega
  have := hs'.present b _ hq' _ (count_pos_iff.mp hpos)
  rw [hat, if_pos rfl] at this
  cases this

end Calls

variable {c : PortCall}

/-- **A call that returns keeps the symmetry exactly if it fits.** -/
theorem PeersSymmetric.after_iff (hs : PeersSymmetric s) (hnormal : c.Normal s) :
    PeersSymmetric (s.after c) ↔ c.Fits s := by
  have hrun : c.run s = (.ok (), s.after c) := Prod.ext hnormal rfl
  cases c with
  | add d port => exact ⟨fits_of_addPort hs hrun, hs.addPort hrun⟩
  | delete d port => exact ⟨fits_of_deletePort hrun, hs.deletePort hrun⟩

/-! ## Clearing the peers of a device -/

/-- Each round takes one item out and moves on by one, so half of what is left stays. -/
theorem removeEachFrom_length :
    ∀ {rounds i : ℕ} {peers : List PeerPort}, peers.length ≤ rounds + i → i ≤ peers.length →
      (removeEachFrom rounds i peers).length = (peers.length + i) / 2
  | 0, i, peers, hrounds, hi => by
    rw [removeEachFrom]
    omega
  | rounds + 1, i, peers, hrounds, hi => by
    rw [removeEachFrom]
    split
    · next peer hpeer =>
      have hlt : i < peers.length := (List.getElem?_eq_some_iff.mp hpeer).1
      have hlen := length_erase_of_mem (mem_of_getElem? hpeer)
      by_cases hmore : i + 1 ≤ (peers.erase peer).length
      · rw [removeEachFrom_length (by omega) hmore]
        omega
      · have hstop : (peers.erase peer)[i + 1]? = none := by
          rw [List.getElem?_eq_none_iff]
          omega
        have hdone : removeEachFrom rounds (i + 1) (peers.erase peer) = peers.erase peer := by
          cases rounds with
          | zero => rfl
          | succ n => rw [removeEachFrom, hstop]
        rw [hdone]
        omega
    · next hnone =>
      have hge := getElem?_eq_none_iff.mp hnone
      omega

/-- **Removing the items of a list while walking it leaves half of them.** -/
theorem removeEach_length (peers : List PeerPort) : (removeEach peers).length = peers.length / 2 :=
  removeEachFrom_length (by omega) (Nat.zero_le _)

theorem removeEach_eq_nil {peers : List PeerPort} : removeEach peers = [] ↔ peers.length ≤ 1 := by
  rw [← length_eq_zero_iff, removeEach_length]
  omega

/-- The record of a port after its turn in `delete_all_peer_references`. -/
def Port.cleared (p : Port) : Port := { p with peers := removeEach p.peers }

/-- The loop of `delete_all_peer_references`, over ports that are there. -/
theorem clearLoop {ports : List Port} (hnodup : (ports.map Port.portNo).Nodup) :
    ∀ {s : PortStore}, (∀ p ∈ ports, s.portAt ⟨d, p.portNo⟩ = some p) →
      wp (ports.foldlM (fun _ port => updatePort ⟨d, port.portNo⟩ port.cleared) ()) s
        fun _ s' => ∀ b, s'.portAt b = if ∃ p ∈ ports, b = ⟨d, p.portNo⟩ then
          (s.portAt b).map Port.cleared else s.portAt b := by
  induction ports with
  | nil =>
    intro s _ b
    rw [if_neg]
    · rfl
    · rintro ⟨_, ⟨⟩, _⟩
  | cons p ports ih =>
    intro s hat
    rw [map_cons, nodup_cons] at hnodup
    rw [forall_mem_cons] at hat
    have hfresh : ∀ p' ∈ ports, (⟨d, p'.portNo⟩ : PeerPort) ≠ ⟨d, p.portNo⟩ := by
      intro p' hp' heq
      exact hnodup.1 (mem_map.mpr ⟨p', hp', (PeerPort.mk.inj heq).2⟩)
    have hkey : (⟨d, p.portNo⟩ : PeerPort).portNo = p.cleared.portNo := rfl
    rw [foldlM_cons, wp_bind, wp_def, updatePort_of_portAt hat.1 hkey, seqPost_ok]
    dsimp only
    refine wp_mono (ih hnodup.2 fun p' hp' => ?_) fun _ s' hs' b => ?_
    · rw [portAt_set, if_neg (hfresh p' hp')]
      exact hat.2 p' hp'
    · rw [hs', portAt_set]
      simp only [mem_cons, exists_eq_or_imp]
      by_cases hb : b = ⟨d, p.portNo⟩
      · subst hb
        rw [if_neg, if_pos rfl, if_pos (.inl rfl), hat.1]
        · rfl
        · rintro ⟨p', hp', heq⟩
          exact hfresh p' hp' heq.symm
      · simp only [hb, if_false, false_or]

/-- No port of the device has a peer. -/
def PortStore.Cleared (s : PortStore) (d : String) : Prop :=
  ∀ e ∈ s.ports, e.1.deviceId = d → e.2.peers = []

instance (s : PortStore) (d : String) : Decidable (s.Cleared d) :=
  inferInstanceAs (Decidable (∀ e ∈ s.ports, _))

/-- The ports of a device, as `get_ports` returns them. -/
theorem mem_portsOf :
    p ∈ (s.ports.filter fun e => e.1.deviceId = d).map Prod.snd ↔
      s.portAt ⟨d, p.portNo⟩ = some p := by
  rw [portAt_eq_some, mem_map]
  constructor
  · rintro ⟨⟨a, q⟩, he, rfl⟩
    obtain ⟨hmem, hd⟩ := mem_filter.mp he
    have hkey : a.portNo = q.portNo := s.keyed _ hmem
    have hd : a.deviceId = d := of_decide_eq_true hd
    rw [← hkey, ← hd]
    exact hmem
  · intro hmem
    exact ⟨_, mem_filter.mpr ⟨hmem, decide_eq_true rfl⟩, rfl⟩

theorem nodup_portsOf (s : PortStore) (d : String) :
    (((s.ports.filter fun e => e.1.deviceId = d).map Prod.snd).map Port.portNo).Nodup := by
  have haddr : ∀ e ∈ s.ports.filter (fun e => e.1.deviceId = d),
      e.1 = (⟨d, e.2.portNo⟩ : PeerPort) := by
    intro e he
    obtain ⟨hmem, hd⟩ := mem_filter.mp he
    rw [← s.keyed e hmem, ← of_decide_eq_true hd]
  have hfst : (s.ports.filter fun e => e.1.deviceId = d).map Prod.fst =
      (((s.ports.filter fun e => e.1.deviceId = d).map Prod.snd).map Port.portNo).map
        (PeerPort.mk d) := by
    rw [map_map, map_map]
    exact map_congr_left haddr
  refine Nodup.of_map (PeerPort.mk d) ?_
  rw [← hfst]
  exact s.nodup.sublist (filter_sublist.map _)

/-- Every port of the device has its turn. -/
theorem portAt_deleteAll (s : PortStore) (d : String) (a : PeerPort) :
    (deleteAllPeerReferences d s).2.portAt a =
      if a.deviceId = d then (s.portAt a).map Port.cleared else s.portAt a := by
  by_cases hd : d ∈ s.devices
  · have hrun : deleteAllPeerReferences d s = _ :=
      bind_of_ok (show getPorts d s = (.ok _, s) from if_pos hd)
    rw [hrun]
    refine (clearLoop (d := d) (nodup_portsOf s d) (fun p hp => mem_portsOf.mp hp) a).trans ?_
    by_cases ha : a.deviceId = d
    · rw [if_pos ha]
      rcases hp : s.portAt a with _ | p
      · exact ite_self _
      · have haddr : a = ⟨d, p.portNo⟩ := by rw [← ha, ← portNo_of_portAt hp]
        exact if_pos ⟨p, mem_portsOf.mpr (haddr ▸ hp), haddr⟩
    · rw [if_neg ha, if_neg]
      rintro ⟨p, -, rfl⟩
      exact ha rfl
  · have hrun : deleteAllPeerReferences d s =
        (.error (.keyError s!"key id={d} not found"), s) :=
      bind_of_error (if_neg hd)
    rw [hrun]
    rcases hp : s.portAt a with _ | p
    · exact (ite_self _).symm
    · have ha : a.deviceId ≠ d := fun ha => hd (ha ▸ known_of_portAt hp)
      rw [if_neg ha]

/-- **`delete_all_peer_references` leaves no peer exactly if no port of the device had more than
one.** -/
theorem cleared_deleteAll_iff (s : PortStore) (d : String) :
    (deleteAllPeerReferences d s).2.Cleared d ↔
      ∀ e ∈ s.ports, e.1.deviceId = d → e.2.peers.length ≤ 1 := by
  simp only [PortStore.Cleared, Prod.forall, ← portAt_eq_some, portAt_deleteAll]
  refine forall_congr' fun a => ?_
  by_cases ha : a.deviceId = d
  · simp [ha, Port.cleared, removeEach_eq_nil]
  · simp [ha]

/-! ## Runs -/

/-- **Port peers.**  Take a run of calls that return normally, from a store with symmetric peers.
The peers are symmetric after every call exactly if each `add` names all other ports that its
record listed so far, and the port of each `delete` names every other port as often as it is listed
there.  From any state of the run, `delete_all_peer_references` leaves the ports of a device without
peers exactly if each of them had at most one. -/
theorem port_peers_symmetric_iff {s : PortStore} (hs : PeersSymmetric s) {calls : List PortCall}
    (hnormal : AllAlong after (fun s c => c.Normal s) s calls) :
    (AllAlong after (fun s c => c.Fits s) s calls ↔
      ∀ l, l <+: calls → PeersSymmetric (l.foldl after s)) ∧
    ∀ l, l <+: calls → ∀ d,
      ((deleteAllPeerReferences d (l.foldl after s)).2.Cleared d ↔
        ∀ e ∈ (l.foldl after s).ports, e.1.deviceId = d → e.2.peers.length ≤ 1) := by
  refine ⟨?_, fun l _ d => cleared_deleteAll_iff _ d⟩
  refine allAlong_iff_of (fun _ h => h) ?_ ?_ hs hnormal
  · exact fun s c hs hn hf => (hs.after_iff hn).2 hf
  · exact fun s c hs hn hf => mt (hs.after_iff hn).1 hf

namespace Sample

/-- An OLT with one PON port and the two ONUs behind it, without ports yet. -/
def bare : PortStore where
  devices := ["olt", "onu1", "onu2"]
  ports := []
  nodup := nodup_nil
  keyed := nofun
  known := nofun

/-- The PON port of the OLT, as `OpenoltDevice.add_port` builds it: without peers. -/
def ponOlt : Port := { portNo := 1, label := "pon-1", type := .ponOlt, adminState := .enabled }

/-- The PON port of an ONU. -/
def ponOnu : Port :=
  { portNo := 100, label := "PON port", type := .ponOnu, adminState := .enabled,
    peers := [⟨"olt", 1⟩] }

/-- Both ONUs come up, and the second one goes. -/
def bringUp : List PortCall :=
  [.add "olt" ponOlt, .add "onu1" ponOnu, .add "onu2" ponOnu, .delete "onu2" ponOnu]

end Sample

open Sample

theorem port_peers_symmetric_iff_sample :
    (∀ l, l <+: bringUp → PeersSymmetric (l.foldl after bare)) ∧
      (deleteAllPeerReferences "olt" (bringUp.foldl after bare)).2.Cleared
        "olt" := by
  have hnormal : AllAlong after (fun s c => c.Normal s) bare bringUp := by
    decide +kernel
  have h := port_peers_symmetric_iff (PeersSymmetric.empty rfl) hnormal
  refine ⟨h.1.mp (by decide +kernel), ?_⟩
  exact (h.2 _ (prefix_refl _) "olt").mpr (by decide +kernel)

/-- The OLT reports its interface again, and the port is built afresh, without peers: the ONU still
lists it.  And with two ONUs, one peer is left after all have been removed. -/
theorem readded_port_loses_peers :
    (∃ calls : List PortCall,
      AllAlong after (fun s c => c.Normal s) bare calls ∧
        ¬ PeersSymmetric (calls.foldl after bare)) ∧
    ∃ calls : List PortCall,
      AllAlong after (fun s c => c.Normal s) bare calls ∧
        ((deleteAllPeerReferences "olt" (calls.foldl after bare)).2.portAt
          ⟨"olt", 1⟩).map Port.peers = some [⟨"onu2", 100⟩] := by
  constructor
  · refine ⟨[.add "olt" ponOlt, .add "onu1" ponOnu, .add "olt" ponOlt],
      by decide +kernel, fun h => ?_⟩
    have hlists := (h.symm ⟨"olt", 1⟩ ⟨"onu1", 100⟩ { ponOlt with deviceId := "olt" }
      { ponOnu with deviceId := "onu1" } (by decide +kernel) (by decide +kernel)).mpr
      (by decide)
    exact absurd hlists (by decide)
  · exact ⟨[.add "olt" ponOlt, .add "onu1" ponOnu, .add "onu2" ponOnu],
      by decide +kernel, by decide +kernel⟩

end Voltha.Core
