import Mathlib

/-!
# The VLAN actions of the simulator in Go

`PonSimDevice.processActions` keeps a packet of `gopacket`: its bytes, and the layers that were
decoded from them.  Push, pop and the setting of a VID build new bytes and decode them.  The setting
of a VID copies the types of the tag and leaves its PCP and DEI at zero.  The setting of a PCP
writes to the decoded layer only, so it is not in the bytes.

* `processActions_frame`: what the bytes are, from the history of each tag of the stack.
* `processActions_bytes_iff`: **the bytes are those of the tag stack semantics exactly if the PCP
  and DEI of each tag that is left would have been what they are without the set actions: zero if a
  set-VID has met the tag, and those it came with otherwise**.
-/

namespace Voltha.Ponsim

open List

/-! ## Frames -/

/-- The types that announce a VLAN tag, and that OpenFlow allows in a push. -/
inductive Tpid
  | dot1Q
  | qinQ
  deriving DecidableEq

def Tpid.number : Tpid → ℕ
  | .dot1Q => 0x8100
  | .qinQ => 0x88a8

/-- A VLAN tag with the type that announces it. -/
structure VlanTag where
  tpid : Tpid
  pcp : Fin 8
  dei : Bool
  vid : Fin 4096
  deriving DecidableEq

structure EthernetFrame where
  dstMac : List ℕ
  srcMac : List ℕ
  tags : List VlanTag
  ethernetType : ℕ
  payload : List ℕ

/-- The two octets of a number. -/
def word (n : ℕ) : List ℕ := [n / 256, n % 256]

def VlanTag.octets (t : VlanTag) : List ℕ :=
  word t.tpid.number ++ word (t.pcp * 8192 + t.dei.toNat * 4096 + t.vid)

def EthernetFrame.bytes (f : EthernetFrame) : List ℕ :=
  f.dstMac ++ f.srcMac ++ f.tags.flatMap VlanTag.octets ++ word f.ethernetType ++ f.payload

theorem VlanTag.octets_injective : Function.Injective VlanTag.octets := by
  rintro ⟨tpid, pcp, dei, vid⟩ ⟨tpid', pcp', dei', vid'⟩ h
  simp only [octets, word, cons_append, nil_append, cons.injEq, and_true] at h
  obtain ⟨htpid, htpid', hhigh, hlow⟩ := h
  have hvid := vid.isLt
  have hvid' := vid'.isLt
  have hpcpBound := pcp.isLt
  have hpcpBound' := pcp'.isLt
  have hdei := dei.toNat_le
  have hdei' := dei'.toNat_le
  have htag : pcp.val = pcp'.val ∧ dei.toNat = dei'.toNat ∧ vid.val = vid'.val := by omega
  obtain rfl : tpid = tpid' := by
    cases tpid <;> cases tpid' <;> simp [Tpid.number] at htpid <;> rfl
  obtain rfl : dei = dei' := by
    have hbit := htag.2.1
    revert hbit
    cases dei <;> cases dei' <;> decide
  rw [Fin.ext htag.1, Fin.ext htag.2.2]

/-- Two stacks of the same height have the same octets only if their tags are the same. -/
theorem flatMap_octets_eq_iff {α : Type} (p q : α → VlanTag) (l : List α) :
    (l.map p).flatMap VlanTag.octets = (l.map q).flatMap VlanTag.octets ↔
      ∀ a ∈ l, p a = q a := by
  induction l with
  | nil => simp
  | cons a l ih =>
    rw [map_cons, map_cons, flatMap_cons, flatMap_cons, forall_mem_cons, ← ih]
    constructor
    · intro h
      obtain ⟨hhead, htail⟩ := append_inj h (by
        simp only [VlanTag.octets, word, length_append, length_cons])
      exact ⟨VlanTag.octets_injective hhead, htail⟩
    · rintro ⟨hhead, htail⟩
      rw [hhead, htail]

/-! ## The code -/

inductive VlanAction
  | output (port : ℕ)
  | popVlan
  | pushVlan (ethertype : Tpid)
  | setVlanVid (vlanVid : ℕ)
  | setVlanPcp (vlanPcp : ℕ)

/-- A packet: the frame that its bytes are decoded to, and the `Priority` of the decoded outermost
VLAN layer, which can be written without the bytes. -/
structure Packet where
  frame : EthernetFrame
  priority : Option ℕ

def newPacket (f : EthernetFrame) : Packet where
  frame := f
  priority := f.tags.head?.map fun shim => shim.pcp

/-- An action of `processActions`, from the egress port and the packet so far. -/
def processAction (s : ℕ × Packet) : VlanAction → ℕ × Packet
  | .output port => (port, s.2)
  | .popVlan => match s.2.frame.tags with
    | [] => s
    | _ :: tags => (s.1, newPacket { s.2.frame with tags := tags })
  | .pushVlan ethertype =>
    (s.1, newPacket { s.2.frame with tags := ⟨ethertype, 0, false, 0⟩ :: s.2.frame.tags })
  | .setVlanVid vlanVid => match s.2.frame.tags with
    | [] => s
    | shim :: tags =>
      -- the new layer has the type and the VID only
      (s.1, newPacket { s.2.frame with
        tags := ⟨shim.tpid, 0, false, Fin.ofNat 4096 vlanVid⟩ :: tags })
  | .setVlanPcp vlanPcp =>
    (s.1, { s.2 with priority := s.2.priority.map fun _ => vlanPcp % 256 })

/-- `PonSimDevice.processActions`: the egress port and the packet that is returned. -/
def processActions (actions : List VlanAction) (frame : Packet) : ℕ × Packet :=
  actions.foldl processAction (0, frame)

/-! ## The tag stack semantics -/

/-- What OpenFlow says of an action, on the stack of tags. -/
def VlanAction.onTags (tags : List VlanTag) : VlanAction → List VlanTag
  | .output _ => tags
  | .popVlan => tags.tail
  | .pushVlan ethertype => ⟨ethertype, 0, false, 0⟩ :: tags
  | .setVlanVid vlanVid => tags.modifyHead fun t => { t with vid := Fin.ofNat 4096 vlanVid }
  | .setVlanPcp vlanPcp => tags.modifyHead fun t => { t with pcp := Fin.ofNat 8 vlanPcp }

def afterActions (actions : List VlanAction) (f : EthernetFrame) : EthernetFrame :=
  { f with tags := actions.foldl VlanAction.onTags f.tags }

/-! ## Histories -/

/-- A tag of the stack: with the PCP and DEI it came with and its VID now, whether a set-VID has
met it, and the last PCP it was to have. -/
structure TagHistory where
  tag : VlanTag
  vidSet : Bool
  pcpSet : Option (Fin 8)

namespace TagHistory

/-- A tag that no set action has met. -/
def fresh (t : VlanTag) : TagHistory := ⟨t, false, none⟩

def record (hs : List TagHistory) : VlanAction → List TagHistory
  | .output _ => hs
  | .popVlan => hs.tail
  | .pushVlan ethertype => fresh ⟨ethertype, 0, false, 0⟩ :: hs
  | .setVlanVid vlanVid => hs.modifyHead fun h =>
    { h with tag := { h.tag with vid := Fin.ofNat 4096 vlanVid }, vidSet := true }
  | .setVlanPcp vlanPcp => hs.modifyHead fun h => { h with pcpSet := some (Fin.ofNat 8 vlanPcp) }

/-- The tag that the actions ask for. -/
def wanted (h : TagHistory) : VlanTag := { h.tag with pcp := h.pcpSet.getD h.tag.pcp }

/-- The tag in the bytes. -/
def coded (h : TagHistory) : VlanTag :=
  if h.vidSet then { h.tag with pcp := 0, dei := false } else h.tag

/-- The set actions that have met a tag ask for what the code leaves in it. -/
def Undamaged (h : TagHistory) : Prop :=
  if h.vidSet then h.pcpSet.getD h.tag.pcp = 0 ∧ h.tag.dei = false
  else h.pcpSet.getD h.tag.pcp = h.tag.pcp

theorem coded_eq_wanted_iff (h : TagHistory) : h.coded = h.wanted ↔ h.Undamaged := by
  obtain ⟨⟨tpid, pcp, dei, vid⟩, vidSet, pcpSet⟩ := h
  cases vidSet with
  | false => simp [coded, wanted, Undamaged, eq_comm]
  | true => simp [coded, wanted, Undamaged, eq_comm]

theorem map_wanted_record (hs : List TagHistory) (a : VlanAction) :
    (record hs a).map wanted = a.onTags (hs.map wanted) := by
  cases a with
  | output => rfl
  | popVlan => exact map_tail
  | pushVlan => rfl
  | setVlanVid => cases hs <;> rfl
  | setVlanPcp => cases hs <;> rfl

end TagHistory

/-- The histories of the tags that are left, when the actions are done on a stack of tags. -/
def histories (actions : List VlanAction) (tags : List VlanTag) : List TagHistory :=
  actions.foldl TagHistory.record (tags.map TagHistory.fresh)

open TagHistory

theorem processAction_frame {f : EthernetFrame} {hs : List TagHistory} {s : ℕ × Packet}
    (h : s.2.frame = { f with tags := hs.map coded }) (a : VlanAction) :
    (processAction s a).2.frame = { f with tags := (record hs a).map coded } := by
  cases a with
  | output => exact h
  | popVlan => cases hs <;> simp [processAction, record, h, newPacket]
  | pushVlan => simp [processAction, record, h, newPacket, fresh, coded]
  | setVlanVid vlanVid =>
    cases hs with
    | nil => simp [processAction, record, h]
    | cons t hs =>
      have htpid : t.coded.tpid = t.tag.tpid := by
        unfold coded
        split <;> rfl
      simp only [processAction, h, map_cons, htpid]
      rfl
  | setVlanPcp vlanPcp =>
    -- the bytes stay, and so does the PCP that the tag came with
    refine h.trans ?_
    cases hs <;> rfl

theorem foldl_processAction_frame (actions : List VlanAction) {f : EthernetFrame} :
    ∀ {hs : List TagHistory} {s : ℕ × Packet}, s.2.frame = { f with tags := hs.map coded } →
      (actions.foldl processAction s).2.frame =
        { f with tags := (actions.foldl record hs).map coded } := by
  induction actions with
  | nil => exact fun h => h
  | cons a actions ih => exact fun h => ih (processAction_frame h a)

/-- **The frame after the actions.** -/
theorem processActions_frame (actions : List VlanAction) (f : EthernetFrame) :
    (processActions actions (newPacket f)).2.frame =
      { f with tags := (histories actions f.tags).map coded } := by
  refine foldl_processAction_frame actions ?_
  rw [map_map, show coded ∘ fresh = id from rfl, map_id]
  rfl

theorem foldl_onTags (actions : List VlanAction) (hs : List TagHistory) :
    actions.foldl VlanAction.onTags (hs.map wanted) = (actions.foldl record hs).map wanted := by
  induction actions generalizing hs with
  | nil => rfl
  | cons a actions ih => rw [foldl_cons, foldl_cons, ← map_wanted_record, ih]

/-- The tags that the semantics asks for. -/
theorem afterActions_tags (actions : List VlanAction) (f : EthernetFrame) :
    (afterActions actions f).tags = (histories actions f.tags).map wanted := by
  rw [histories, ← foldl_onTags, map_map, show wanted ∘ fresh = id from rfl, map_id]
  rfl

/-- **The bytes are those of the tag stack semantics exactly if no tag that is left is damaged.** -/
theorem processActions_bytes_iff (actions : List VlanAction) (f : EthernetFrame) :
    (processActions actions (newPacket f)).2.frame.bytes = (afterActions actions f).bytes ↔
      ∀ h ∈ histories actions f.tags, h.Undamaged := by
  have hbytes : (afterActions actions f).bytes =
      f.dstMac ++ f.srcMac ++ ((histories actions f.tags).map wanted).flatMap VlanTag.octets ++
        word f.ethernetType ++ f.payload := by
    rw [← afterActions_tags]
    rfl
  rw [processActions_frame, hbytes]
  simp only [EthernetFrame.bytes, append_assoc, append_cancel_left_eq]
  rw [← append_assoc, ← append_assoc, append_cancel_right_eq, append_cancel_right_eq,
    flatMap_octets_eq_iff]
  simp only [coded_eq_wanted_iff]

/-- A set-VID clears the PCP of the tag. -/
theorem set_vid_clears_pcp :
    let f : EthernetFrame := ⟨[0, 0, 0, 0, 0, 1], [0, 0, 0, 0, 0, 2], [⟨.dot1Q, 3, false, 7⟩],
      0x800, [69]⟩
    (processActions [.setVlanVid 5] (newPacket f)).2.frame.tags = [⟨.dot1Q, 0, false, 5⟩] ∧
      (afterActions [.setVlanVid 5] f).tags = [⟨.dot1Q, 3, false, 5⟩] ∧
      (processActions [.setVlanVid 5] (newPacket f)).2.frame.bytes ≠
        (afterActions [.setVlanVid 5] f).bytes := by
  decide

end Voltha.Ponsim
