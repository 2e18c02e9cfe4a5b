import Voltha.Lib.References
import Voltha.Lib.Run
import Voltha.Xpon.Effects

/-!
# References of the fiber configuration

References are checked when a message is created or updated, and a message is not deleted if others
refer to it.  The check is missing for channel pairs that v-ont-anis refer to.

* `NoDangling`: every reference of a stored message names a stored message.
* `Change`: what a request can do to the configuration, in terms of messages and their references.
* `step_change`: the requests do no more than that.
* `no_dangling_iff`: no reference dangles in all states of a run exactly if no channel pair is
  deleted that a v-ont-ani refers to.
-/

namespace Voltha.Xpon

open List KeyedList Message
open References (Named Closed)

/-- Every reference of a stored message names a stored message. -/
structure NoDangling (c : FiberConfig) : Prop where
  partitionGroup : ∀ x ∈ c.channelPartitions, x.channelgroupRef ∈ c.channelGroups.map (·.name)
  pairPartition : ∀ x ∈ c.channelPairs, x.channelpartitionRef ∈ c.channelPartitions.map (·.name)
  pairGroup : ∀ x ∈ c.channelPairs, x.channelgroupRef ≠ "" →
    x.channelgroupRef ∈ c.channelGroups.map (·.name)
  terminationPair : ∀ device ∈ c.devices, ∀ x ∈ device.channelTerminations,
    x.channelpairRef ∈ c.channelPairs.map (·.name)
  vOntAniPartition : ∀ x ∈ c.vOntAnis, x.parentRef ∈ c.channelPartitions.map (·.name)
  vOntAniPreferred : ∀ x ∈ c.vOntAnis, x.preferredChanpair ∈ c.channelPairs.map (·.name)
  vOntAniProtection : ∀ x ∈ c.vOntAnis, x.protectionChanpair ≠ "" →
    x.protectionChanpair ∈ c.channelPairs.map (·.name)
  vEnetVOntAni : ∀ x ∈ c.vEnets, x.vOntaniRef ∈ c.vOntAnis.map (·.name)
  tcontVOntAni : ∀ x ∈ c.tconts, x.interfaceReference ∈ c.vOntAnis.map (·.name)
  tcontProfile : ∀ x ∈ c.tconts,
    x.trafficDescriptorProfileRef ∈ c.trafficDescriptorProfiles.map (·.name)
  gemportVEnet : ∀ x ∈ c.gemports, x.itfRef ∈ c.vEnets.map (·.name)
  gemportTcont : ∀ x ∈ c.gemports, x.tcontRef ∈ c.tconts.map (·.name)

/-! ## Messages and their references -/

/-- The kinds of messages. -/
inductive Kind where
  | channelGroup
  | channelPartition
  | channelPair
  | channelTermination
  | ontAni
  | vOntAni
  | vEnet
  | trafficDescriptorProfile
  | tcont
  | gemport
  deriving DecidableEq

/-- A reference that may be left out. -/
def optionalRef (k : Kind) (reference : String) : List (Kind × String) :=
  if reference = "" then [] else [(k, reference)]

namespace Interface

def name : Interface → String
  | .channelGroup r => r.name
  | .channelPartition r => r.name
  | .channelPair r => r.name
  | .channelTermination r => r.name
  | .ontAni r => r.name
  | .vOntAni r => r.name
  | .vEnet r => r.name
  | .trafficDescriptorProfile r => r.name
  | .tcont r => r.name
  | .gemport r => r.name

/-- The references that a message holds. -/
def refs : Interface → List (Kind × String)
  | .channelGroup _ => []
  | .channelPartition r => [(.channelGroup, r.channelgroupRef)]
  | .channelPair r =>
    (.channelPartition, r.channelpartitionRef) :: optionalRef .channelGroup r.channelgroupRef
  | .channelTermination r => [(.channelPair, r.channelpairRef)]
  | .ontAni _ => []
  | .vOntAni r =>
    (.channelPartition, r.parentRef) :: (.channelPair, r.preferredChanpair) ::
      optionalRef .channelPair r.protectionChanpair
  | .vEnet r => [(.vOntAni, r.vOntaniRef)]
  | .trafficDescriptorProfile _ => []
  | .tcont r =>
    [(.vOntAni, r.interfaceReference), (.trafficDescriptorProfile, r.trafficDescriptorProfileRef)]
  | .gemport r => [(.vEnet, r.itfRef), (.tcont, r.tcontRef)]

/-- The references are without slashes. -/
def PlainRefs (x : Interface) : Prop := ∀ r ∈ x.refs, '/' ∉ r.2.toList

instance (x : Interface) : Decidable x.PlainRefs :=
  inferInstanceAs (Decidable (∀ r ∈ x.refs, '/' ∉ r.2.toList))

/-- The name and the references are without slashes. -/
def NoSlash (x : Interface) : Prop := '/' ∉ x.name.toList ∧ x.PlainRefs

instance (x : Interface) : Decidable x.NoSlash := inferInstanceAs (Decidable (_ ∧ _))

end Interface

/-- The name and the references of a request are without slashes. -/
def Request.NoSlash : Request → Prop
  | .create x => x.NoSlash
  | .update x => x.NoSlash
  | .delete x => x.NoSlash
  | .restart => True

instance : DecidablePred Request.NoSlash
  | .create x => inferInstanceAs (Decidable x.NoSlash)
  | .update x => inferInstanceAs (Decidable x.NoSlash)
  | .delete x => inferInstanceAs (Decidable x.NoSlash)
  | .restart => isTrue trivial

/-- The references of a request are without slashes. -/
def Request.PlainRefs : Request → Prop
  | .create x => x.PlainRefs
  | .update x => x.PlainRefs
  | .delete _ => True
  | .restart => True

instance : DecidablePred Request.PlainRefs
  | .create x => inferInstanceAs (Decidable x.PlainRefs)
  | .update x => inferInstanceAs (Decidable x.PlainRefs)
  | .delete _ => isTrue trivial
  | .restart => isTrue trivial

variable {request : Request} {r : Kind × String} {k : Kind} {name : String} {s : XponHandler}

theorem Request.NoSlash.plainRefs (h : request.NoSlash) : request.PlainRefs := by
  cases request with
  | create x => exact h.2
  | update x => exact h.2
  | delete x => exact trivial
  | restart => exact trivial

/-- The stored messages of each kind. -/
def messages (c : FiberConfig) : Kind → List Interface
  | .channelGroup => c.channelGroups.map .channelGroup
  | .channelPartition => c.channelPartitions.map .channelPartition
  | .channelPair => c.channelPairs.map .channelPair
  | .channelTermination => c.devices.flatMap (·.channelTerminations.map .channelTermination)
  | .ontAni => c.ontAnis.map .ontAni
  | .vOntAni => c.vOntAnis.map .vOntAni
  | .vEnet => c.vEnets.map .vEnet
  | .trafficDescriptorProfile => c.trafficDescriptorProfiles.map .trafficDescriptorProfile
  | .tcont => c.tconts.map .tcont
  | .gemport => c.gemports.map .gemport

/-- The references between kinds that are related by `P` name stored messages. -/
def RefsClosed (P : Kind → Kind → Prop) (c : FiberConfig) : Prop :=
  Closed Interface.name Interface.refs P (messages c)

theorem mem_optionalRef {reference : String} :
    r ∈ optionalRef k reference ↔ reference ≠ "" ∧ r = (k, reference) := by
  rw [optionalRef]
  split
  · next h => exact ⟨nofun, fun hr => absurd h hr.1⟩
  · next h => rw [mem_singleton]; exact ⟨fun hr => ⟨h, hr⟩, fun hr => hr.2⟩

/-- A reference names a stored message. -/
def Refers (c : FiberConfig) (r : Kind × String) : Prop := Named Interface.name (messages c) r

/-- A message that may be stored: it has a name, and its references are without slashes and name
stored messages. -/
structure Valid (c : FiberConfig) (x : Interface) : Prop where
  name : x.name ≠ ""
  plain : x.PlainRefs
  refs : ∀ r ∈ x.refs, Refers c r

/-! ## Changes of the configuration -/

/-- The names of the messages of a kind differ, except for channel terminations, which are named
within their devices. -/
def Distinct (c : FiberConfig) : Prop :=
  ∀ k, k ≠ .channelTermination → ((messages c k).map Interface.name).Nodup

/-- What a request can do to the configuration: new messages are valid, and where a message is not
there any more, no message refers to it from a kind that is related by `P`. -/
structure Change (P : Kind → Kind → Prop) (c c' : FiberConfig) : Prop where
  objects : ∀ k, ∀ o ∈ messages c' k, o ∈ messages c k ∨ Valid c o
  names : ∀ r, Refers c r → Refers c' r ∨ ∀ k, ∀ o ∈ messages c' k, r ∈ o.refs → ¬ P k r.1
  distinct : Distinct c → Distinct c'

variable {P : Kind → Kind → Prop} {c c' : FiberConfig}

theorem Change.refsClosed (h : Change P c c') (hc : RefsClosed P c) : RefsClosed P c' :=
  Closed.change hc (fun k o ho => (h.objects k o ho).imp_right Valid.refs) h.names

theorem Change.refl (c : FiberConfig) : Change P c c :=
  ⟨fun _ _ ho => .inl ho, fun _ hr => .inl hr, fun h => h⟩

open Change

theorem Change.of_eq {s' : XponHandler} (h : s' = s) : Change P s.config s'.config :=
  h ▸ refl _

/-- The collection has the messages of a kind. -/
structure Lawful {α : Type} [Message α] (coll : Collection α) (k : Kind) : Prop where
  items : ∀ c, messages c k = (coll.items c).map coll.interface
  put : ∀ c l k', messages (coll.put c l) k' =
    if k' = k then l.map coll.interface else messages c k'
  name : ∀ r, (coll.interface r).name = Message.name r
  keyed : k ≠ .channelTermination

section Collections

variable {α : Type} [Message α] {coll : Collection α} {k : Kind}

section

variable (h : Lawful coll k)
include h

theorem Lawful.map_name (l : List α) :
    (l.map coll.interface).map Interface.name = l.map Message.name := by
  rw [map_map]
  exact map_congr_left fun r _ => h.name r

/-- Names that stay in the collection stay in the configuration. -/
theorem Lawful.refers_put {l : List α} (hr : Refers c r)
    (hl : r.1 = k → r.2 ∈ l.map Message.name) : Refers (coll.put c l) r := by
  obtain ⟨o, ho, hname⟩ := hr
  by_cases hk : r.1 = k
  · obtain ⟨x, hx, hxname⟩ := mem_map.mp (hl hk)
    refine ⟨coll.interface x, ?_, (h.name x).trans hxname⟩
    rw [h.put, if_pos hk]
    exact mem_map_of_mem hx
  · refine ⟨o, ?_, hname⟩
    rw [h.put, if_neg hk]
    exact ho

/-- A reference to the kind of the collection names one of its messages. -/
theorem Lawful.refers : Refers c (k, name) ↔ name ∈ (coll.items c).map Message.name := by
  have hnames : (messages c k).map Interface.name = (coll.items c).map Message.name := by
    rw [h.items, h.map_name]
  rw [← hnames, mem_map]
  rfl

theorem Lawful.mem_names (hr : Refers c r) (hk : r.1 = k) :
    r.2 ∈ (coll.items c).map Message.name := h.refers.mp (hk ▸ hr)

theorem Lawful.distinct {l : List α}
    (hl : ((coll.items c).map Message.name).Nodup → (l.map Message.name).Nodup) (hc : Distinct c) :
    Distinct (coll.put c l) := by
  intro k' hk'
  rw [h.put]
  split
  · rw [h.map_name]
    refine hl ?_
    rw [← h.map_name, ← h.items]
    exact hc k h.keyed
  · exact hc k' hk'

theorem Change.added {r : α} (hnew : Message.name r ∉ (coll.items c).map Message.name)
    (hvalid : Valid c (coll.interface r)) :
    Change P c (coll.put c (coll.items c ++ [r])) where
  objects := fun k' o ho => by
    rw [h.put] at ho
    split at ho
    · next hk =>
      rw [map_append, mem_append, map_singleton, mem_singleton] at ho
      rcases ho with ho | rfl
      · exact .inl (by rw [hk, h.items]; exact ho)
      · exact .inr hvalid
    · exact .inl ho
  names := fun ref hr => .inl <| h.refers_put hr fun hk => by
    rw [map_append]
    exact mem_append_left _ (h.mem_names hr hk)
  distinct := h.distinct fun hl => by
    rw [map_append, map_singleton]
    exact nodup_append.mpr ⟨hl, nodup_singleton _, fun a ha b hb hab =>
      hnew (mem_singleton.mp hb ▸ hab ▸ ha)⟩

theorem Change.replaced {r : α} (hvalid : Valid c (coll.interface r)) :
    Change P c (coll.put c (replace Message.name r (coll.items c))) where
  objects := fun k' o ho => by
    rw [h.put] at ho
    split at ho
    · next hk =>
      obtain ⟨x, hx, rfl⟩ := mem_map.mp ho
      rcases mem_replace hx with hx | rfl
      · exact .inl (by rw [hk, h.items]; exact mem_map_of_mem hx)
      · exact .inr hvalid
    · exact .inl ho
  names := fun ref hr => .inl <| h.refers_put hr fun hk => by
    rw [map_key_replace]
    exact h.mem_names hr hk
  distinct := h.distinct fun hl => by rwa [map_key_replace]

theorem Change.erased (hfree : ∀ k', ∀ o ∈ messages c k', (k, name) ∈ o.refs → ¬ P k' k) :
    Change P c (coll.put c (erase Message.name name (coll.items c))) := by
  have hobjects : ∀ k', ∀ o ∈ messages (coll.put c (erase Message.name name
      (coll.items c))) k', o ∈ messages c k' := by
    intro k' o ho
    rw [h.put] at ho
    split at ho
    · next hk =>
      obtain ⟨x, hx, rfl⟩ := mem_map.mp ho
      rw [hk, h.items]
      exact mem_map_of_mem ((erase_sublist name _).subset hx)
    · exact ho
  refine ⟨fun k' o ho => .inl (hobjects k' o ho), fun ref hr => ?_, h.distinct fun hl => ?_⟩
  · by_cases heq : ref = (k, name)
    · subst heq
      exact .inr fun k' o ho => hfree k' o (hobjects k' o ho)
    · refine .inl (h.refers_put hr fun hk => ?_)
      obtain ⟨x, hx, hname⟩ := mem_map.mp (h.mem_names hr hk)
      rw [← hname]
      refine mem_map_of_mem (mem_erase_of_ne (fun hxn => heq ?_) hx)
      exact Prod.ext hk (hname.symm.trans hxn)
  · exact hl.sublist ((erase_sublist name _).map _)

end

end Collections

/-! ## The collections of the handlers -/

theorem channelGroups_lawful : Lawful channelGroups .channelGroup :=
  ⟨fun _ => rfl, fun _ _ k => by cases k <;> rfl, fun _ => rfl, by decide⟩

theorem channelPartitions_lawful : Lawful channelPartitions .channelPartition :=
  ⟨fun _ => rfl, fun _ _ k => by cases k <;> rfl, fun _ => rfl, by decide⟩

theorem channelPairs_lawful : Lawful channelPairs .channelPair :=
  ⟨fun _ => rfl, fun _ _ k => by cases k <;> rfl, fun _ => rfl, by decide⟩

theorem ontAnis_lawful : Lawful ontAnis .ontAni :=
  ⟨fun _ => rfl, fun _ _ k => by cases k <;> rfl, fun _ => rfl, by decide⟩

theorem vOntAnis_lawful : Lawful vOntAnis .vOntAni :=
  ⟨fun _ => rfl, fun _ _ k => by cases k <;> rfl, fun _ => rfl, by decide⟩

theorem vEnets_lawful : Lawful vEnets .vEnet :=
  ⟨fun _ => rfl, fun _ _ k => by cases k <;> rfl, fun _ => rfl, by decide⟩

theorem trafficDescriptorProfiles_lawful :
    Lawful trafficDescriptorProfiles .trafficDescriptorProfile :=
  ⟨fun _ => rfl, fun _ _ k => by cases k <;> rfl, fun _ => rfl, by decide⟩

theorem tconts_lawful : Lawful tconts.toCollection .tcont :=
  ⟨fun _ => rfl, fun _ _ k => by cases k <;> rfl, fun _ => rfl, by decide⟩

theorem gemports_lawful : Lawful gemports.toCollection .gemport :=
  ⟨fun _ => rfl, fun _ _ k => by cases k <;> rfl, fun _ => rfl, by decide⟩

/-- A reference that `get_ref_data` finds. -/
theorem Lawful.refers_of_getRefData {α : Type} [Message α] {coll : Collection α} (h : Lawful coll k)
    {reference : String} (hne : reference ≠ "") (hslash : '/' ∉ reference.toList)
    (hget : getRefData (coll.items c) reference = true) : Refers c (k, reference) :=
  h.refers.mpr ((getRefData_of_noSlash hne hslash).mp hget)

/-- **What `validate_interface` accepts may be stored.** -/
theorem valid_of_validateInterface {x : Interface} (hrefs : x.PlainRefs)
    (hvalid : validateInterface c x = none) : Valid c x := by
  have hchecks := Checks.failed_eq_none.mp hvalid
  suffices h : x.name ≠ "" ∧ ∀ r ∈ x.refs, Refers c r from ⟨h.1, hrefs, h.2⟩
  rw [Interface.PlainRefs] at hrefs
  cases x <;> simp only [validations, forall_mem_cons, decide_eq_true_eq] at hchecks
  case channelGroup | ontAni | trafficDescriptorProfile =>
    exact ⟨hchecks.1, fun _ h => absurd h not_mem_nil⟩
  case channelPartition =>
    obtain ⟨hname, hne, hget, -⟩ := hchecks
    simp only [Interface.refs, forall_mem_singleton] at hrefs ⊢
    exact ⟨hname, channelGroups_lawful.refers_of_getRefData hne hrefs hget⟩
  case channelPair =>
    obtain ⟨hname, hgroup, hne, hget, -⟩ := hchecks
    simp only [Interface.refs, forall_mem_cons, mem_optionalRef] at hrefs ⊢
    refine ⟨hname, channelPartitions_lawful.refers_of_getRefData hne hrefs.1 hget, ?_⟩
    rintro ref ⟨hset, rfl⟩
    exact channelGroups_lawful.refers_of_getRefData hset (hrefs.2 _ ⟨hset, rfl⟩)
      (hgroup.resolve_left hset)
  case channelTermination =>
    obtain ⟨-, -, hname, hne, hget, -⟩ := hchecks
    simp only [Interface.refs, forall_mem_singleton] at hrefs ⊢
    exact ⟨hname, channelPairs_lawful.refers_of_getRefData hne hrefs hget⟩
  case vOntAni =>
    obtain ⟨hname, hne, hget, hpreferred, hgetPreferred, hprotection, -⟩ := hchecks
    simp only [Interface.refs, forall_mem_cons, mem_optionalRef] at hrefs ⊢
    refine ⟨hname, channelPartitions_lawful.refers_of_getRefData hne hrefs.1 hget,
      channelPairs_lawful.refers_of_getRefData hpreferred hrefs.2.1 hgetPreferred, ?_⟩
    rintro ref ⟨hset, rfl⟩
    exact channelPairs_lawful.refers_of_getRefData hset (hrefs.2.2 _ ⟨hset, rfl⟩)
      (hprotection.resolve_left hset)
  case vEnet =>
    obtain ⟨hname, hne, hget, -⟩ := hchecks
    simp only [Interface.refs, forall_mem_singleton] at hrefs ⊢
    exact ⟨hname, vOntAnis_lawful.refers_of_getRefData hne hrefs hget⟩
  case tcont =>
    obtain ⟨hname, hne, hneProfile, hget, hgetProfile, -⟩ := hchecks
    simp only [Interface.refs, forall_mem_cons] at hrefs ⊢
    refine ⟨hname, vOntAnis_lawful.refers_of_getRefData hne hrefs.1 hget,
      trafficDescriptorProfiles_lawful.refers_of_getRefData hneProfile hrefs.2.1 hgetProfile,
      fun _ h => absurd h not_mem_nil⟩
  case gemport =>
    obtain ⟨hname, hne, hget, -, hneTcont, hgetTcont, -⟩ := hchecks
    simp only [Interface.refs, forall_mem_cons] at hrefs ⊢
    refine ⟨hname, vEnets_lawful.refers_of_getRefData hne hrefs.1 hget,
      tconts_lawful.refers_of_getRefData hneTcont hrefs.2.1 hgetTcont,
      fun _ h => absurd h not_mem_nil⟩

/-- The references that stored messages hold: the kind of the message, and the kind and the name
that it refers to. -/
inductive Holds (c : FiberConfig) : Kind → Kind → String → Prop
  | partitionGroup {x} (hx : x ∈ c.channelPartitions) :
    Holds c .channelPartition .channelGroup x.channelgroupRef
  | pairPartition {x} (hx : x ∈ c.channelPairs) :
    Holds c .channelPair .channelPartition x.channelpartitionRef
  | pairGroup {x} (hx : x ∈ c.channelPairs) (hset : x.channelgroupRef ≠ "") :
    Holds c .channelPair .channelGroup x.channelgroupRef
  | terminationPair {device x} (hdevice : device ∈ c.devices)
    (hx : x ∈ device.channelTerminations) :
    Holds c .channelTermination .channelPair x.channelpairRef
  | vOntAniPartition {x} (hx : x ∈ c.vOntAnis) : Holds c .vOntAni .channelPartition x.parentRef
  | vOntAniPreferred {x} (hx : x ∈ c.vOntAnis) : Holds c .vOntAni .channelPair x.preferredChanpair
  | vOntAniProtection {x} (hx : x ∈ c.vOntAnis) (hset : x.protectionChanpair ≠ "") :
    Holds c .vOntAni .channelPair x.protectionChanpair
  | vEnetVOntAni {x} (hx : x ∈ c.vEnets) : Holds c .vEnet .vOntAni x.vOntaniRef
  | tcontVOntAni {x} (hx : x ∈ c.tconts) : Holds c .tcont .vOntAni x.interfaceReference
  | tcontProfile {x} (hx : x ∈ c.tconts) :
    Holds c .tcont .trafficDescriptorProfile x.trafficDescriptorProfileRef
  | gemportVEnet {x} (hx : x ∈ c.gemports) : Holds c .gemport .vEnet x.itfRef
  | gemportTcont {x} (hx : x ∈ c.gemports) : Holds c .gemport .tcont x.tcontRef

theorem holds_of_mem {o : Interface} (ho : o ∈ messages c k) (hr : r ∈ o.refs) :
    Holds c k r.1 r.2 := by
  cases k with
  | channelGroup | ontAni | trafficDescriptorProfile =>
    obtain ⟨x, -, rfl⟩ := mem_map.mp ho
    exact absurd hr not_mem_nil
  | channelPartition =>
    obtain ⟨x, hx, rfl⟩ := mem_map.mp ho
    rw [mem_singleton.mp hr]
    exact .partitionGroup hx
  | channelPair =>
    obtain ⟨x, hx, rfl⟩ := mem_map.mp ho
    rcases mem_cons.mp hr with rfl | hr
    · exact .pairPartition hx
    · obtain ⟨hset, rfl⟩ := mem_optionalRef.mp hr
      exact .pairGroup hx hset
  | channelTermination =>
    obtain ⟨device, hdevice, ho⟩ := mem_flatMap.mp ho
    obtain ⟨x, hx, rfl⟩ := mem_map.mp ho
    rw [mem_singleton.mp hr]
    exact .terminationPair hdevice hx
  | vOntAni =>
    obtain ⟨x, hx, rfl⟩ := mem_map.mp ho
    rcases mem_cons.mp hr with rfl | hr
    · exact .vOntAniPartition hx
    · rcases mem_cons.mp hr with rfl | hr
      · exact .vOntAniPreferred hx
      · obtain ⟨hset, rfl⟩ := mem_optionalRef.mp hr
        exact .vOntAniProtection hx hset
  | vEnet =>
    obtain ⟨x, hx, rfl⟩ := mem_map.mp ho
    rw [mem_singleton.mp hr]
    exact .vEnetVOntAni hx
  | tcont =>
    obtain ⟨x, hx, rfl⟩ := mem_map.mp ho
    rcases mem_cons.mp hr with rfl | hr
    · exact .tcontVOntAni hx
    · rw [mem_singleton.mp hr]
      exact .tcontProfile hx
  | gemport =>
    obtain ⟨x, hx, rfl⟩ := mem_map.mp ho
    rcases mem_cons.mp hr with rfl | hr
    · exact .gemportVEnet hx
    · rw [mem_singleton.mp hr]
      exact .gemportTcont hx

theorem Holds.exists_mem {k' : Kind} (h : Holds c k k' name) :
    ∃ o ∈ messages c k, (k', name) ∈ o.refs := by
  cases h with
  | partitionGroup hx => exact ⟨_, mem_map_of_mem hx, mem_singleton_self _⟩
  | pairPartition hx => exact ⟨_, mem_map_of_mem hx, mem_cons_self⟩
  | pairGroup hx hset =>
    exact ⟨_, mem_map_of_mem hx, mem_cons_of_mem _ (mem_optionalRef.mpr ⟨hset, rfl⟩)⟩
  | terminationPair hdevice hx =>
    exact ⟨_, mem_flatMap.mpr ⟨_, hdevice, mem_map_of_mem hx⟩,
      mem_singleton_self _⟩
  | vOntAniPartition hx => exact ⟨_, mem_map_of_mem hx, mem_cons_self⟩
  | vOntAniPreferred hx =>
    exact ⟨_, mem_map_of_mem hx, mem_cons_of_mem _ mem_cons_self⟩
  | vOntAniProtection hx hset =>
    exact ⟨_, mem_map_of_mem hx, mem_cons_of_mem _
      (mem_cons_of_mem _ (mem_optionalRef.mpr ⟨hset, rfl⟩))⟩
  | vEnetVOntAni hx => exact ⟨_, mem_map_of_mem hx, mem_singleton_self _⟩
  | tcontVOntAni hx => exact ⟨_, mem_map_of_mem hx, mem_cons_self⟩
  | tcontProfile hx =>
    exact ⟨_, mem_map_of_mem hx, mem_cons_of_mem _ (mem_singleton_self _)⟩
  | gemportVEnet hx => exact ⟨_, mem_map_of_mem hx, mem_cons_self⟩
  | gemportTcont hx =>
    exact ⟨_, mem_map_of_mem hx, mem_cons_of_mem _ (mem_singleton_self _)⟩

theorem RefsClosed.refers (h : RefsClosed P c) {k' : Kind} (hholds : Holds c k k' name)
    (hP : P k k') : Refers c (k', name) := by
  obtain ⟨o, ho, hr⟩ := hholds.exists_mem
  exact h k o ho (k', name) hr hP

theorem noDangling_iff_refsClosed : NoDangling c ↔ RefsClosed (fun _ _ => True) c := by
  constructor
  · rintro h k o ho ⟨k', name⟩ hr -
    have hholds := holds_of_mem ho hr
    cases hholds with
    | partitionGroup hx => exact channelGroups_lawful.refers.mpr (h.partitionGroup _ hx)
    | pairPartition hx => exact channelPartitions_lawful.refers.mpr (h.pairPartition _ hx)
    | pairGroup hx hset => exact channelGroups_lawful.refers.mpr (h.pairGroup _ hx hset)
    | terminationPair hdevice hx =>
      exact channelPairs_lawful.refers.mpr (h.terminationPair _ hdevice _ hx)
    | vOntAniPartition hx =>
      exact channelPartitions_lawful.refers.mpr (h.vOntAniPartition _ hx)
    | vOntAniPreferred hx => exact channelPairs_lawful.refers.mpr (h.vOntAniPreferred _ hx)
    | vOntAniProtection hx hset =>
      exact channelPairs_lawful.refers.mpr (h.vOntAniProtection _ hx hset)
    | vEnetVOntAni hx => exact vOntAnis_lawful.refers.mpr (h.vEnetVOntAni _ hx)
    | tcontVOntAni hx => exact vOntAnis_lawful.refers.mpr (h.tcontVOntAni _ hx)
    | tcontProfile hx => exact trafficDescriptorProfiles_lawful.refers.mpr (h.tcontProfile _ hx)
    | gemportVEnet hx => exact vEnets_lawful.refers.mpr (h.gemportVEnet _ hx)
    | gemportTcont hx => exact tconts_lawful.refers.mpr (h.gemportTcont _ hx)
  · intro h
    exact
    { partitionGroup := fun x hx =>
        channelGroups_lawful.refers.mp (h.refers (.partitionGroup hx) trivial)
      pairPartition := fun x hx =>
        channelPartitions_lawful.refers.mp (h.refers (.pairPartition hx) trivial)
      pairGroup := fun x hx hset =>
        channelGroups_lawful.refers.mp (h.refers (.pairGroup hx hset) trivial)
      terminationPair := fun device hdevice x hx =>
        channelPairs_lawful.refers.mp (h.refers (.terminationPair hdevice hx) trivial)
      vOntAniPartition := fun x hx =>
        channelPartitions_lawful.refers.mp (h.refers (.vOntAniPartition hx) trivial)
      vOntAniPreferred := fun x hx =>
        channelPairs_lawful.refers.mp (h.refers (.vOntAniPreferred hx) trivial)
      vOntAniProtection := fun x hx hset =>
        channelPairs_lawful.refers.mp (h.refers (.vOntAniProtection hx hset) trivial)
      vEnetVOntAni := fun x hx =>
        vOntAnis_lawful.refers.mp (h.refers (.vEnetVOntAni hx) trivial)
      tcontVOntAni := fun x hx =>
        vOntAnis_lawful.refers.mp (h.refers (.tcontVOntAni hx) trivial)
      tcontProfile := fun x hx =>
        trafficDescriptorProfiles_lawful.refers.mp (h.refers (.tcontProfile hx) trivial)
      gemportVEnet := fun x hx => vEnets_lawful.refers.mp (h.refers (.gemportVEnet hx) trivial)
      gemportTcont := fun x hx =>
        tconts_lawful.refers.mp (h.refers (.gemportTcont hx) trivial) }

/-! ## The bodies of the handlers -/

section Bodies

variable {α : Type} [Message α] {coll : Collection α} {k : Kind} {s : XponHandler} {r : α}

section

variable (h : Lawful coll k) (hplain : (coll.interface r).PlainRefs)
include h hplain

theorem Change.create : Change P s.config (create coll s r).2.config := by
  rcases create_cases coll s r with heq | ⟨hvalid, hnew, heq⟩
  · exact .of_eq heq
  · rw [heq]
    exact added h hnew (valid_of_validateInterface hplain hvalid)

theorem Change.update : Change P s.config (update coll s r).2.config := by
  rcases update_cases coll s r with heq | ⟨hvalid, -, heq⟩
  · exact .of_eq heq
  · rw [heq]
    exact replaced h (valid_of_validateInterface hplain hvalid)

end

theorem Change.delete (h : Lawful coll k) {referenced : FiberConfig → String → Option String}
    (hfree : ∀ name, name = Message.name r → referenced s.config name = none →
      ∀ k', Holds s.config k' k name → ¬ P k' k) :
    Change P s.config (delete coll s r referenced).2.config := by
  rcases delete_cases coll s r referenced with heq | ⟨hnone, -, heq⟩
  · exact .of_eq heq
  · rw [heq]
    exact erased h fun k' o ho hr => hfree _ rfl hnone k' (holds_of_mem ho hr)

end Bodies

section NumberedBodies

variable {α : Type} [Message α] {coll : Numbered α} {k : Kind} {s : XponHandler} {r : α}

/-- The id of a message is neither its name nor a reference. -/
def Numbered.IdOnly (coll : Numbered α) : Prop :=
  ∀ r id, (coll.interface (coll.setId r id)).refs = (coll.interface r).refs ∧
    Message.name (coll.setId r id) = Message.name r

theorem Numbered.IdOnly.valid (h : coll.IdOnly) (hl : Lawful coll.toCollection k) (id : ℕ)
    (hplain : (coll.interface r).PlainRefs)
    (hvalid : validateInterface c (coll.interface r) = none) :
    Valid c (coll.interface (coll.setId r id)) := by
  obtain ⟨hname, hplain, hrefs⟩ := valid_of_validateInterface hplain hvalid
  refine ⟨?_, ?_, ?_⟩
  · rw [hl.name, (h r id).2, ← hl.name]
    exact hname
  · rw [Interface.PlainRefs, (h r id).1]
    exact hplain
  · rw [(h r id).1]
    exact hrefs

section

variable (h : Lawful coll.toCollection k)
include h

section

variable (hid : coll.IdOnly) (hplain : (coll.interface r).PlainRefs)
include hid hplain

theorem Change.createNumbered : Change P s.config (createNumbered coll s r).2.config := by
  rcases createNumbered_cases coll s r with
    heq | ⟨hvalid, group, pools, id, pool, -, -, heq | ⟨hnew, heq⟩⟩
  · exact .of_eq heq
  · rw [heq]
    exact refl _
  · rw [heq]
    exact added h hnew (hid.valid h id hplain hvalid)

theorem Change.updateNumbered : Change P s.config (updateNumbered coll s r).2.config := by
  rcases updateNumbered_cases coll s r with heq | ⟨hvalid, -, item, -, -, heq⟩
  · exact .of_eq heq
  · rw [heq]
    exact replaced h (hid.valid h _ hplain hvalid)

end

theorem Change.deleteNumbered {referenced : FiberConfig → String → Option String}
    (hfree : ∀ name, referenced s.config name = none → ∀ k', Holds s.config k' k name → ¬ P k' k) :
    Change P s.config (deleteNumbered coll s r referenced).2.config := by
  rcases deleteNumbered_cases coll s r referenced with
    heq | ⟨hnone, -, item, -, -, ⟨heq, -⟩ | ⟨group, pools, -, heq⟩⟩
  · exact .of_eq heq
  · rw [heq]
    exact erased h fun k' o ho hr => hfree _ hnone k' (holds_of_mem ho hr)
  · rw [heq]
    exact erased h fun k' o ho hr => hfree _ hnone k' (holds_of_mem ho hr)

end

end NumberedBodies

/-- Channel terminations of a device are changed. -/
theorem Change.putTerminations {device : Device} {l : List ChannelterminationConfig}
    (hdevice : device ∈ s.config.devices)
    (hl : ∀ x ∈ l, x ∈ device.channelTerminations ∨ Valid s.config (.channelTermination x)) :
    Change P s.config (s.putTerminations device l).config := by
  have hother : ∀ k, k ≠ .channelTermination →
      messages (s.putTerminations device l).config k = messages s.config k := by
    intro k hk
    cases k with
    | channelTermination => exact absurd rfl hk
    | _ => rfl
  refine ⟨fun k o ho => ?_, fun r hr => ?_, fun h k hk => ?_⟩
  · by_cases hk : k = .channelTermination
    · subst hk
      obtain ⟨device', hdevice', ho⟩ := mem_flatMap.mp ho
      obtain ⟨x, hx, rfl⟩ := mem_map.mp ho
      have hold : ∀ d ∈ s.config.devices, x ∈ d.channelTerminations →
          Interface.channelTermination x ∈ messages s.config .channelTermination :=
        fun d hd hxd => mem_flatMap.mpr ⟨d, hd, mem_map_of_mem hxd⟩
      rcases mem_replace hdevice' with hmem | rfl
      · exact .inl (hold device' hmem hx)
      · exact (hl x hx).imp_left (hold device hdevice)
    · rw [hother k hk] at ho
      exact .inl ho
  · by_cases hk : r.1 = .channelTermination
    · -- no message refers to a channel termination
      refine .inr fun k o ho hr => ?_
      have hholds := holds_of_mem ho hr
      rw [hk] at hholds
      exact nomatch hholds
    · refine .inl ?_
      rw [Refers, Named, hother r.1 hk]
      exact hr
  · rw [hother k hk]
    exact h k hk

/-! ## Starting changes no configuration -/

theorem newPools_config (l : List ChannelgroupConfig) :
    ∀ s : XponHandler, (s.newPools l).config = s.config := by
  induction l with
  | nil => exact fun _ => rfl
  | cons cg l ih => exact fun s => ih _

theorem reinitializeCgIds_config (s : XponHandler) : (reinitializeCgIds s).2.config = s.config := by
  rw [reinitializeCgIds]
  split
  · exact newPools_config _ s
  · exact newPools_config _ s

theorem markId_config {α : Type} (coll : Numbered α) (r : α) (s : XponHandler) :
    (markId coll r s).2.config = s.config := by
  rw [markId]
  split
  · rfl
  · split
    · rfl
    · rfl

theorem markIds_config {α : Type} (coll : Numbered α) (l : List α) :
    ∀ s, (markIds coll l s).2.config = s.config := by
  induction l with
  | nil => exact fun _ => rfl
  | cons r l ih =>
    exact fun s => Act.wp_bind_keep (x := markId coll r) (I := fun s' => s'.config = s.config)
      (markId_config coll r s) fun _ s' hs => (ih s').trans hs

theorem start_config (s : XponHandler) : (start s).2.config = s.config := by
  refine Act.wp_bind_keep (x := reinitializeCgIds) (I := fun s' => s'.config = s.config)
    (reinitializeCgIds_config s) fun _ s₁ hs => ?_
  refine Act.wp_bind_keep (x := markIds tconts s₁.config.tconts) (s := s₁)
    (I := fun s' => s'.config = s.config) ((markIds_config tconts _ s₁).trans hs) fun _ s₂ hs => ?_
  exact (markIds_config gemports _ s₂).trans hs

/-! ## Requests -/

/-- A channel pair that v-ont-anis refer to is not deleted, unless a channel termination prevents
that. -/
def Safe (s : XponHandler) : Request → Prop
  | .delete (.channelPair r) =>
    (∀ device ∈ s.config.devices, ∀ x ∈ device.channelTerminations, x.channelpairRef ≠ r.name) →
      ∀ x ∈ s.config.vOntAnis, (Kind.channelPair, r.name) ∉ (Interface.vOntAni x).refs
  | _ => True

instance (s : XponHandler) (request : Request) : Decidable (Safe s request) := by
  unfold Safe
  split <;> infer_instance

theorem change_create {x : Interface} (hplain : x.PlainRefs) :
    Change P s.config (step s (.create x)).config := by
  rw [step]
  cases x with
  | channelGroup r =>
    rw [handle]
    rcases createChannelGroup_cases s r with heq | ⟨hvalid, id, pool, -, heq | ⟨hnew, heq⟩⟩
    · exact .of_eq heq
    · rw [heq]
      exact refl _
    · rw [heq]
      exact added channelGroups_lawful hnew (valid_of_validateInterface hplain hvalid)
  | channelPartition r => exact Change.create channelPartitions_lawful hplain
  | channelPair r => exact Change.create channelPairs_lawful hplain
  | channelTermination r =>
    rw [handle]
    rcases createChannelTermination_cases s r with heq | ⟨hvalid, device, hdevice, heq⟩
    · exact .of_eq heq
    · rw [heq]
      refine Change.putTerminations hdevice fun x hx => ?_
      rcases mem_append.mp hx with hx | hx
      · exact .inl hx
      · rw [mem_singleton.mp hx]
        exact .inr (valid_of_validateInterface hplain hvalid)
  | ontAni r => exact Change.create ontAnis_lawful hplain
  | vOntAni r => exact Change.create vOntAnis_lawful hplain
  | vEnet r => exact Change.create vEnets_lawful hplain
  | trafficDescriptorProfile r => exact Change.create trafficDescriptorProfiles_lawful hplain
  | tcont r => exact Change.createNumbered tconts_lawful (fun _ _ => ⟨rfl, rfl⟩) hplain
  | gemport r => exact Change.createNumbered gemports_lawful (fun _ _ => ⟨rfl, rfl⟩) hplain

theorem change_update {x : Interface} (hplain : x.PlainRefs) :
    Change P s.config (step s (.update x)).config := by
  rw [step]
  cases x with
  | channelGroup r =>
    rw [handle]
    rcases updateChannelGroup_cases s r with heq | ⟨hvalid, item, -, heq⟩
    · exact .of_eq heq
    · rw [heq]
      exact replaced channelGroups_lawful (valid_of_validateInterface hplain hvalid)
  | channelPartition r => exact Change.update channelPartitions_lawful hplain
  | channelPair r => exact Change.update channelPairs_lawful hplain
  | channelTermination r =>
    rw [handle]
    rcases updateChannelTermination_cases s r with heq | ⟨hvalid, device, hdevice, heq⟩
    · exact .of_eq heq
    · rw [heq]
      refine Change.putTerminations hdevice fun x hx => ?_
      rcases mem_replace hx with hx | rfl
      · exact .inl hx
      · exact .inr (valid_of_validateInterface hplain hvalid)
  | ontAni r => exact Change.update ontAnis_lawful hplain
  | vOntAni r => exact Change.update vOntAnis_lawful hplain
  | vEnet r => exact Change.update vEnets_lawful hplain
  | trafficDescriptorProfile r => exact Change.update trafficDescriptorProfiles_lawful hplain
  | tcont r => exact Change.updateNumbered tconts_lawful (fun _ _ => ⟨rfl, rfl⟩) hplain
  | gemport r => exact Change.updateNumbered gemports_lawful (fun _ _ => ⟨rfl, rfl⟩) hplain

/-- A check that finds no message with a reference. -/
theorem not_any_eq {α : Type} {l : List α} {f : α → String}
    (h : (!l.any fun x => f x = name) = true) : ∀ x ∈ l, f x ≠ name := by
  intro x hx heq
  rw [Bool.not_eq_true', any_eq_false] at h
  exact h x hx (decide_eq_true heq)

/-- Nothing is deleted that is referred to, except for channel pairs. -/
theorem change_delete {x : Interface} (hsafe : P .vOntAni .channelPair → Safe s (.delete x)) :
    Change P s.config (step s (.delete x)).config := by
  rw [step]
  cases x with
  | channelGroup r =>
    rw [handle]
    rcases deleteChannelGroup_cases s r with heq | ⟨hpartitions, hpairs, item, -, heq⟩
    · exact .of_eq heq
    · rw [heq]
      refine erased channelGroups_lawful fun k' o ho hr => ?_
      generalize hname : r.name = name at hr hpartitions hpairs
      cases holds_of_mem ho hr with
      | partitionGroup hx => exact absurd rfl (hpartitions _ hx)
      | pairGroup hx _ => exact absurd rfl (hpairs _ hx)
  | channelPartition r =>
    refine Change.delete channelPartitions_lawful fun name _ hnone k' hholds => ?_
    simp only [Checks.failed_eq_none, forall_mem_cons] at hnone
    cases hholds with
    | pairPartition hx => exact absurd rfl (not_any_eq hnone.1 _ hx)
    | vOntAniPartition hx => exact absurd rfl (not_any_eq hnone.2.1 _ hx)
  | channelPair r =>
    refine Change.delete channelPairs_lawful fun name hname hnone k' hholds hP => ?_
    simp only [Checks.failed_eq_none, forall_mem_cons, all_eq_true] at hnone
    have hterminations : ∀ device ∈ s.config.devices, ∀ x ∈ device.channelTerminations,
        x.channelpairRef ≠ name := fun device hdevice => not_any_eq (hnone.1 device hdevice)
    have hvontanis : k' = .vOntAni → ∀ x ∈ s.config.vOntAnis,
        (Kind.channelPair, name) ∉ (Interface.vOntAni x).refs := by
      rw [hname] at hterminations ⊢
      exact fun hk => hsafe (hk ▸ hP) hterminations
    cases hholds with
    | terminationPair hdevice hx => exact hterminations _ hdevice _ hx rfl
    | vOntAniPreferred hx =>
      exact hvontanis rfl _ hx (mem_cons_of_mem _ mem_cons_self)
    | vOntAniProtection hx hset =>
      refine hvontanis rfl _ hx (mem_cons_of_mem _ (mem_cons_of_mem _ ?_))
      exact mem_optionalRef.mpr ⟨hset, rfl⟩
  | channelTermination r =>
    rw [handle]
    rcases deleteChannelTermination_cases s r with heq | ⟨device, hdevice, heq⟩
    · exact .of_eq heq
    · rw [heq]
      exact Change.putTerminations hdevice fun x hx =>
        .inl ((erase_sublist r.name _).subset hx)
  | ontAni r => exact Change.delete ontAnis_lawful nofun
  | vOntAni r =>
    refine Change.delete vOntAnis_lawful fun name _ hnone k' hholds => ?_
    simp only [Checks.failed_eq_none, forall_mem_cons] at hnone
    cases hholds with
    | vEnetVOntAni hx => exact absurd rfl (not_any_eq hnone.1 _ hx)
    | tcontVOntAni hx => exact absurd rfl (not_any_eq hnone.2.1 _ hx)
  | vEnet r =>
    refine Change.delete vEnets_lawful fun name _ hnone k' hholds => ?_
    simp only [Checks.failed_eq_none, forall_mem_cons] at hnone
    cases hholds with
    | gemportVEnet hx => exact absurd rfl (not_any_eq hnone.1 _ hx)
  | trafficDescriptorProfile r =>
    refine Change.delete trafficDescriptorProfiles_lawful fun name _ hnone k' hholds => ?_
    simp only [Checks.failed_eq_none, forall_mem_cons] at hnone
    cases hholds with
    | tcontProfile hx => exact absurd rfl (not_any_eq hnone.1 _ hx)
  | tcont r =>
    refine Change.deleteNumbered tconts_lawful fun name hnone k' hholds => ?_
    simp only [Checks.failed_eq_none, forall_mem_cons] at hnone
    cases hholds with
    | gemportTcont hx => exact absurd rfl (not_any_eq hnone.1 _ hx)
  | gemport r => exact Change.deleteNumbered gemports_lawful nofun

theorem step_restart_config (s : XponHandler) : (step s .restart).config = s.config := by
  have hstart := start_config (.new s.config)
  rw [step, handle]
  rcases h : start (.new s.config) with ⟨_ | _, s'⟩ <;> rw [h] at hstart <;> exact hstart

/-- **What a request can do.** -/
theorem step_change (hplain : request.PlainRefs)
    (hsafe : P .vOntAni .channelPair → Safe s request) :
    Change P s.config (step s request).config := by
  cases request with
  | create x => exact change_create hplain
  | update x => exact change_update hplain
  | delete x => exact change_delete hsafe
  | restart =>
    rw [step_restart_config]
    exact refl _

/-! ## Runs -/

/-- A started handler without any fiber configuration. -/
def initial (deviceIds : List String) : XponHandler := .new (.empty deviceIds)

/-- Stored messages have names, which differ within their kinds, and no reference dangles. -/
structure Inv (c : FiberConfig) : Prop where
  nonempty : ∀ k, ∀ o ∈ messages c k, o.name ≠ ""
  distinct : Distinct c
  closed : RefsClosed (fun _ _ => True) c

theorem messages_empty (deviceIds : List String) (k : Kind) :
    messages (.empty deviceIds) k = [] := by
  cases k with
  | channelTermination =>
    refine flatMap_eq_nil_iff.mpr fun device hdevice => ?_
    obtain ⟨id, -, rfl⟩ := mem_map.mp hdevice
    rfl
  | _ => rfl

theorem Inv.init (deviceIds : List String) : Inv (initial deviceIds).config where
  nonempty := fun k o ho => absurd (messages_empty deviceIds k ▸ ho) not_mem_nil
  distinct := fun k _ => by
    rw [show messages (initial deviceIds).config k = [] from messages_empty deviceIds k]
    exact nodup_nil
  closed := fun k o ho => absurd (messages_empty deviceIds k ▸ ho) not_mem_nil

theorem Change.nonempty (h : Change P c c') (hc : ∀ k, ∀ o ∈ messages c k, o.name ≠ "") :
    ∀ k, ∀ o ∈ messages c' k, o.name ≠ "" := fun k o ho =>
  (h.objects k o ho).elim (hc k o) Valid.name

theorem Inv.step (h : Inv s.config) (hslash : request.NoSlash) (hsafe : Safe s request) :
    Inv (step s request).config := by
  have hchange := step_change (P := fun _ _ => True) hslash.plainRefs fun _ => hsafe
  exact ⟨hchange.nonempty h.nonempty, hchange.distinct h.distinct, hchange.refsClosed h.closed⟩

/-- A channel pair that is deleted although a v-ont-ani refers to it leaves a dangling reference. -/
theorem not_noDangling_of_not_safe (h : Inv s.config) (hslash : request.NoSlash)
    (hfails : ¬ Safe s request) : ¬ NoDangling (step s request).config := by
  match request, hslash, hfails with
  | .delete (.channelPair r), hslash, hfails =>
    simp only [Safe, not_forall] at hfails
    obtain ⟨hterminations, x, hx, href⟩ := hfails
    rw [not_not] at href
    have hholds : Holds s.config .vOntAni .channelPair r.name :=
      holds_of_mem (mem_map_of_mem hx) href
    have hrefers := h.closed.refers hholds trivial
    have hne : r.name ≠ "" := by
      obtain ⟨o, ho, hname⟩ := hrefers
      rw [← show o.name = r.name from hname]
      exact h.nonempty _ o ho
    have hstep : step s (.delete (.channelPair r)) =
        s.put channelPairs (erase name r.name s.config.channelPairs) := by
      refine delete_of_mem channelPairs s r hslash.1 hne (Checks.failed_eq_none.mpr ?_)
        (channelPairs_lawful.refers.mp hrefers)
      rw [forall_mem_singleton, all_eq_true]
      intro device hdevice
      rw [Bool.not_eq_true', any_eq_false]
      exact fun x hx heq => hterminations device hdevice x hx (of_decide_eq_true heq)
    intro hdangling
    rw [hstep] at hdangling
    -- the v-ont-ani still refers to the name, which is not there any more
    have hclosed := noDangling_iff_refsClosed.mp hdangling
    have hholds' : Holds (s.put channelPairs (erase name r.name
        s.config.channelPairs)).config .vOntAni .channelPair r.name :=
      holds_of_mem (mem_map_of_mem hx) href
    have hmem := channelPairs_lawful.refers.mp (hclosed.refers hholds' trivial)
    obtain ⟨y, hy, hname⟩ := mem_map.mp hmem
    have hdistinct : (s.config.channelPairs.map name).Nodup := by
      rw [← channelPairs_lawful.map_name]
      exact h.distinct .channelPair (by decide)
    exact ((mem_erase hdistinct).mp hy).2 hname
  | .delete (.channelGroup _), _, hfails | .delete (.channelPartition _), _, hfails
  | .delete (.channelTermination _), _, hfails | .delete (.ontAni _), _, hfails
  | .delete (.vOntAni _), _, hfails | .delete (.vEnet _), _, hfails
  | .delete (.trafficDescriptorProfile _), _, hfails | .delete (.tcont _), _, hfails
  | .delete (.gemport _), _, hfails | .create _, _, hfails | .update _, _, hfails
  | .restart, _, hfails => exact absurd trivial hfails

/-- **No reference dangles in all states of a run** exactly if no channel pair is deleted that a
v-ont-ani refers to and no channel termination. -/
theorem no_dangling_iff (deviceIds : List String) (requests : List Request)
    (hslash : ∀ request ∈ requests, request.NoSlash) :
    AllAlong step Safe (initial deviceIds) requests ↔
      ∀ l, l <+: requests → NoDangling (l.foldl step (initial deviceIds)).config :=
  allAlong_iff_of (I := fun s : XponHandler => Inv s.config) (N := fun _ => Request.NoSlash)
    (fun _ h => noDangling_iff_refsClosed.mpr h.closed) (fun _ _ h hs hsafe => h.step hs hsafe)
    (fun _ _ h hs => not_noDangling_of_not_safe h hs) (Inv.init deviceIds)
    (allAlong_of_forall hslash)

/-- A v-ont-ani with all that it refers to. -/
def sampleRequests : List Request :=
  [.create (.channelGroup ⟨"", "group", 0, 0⟩),
    .create (.channelPartition ⟨"", "partition", "group", 0, 0⟩),
    .create (.channelPair
      ⟨"", "pair", "group", "partition", "channelpair", "unplanned_cp_speed"⟩),
    .create (.vOntAni ⟨"", "vontani", "partition", "pair", "", "", 1⟩)]

def deletePair : Request := .delete (.channelPair ⟨"", "pair", "", "", "", ""⟩)

theorem no_dangling_sample : NoDangling (sampleRequests.foldl step (initial ["device"])).config :=
  (no_dangling_iff ["device"] sampleRequests (by decide)).mp (by decide) _ prefix_rfl

/-- **A channel pair is deleted although a v-ont-ani refers to it.** -/
theorem deleted_pair_dangles :
    ¬ NoDangling ((sampleRequests ++ [deletePair]).foldl step (initial ["device"])).config := by
  intro h
  have hmem : ⟨"", "vontani", "partition", "pair", "", "", 1⟩ ∈
      ((sampleRequests ++ [deletePair]).foldl step (initial ["device"])).config.vOntAnis := by
    decide
  exact absurd (h.vOntAniPreferred _ hmem) (by decide)

end Voltha.Xpon
