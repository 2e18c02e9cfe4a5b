import Voltha.Xpon.References

/-!
# ONU ids within channel groups

`validate_interface` refuses a v-ont-ani if another one has its ONU id and names the same channel
partition, the same preferred channel pair or the same protection channel pair.  That is not the
same as being of one channel group: a group may have several partitions, one partition may be named
with a slash after its name and without, and v-ont-anis without a protection channel pair have the
empty reference in common whatever their groups are.

* `handle_refused_iff`: what a request is refused for.
* `onu_id_refused_iff`: which v-ont-anis with the id make this the same as one of the channel group
  having it.
-/

namespace Voltha.Xpon

/-- The name of the channel group that the channel partition of a v-ont-ani refers to.  The tree
finds what is named by the part of a reference in front of a slash at its end. -/
def channelGroup (c : FiberConfig) (x : VOntaniConfig) : Option String :=
  match Root.get c.channelPartitions x.parentRef with
  | .ok (some partition) => some (Root.splitPath partition.channelgroupRef).1
  | _ => none

/-- Two v-ont-anis are of one channel group. -/
def SameGroup (c : FiberConfig) (x y : VOntaniConfig) : Prop :=
  channelGroup c x = channelGroup c y ∧ channelGroup c y ≠ none

/-- Two v-ont-anis have the same preferred channel pair, or the same or no protection channel
pair. -/
def SharesPair (x y : VOntaniConfig) : Prop :=
  x.preferredChanpair = y.preferredChanpair ∨ x.protectionChanpair = y.protectionChanpair

/-- Two v-ont-anis have a reference in common. -/
abbrev SharesRef (x y : VOntaniConfig) : Prop := x.parentRef = y.parentRef ∨ SharesPair x y

/-- Another stored v-ont-ani, related to `r`, has the ONU id of `r`. -/
def OnuIdTaken (c : FiberConfig) (related : VOntaniConfig → VOntaniConfig → Prop)
    (r : VOntaniConfig) : Prop :=
  ∃ x ∈ c.vOntAnis, related x r ∧ x.name ≠ r.name ∧ x.onuId = r.onuId

instance (c : FiberConfig) (x y : VOntaniConfig) : Decidable (SameGroup c x y) :=
  inferInstanceAs (Decidable (_ ∧ _))

instance (x y : VOntaniConfig) : Decidable (SharesPair x y) :=
  inferInstanceAs (Decidable (_ ∨ _))

instance (c : FiberConfig) (related : VOntaniConfig → VOntaniConfig → Prop)
    [∀ x y, Decidable (related x y)] (r : VOntaniConfig) : Decidable (OnuIdTaken c related r) :=
  inferInstanceAs (Decidable (∃ x ∈ c.vOntAnis, _))

/-- The v-ont-ani is valid, the assertion on its ONU id apart. -/
def ValidButOnuId (c : FiberConfig) (r : VOntaniConfig) : Prop :=
  ∀ check ∈ (validations c (.vOntAni r)).dropLast, check.1 = true

instance (c : FiberConfig) (r : VOntaniConfig) : Decidable (ValidButOnuId c r) :=
  inferInstanceAs (Decidable (∀ check ∈ _, _))

/-- What comes of a request that `validate_interface` does not accept. -/
def refused : Reply := .error .invalidArgument ""

variable {c : FiberConfig} {r : VOntaniConfig}

/-- The assertion on the ONU id is the one that is left. -/
theorem validateInterface_vOntAni (h : ValidButOnuId c r) :
    validateInterface c (.vOntAni r) = none ↔ ¬ OnuIdTaken c SharesRef r := by
  have hlast : (∀ check ∈ validations c (.vOntAni r), check.1 = true) ↔
      ∀ x ∈ c.vOntAnis, onuIdClash x r = false := by
    simp only [ValidButOnuId, validations, List.dropLast, List.forall_mem_cons] at h
    simp only [validations, List.forall_mem_cons, h]
    simp
  rw [validateInterface, Checks.failed_eq_none, hlast]
  simp only [OnuIdTaken, SharesRef, SharesPair, onuIdClash, decide_eq_false_iff_not, not_exists,
    not_and]

/-- A valid v-ont-ani has a channel group, and one that names its partition is of it. -/
theorem sameGroup_of_parentRef (h : ValidButOnuId c r) {x : VOntaniConfig}
    (hx : x.parentRef = r.parentRef) : SameGroup c x r := by
  refine ⟨by rw [channelGroup, channelGroup, hx], ?_⟩
  simp only [ValidButOnuId, validations, List.dropLast, List.forall_mem_cons, decide_eq_true_iff,
    getRefData] at h
  obtain ⟨-, hne, hget, -⟩ := h
  rw [Root.get, if_neg hne] at hget
  rw [channelGroup, Root.get, if_neg hne]
  rcases hfind : KeyedList.find Message.name c.channelPartitions (Root.splitPath r.parentRef).1
    with _ | partition
  · rw [hfind] at hget
    cases hget
  · rw [hfind] at hget
    dsimp only at hget ⊢
    by_cases hrest : (Root.splitPath r.parentRef).2 = ""
    · rw [if_pos hrest]
      exact Option.some_ne_none _
    · rw [if_neg hrest] at hget
      cases hget

/-- **A v-ont-ani is refused for its ONU id** if another one with the id has a reference in
common with it. -/
theorem handle_refused_iff {s : XponHandler} (h : ValidButOnuId s.config r) {request : Request}
    (hrequest : request = .create (.vOntAni r) ∨
      '/' ∉ r.name.toList ∧ request = .update (.vOntAni r)) :
    (handle s request).1 = refused ↔ OnuIdTaken s.config SharesRef r := by
  have hvalid := validateInterface_vOntAni h
  rcases hv : validateInterface s.config (.vOntAni r) with _ | message
  · refine iff_of_false ?_ (hvalid.mp hv)
    rcases hrequest with rfl | ⟨hslash, rfl⟩
    · simp only [handle, createVOntAni, create, vOntAnis, hv]
      split <;> simp [refused, duplicated]
    · have hname : malformed (Message.name r) = none := if_neg hslash
      simp only [handle, updateVOntAni, update, vOntAnis, hname, hv]
      split <;> simp [refused, notFound]
  · refine iff_of_true ?_ (by simpa [hv] using hvalid)
    rcases hrequest with rfl | ⟨hslash, rfl⟩
    · simp [handle, createVOntAni, create, vOntAnis, hv, refused]
    · have hname : malformed (Message.name r) = none := if_neg hslash
      simp [handle, updateVOntAni, update, vOntAnis, hname, hv, refused]

/-- The check takes a v-ont-ani for one of the channel group, and it is. -/
def Seen (c : FiberConfig) (x y : VOntaniConfig) : Prop := SameGroup c x y ∧ SharesRef x y

/-- A v-ont-ani of the channel group that names another partition of it, or the same one in
another way, and has other channel pairs. -/
def Overlooked (c : FiberConfig) (x y : VOntaniConfig) : Prop :=
  SameGroup c x y ∧ x.parentRef ≠ y.parentRef ∧ ¬ SharesPair x y

/-- A v-ont-ani of another channel group with the same channel pairs, or as well without a
protection channel pair. -/
def Mistaken (c : FiberConfig) (x y : VOntaniConfig) : Prop := ¬ SameGroup c x y ∧ SharesPair x y

instance (c : FiberConfig) (x y : VOntaniConfig) : Decidable (Seen c x y) :=
  inferInstanceAs (Decidable (_ ∧ _))

/-- **A request is refused for its ONU id exactly if another v-ont-ani of its channel group has
the id**, if and only if one of the group with the id has the partition or a channel pair of the
request, or there is one of the group that has none of these exactly if there is one of another
group that has a channel pair. -/
theorem onu_id_refused_iff (s : XponHandler) (r : VOntaniConfig) (h : ValidButOnuId s.config r)
    (request : Request) (hrequest : request = .create (.vOntAni r) ∨
      '/' ∉ r.name.toList ∧ request = .update (.vOntAni r)) :
    ((handle s request).1 = refused ↔ OnuIdTaken s.config (SameGroup s.config) r) ↔
      OnuIdTaken s.config (Seen s.config) r ∨
        (OnuIdTaken s.config (Overlooked s.config) r ↔
          OnuIdTaken s.config (Mistaken s.config) r) := by
  have hshared : OnuIdTaken s.config SharesRef r ↔
      OnuIdTaken s.config (Seen s.config) r ∨ OnuIdTaken s.config (Mistaken s.config) r := by
    simp only [OnuIdTaken, ← exists_or, ← and_or_left, ← or_and_right]
    refine exists_congr fun x => and_congr_right fun _ => and_congr_left fun _ => ?_
    have := sameGroup_of_parentRef h (x := x)
    rw [Seen, Mistaken]
    tauto
  have hgroup : OnuIdTaken s.config (SameGroup s.config) r ↔
      OnuIdTaken s.config (Seen s.config) r ∨ OnuIdTaken s.config (Overlooked s.config) r := by
    simp only [OnuIdTaken, ← exists_or, ← and_or_left, ← or_and_right]
    refine exists_congr fun x => and_congr_right fun _ => and_congr_left fun _ => ?_
    rw [Seen, Overlooked]
    tauto
  rw [handle_refused_iff h hrequest, hshared, hgroup]
  tauto

/-- Two channel groups, the first one with two partitions, and a v-ont-ani in the first one. -/
def onuRequests : List Request :=
  [.create (.channelGroup ⟨"", "group1", 0, 0⟩), .create (.channelGroup ⟨"", "group2", 0, 0⟩),
    .create (.channelPartition ⟨"", "partition1", "group1", 0, 0⟩),
    .create (.channelPartition ⟨"", "partition2", "group1", 0, 0⟩),
    .create (.channelPartition ⟨"", "partition3", "group2", 0, 0⟩),
    .create (.channelPair ⟨"", "pair1", "", "partition1", "channelpair", "unplanned_cp_speed"⟩),
    .create (.channelPair ⟨"", "pair2", "", "partition2", "channelpair", "unplanned_cp_speed"⟩),
    .create (.channelPair ⟨"", "pair3", "", "partition3", "channelpair", "unplanned_cp_speed"⟩),
    .create (.channelPair ⟨"", "pair4", "", "partition2", "channelpair", "unplanned_cp_speed"⟩),
    .create (.vOntAni ⟨"", "vontani1", "partition1", "pair1", "", "", 1⟩)]

/-- A request with the ONU id of a v-ont-ani in the same partition. -/
def onuRequest : VOntaniConfig := ⟨"", "vontani2", "partition1", "pair1", "", "", 1⟩

theorem onu_id_refused_sample :
    (handle (onuRequests.foldl step (initial [])) (.create (.vOntAni onuRequest))).1 = refused ↔
      OnuIdTaken (onuRequests.foldl step (initial [])).config
        (SameGroup (onuRequests.foldl step (initial [])).config) onuRequest :=
  (onu_id_refused_iff _ _ (by decide +kernel) _ (Or.inl rfl)).mpr (.inl (by decide +kernel))

/-- **The check goes by the references**: of another group and refused, of the same group and
accepted. -/
theorem onu_ids_not_by_group :
    ((handle (onuRequests.foldl step (initial []))
        (.create (.vOntAni ⟨"", "vontani2", "partition3", "pair3", "", "", 1⟩))).1 = refused ∧
      ¬ OnuIdTaken (onuRequests.foldl step (initial [])).config
        (SameGroup (onuRequests.foldl step (initial [])).config)
        ⟨"", "vontani2", "partition3", "pair3", "", "", 1⟩) ∧
    (handle (onuRequests.foldl step (initial []))
        (.create (.vOntAni ⟨"", "vontani2", "partition2", "pair2", "pair4", "", 1⟩))).1 = .ok ∧
      OnuIdTaken (onuRequests.foldl step (initial [])).config
        (SameGroup (onuRequests.foldl step (initial [])).config)
        ⟨"", "vontani2", "partition2", "pair2", "pair4", "", 1⟩ := by
  decide +kernel

end Voltha.Xpon
