import Voltha.Core.LogicalDeviceAgent

/-!
# Nested writes of the flow table

Decomposition touches the state of its provider only through `flow_delete`.  So two providers that
differ in nothing else decompose alike, and keep their states related if `flow_delete` does
(`decomposeFlow_lockstep`, `decomposeRules_lockstep`).

* `Plain`: every device flow is built by `mk_flow_stat`.
* `flowTableUpdated_loses`: whatever nests below a write of the flow table, it only removes flows.
* `flowTableUpdated_fuel`: the bound for the nesting is never reached.
-/

namespace Voltha.Core

open List OrderedDict Act Lockstep

variable {D : Digest} {σ τ : Type} {R : σ → τ → Prop} {flows : List (FlowStats D)}
  {flow f r : FlowStats D} {deviceId : String}

/-! ## Device flows are plain -/

/-- A flow as `mk_flow_stat` builds it: what it is is in its priority, cookie, match and
instructions. -/
structure Plain (r : FlowStats D) : Prop where
  id : r.id = hashFlowStats D r.key
  tableId : r.tableId = 0
  flags : r.flags = 0
  idleTimeout : r.idleTimeout = 0
  hardTimeout : r.hardTimeout = 0
  packetCount : r.packetCount = 0
  byteCount : r.byteCount = 0

theorem mkFlowStat_plain (priority cookie : ℕ) (matchFields : List OfbField)
    (actions : List Action) : Plain (mkFlowStat D priority cookie matchFields actions) :=
  ⟨rfl, rfl, rfl, rfl, rfl, rfl, rfl⟩

theorem hopFlow_plain (flow : FlowStats D) (fields : List OfbField) (hop : RouteHop)
    (actions : List Action) : Plain (hopFlow flow fields hop actions) := mkFlowStat_plain ..

/-- All flows for all devices are plain. -/
def AllPlain (rules : FlowRules D) : Prop := ∀ p ∈ rules, ∀ r ∈ p.2, Plain r

theorem AllPlain.nil : AllPlain ([] : FlowRules D) := nofun

theorem AllPlain.appendFlows {rules : FlowRules D} (h : AllPlain rules)
    (hflows : ∀ r ∈ flows, Plain r) : AllPlain (appendFlows deviceId flows rules) := by
  intro p hp r hr
  rcases mem_insert hp with rfl | hp
  · rcases mem_append.mp hr with hr | hr
    · rcases hl : rules.lookup deviceId with _ | old
      · rw [hl] at hr
        exact absurd hr not_mem_nil
      · rw [hl] at hr
        exact h _ (mem_of_lookup hl) r hr
    · exact hflows r hr
  · exact h p hp r hr

theorem allPlain_single (h : Plain r) : AllPlain (appendFlows deviceId [r] []) :=
  AllPlain.nil.appendFlows fun _ hr' => mem_singleton.mp hr' ▸ h

/-! ## Two providers -/

/-- Providers that differ in `flow_delete` only. -/
structure Provider.Alike (p : Provider D σ) (p' : Provider D τ) : Prop where
  getAllDefaultRules : p.getAllDefaultRules = p'.getAllDefaultRules
  getRoute : p.getRoute = p'.getRoute
  getWildcardInputPorts : p.getWildcardInputPorts = p'.getWildcardInputPorts

theorem Topology.provider_alike (T : Topology D) (del : FlowStats D → Act σ Err Unit)
    (del' : FlowStats D → Act τ Err Unit) : (T.provider del).Alike (T.provider del') :=
  ⟨rfl, rfl, rfl⟩

section

variable {self : Provider D σ} {self' : Provider D τ} (h : self.Alike self')
  (hdel : Lockstep R (fun _ => True) (self.flowDelete flow) (self'.flowDelete flow))
include h hdel

theorem decomposeBucket_lockstep (fields : List OfbField) (inPortNo : Option ℕ) (ingress : RouteHop)
    {acc : Option ℕ × FlowRules D} (bucket : Bucket) (hacc : AllPlain acc.2) :
    Lockstep R (fun acc' => AllPlain acc'.2)
      (decomposeBucket self flow fields inPortNo ingress acc bucket)
      (decomposeBucket self' flow fields inPortNo ingress acc bucket) := by
  unfold decomposeBucket
  rw [h.getRoute]
  refine check fun route => ?_
  rcases route with _ | ⟨ingress2, egress⟩
  · exact hdel.bind fun _ _ => pure hacc
  · refine check fun _ => check fun _ => check fun _ => pure ?_
    exact hacc.appendFlows fun _ hr => mem_singleton.mp hr ▸ hopFlow_plain ..

theorem decomposeMulticast_lockstep (groupMap : List (ℕ × GroupEntry)) (fields : List OfbField)
    (actions : List Action) (inPortNo : Option ℕ) (ingress : RouteHop) :
    Lockstep R AllPlain (decomposeMulticast self flow groupMap fields actions inPortNo ingress)
      (decomposeMulticast self' flow groupMap fields actions inPortNo ingress) := by
  unfold decomposeMulticast
  refine check fun grpId => ?_
  rcases grpId with _ | grpId
  · exact raise _
  · refine bind (foldlM (fun bucket _ acc hacc => ?_) ?_) fun _ hacc => pure hacc
    · exact decomposeBucket_lockstep h hdel fields inPortNo ingress bucket hacc
    · exact allPlain_single (hopFlow_plain ..)

/-- Decomposing a flow touches the state through the deletion of that flow only, and the flows for
the devices are plain, whatever its shape. -/
theorem decomposeFlow_lockstep (groupMap : List (ℕ × GroupEntry)) :
    Lockstep R AllPlain (decomposeFlow self flow groupMap) (decomposeFlow self' flow groupMap) := by
  have hdrop : Lockstep R AllPlain (do self.flowDelete flow; pure ([] : FlowRules D))
      (do self'.flowDelete flow; pure ([] : FlowRules D)) :=
    hdel.bind fun _ _ => pure .nil
  have hone : ∀ (hop : RouteHop) (fields : List OfbField) (actions : List Action),
      Lockstep R AllPlain
        (pure (appendFlows hop.device.id [hopFlow flow fields hop actions] []) : Act σ Err _)
        (pure (appendFlows hop.device.id [hopFlow flow fields hop actions] []) : Act τ Err _) :=
    fun hop fields actions => pure (allPlain_single (hopFlow_plain ..))
  unfold decomposeFlow
  rw [h.getRoute, h.getWildcardInputPorts]
  refine check fun inPortNo => check fun outPortNo => check fun fields => check fun actions =>
    check fun route => ?_
  rcases route with _ | ⟨ingressHop, egressHop⟩
  · exact hdrop
  dsimp only
  split
  · refine check fun egress => pure (AllPlain.nil.appendFlows fun r hr => ?_)
    obtain ⟨p, -, hr⟩ := mem_flatMap.mp hr
    unfold controllerFlows at hr
    simp only [mem_cons, not_mem_nil, or_false] at hr
    rcases hr with rfl | rfl
    · exact mkFlowStat_plain ..
    · exact mkFlowStat_plain ..
  refine check fun ingress => ?_
  split
  · split
    · exact check fun _ => hone _ _ _
    · exact check fun _ => check fun egress => hone _ _ _
  · split
    · refine check fun _ => check fun innerTag => ?_
      rcases innerTag with _ | innerTag
      · exact hone _ _ _
      · refine check fun route2 => ?_
        rcases route2 with _ | ⟨ingressHop2, egressHop2⟩
        · exact hdrop
        · exact check fun _ => hone _ _ _
    · split
      · exact check fun egress => hone _ _ _
      · exact decomposeMulticast_lockstep h hdel groupMap fields actions inPortNo ingress

end

variable {post : List (FlowStats D) → Act (Agent D) Err Unit} {s : Agent D}
  {del : FlowStats D → Act (Agent D) Err Unit} {T : Topology D}

/-- **Decomposing the tables touches the state through the deletion of flows only.** -/
theorem decomposeRules_lockstep {self : Provider D σ} {self' : Provider D τ} (h : self.Alike self')
    (hdel : ∀ f ∈ flows, Lockstep R (fun _ => True) (self.flowDelete f) (self'.flowDelete f))
    (groups : List GroupEntry) :
    Lockstep R (fun _ => True) (decomposeRules self flows groups)
      (decomposeRules self' flows groups) := by
  unfold decomposeRules
  rw [h.getAllDefaultRules]
  refine foldlM (fun f hf deviceRules _ => ?_) trivial
  exact (decomposeFlow_lockstep h (hdel f hf) _).bind fun _ _ => pure trivial

/-! ## What nests below a write -/

theorem flowMatch_iff {g : FlowStats D} : flowMatch f g = true ↔ f.key = g.key := by
  simp [flowMatch, FlowStats.key]

/-- A decomposer whose `flow_delete` does nothing. -/
def Topology.dry (T : Topology D) : Provider D Unit := T.provider fun _ => pure ()

theorem writeDevices_frame (deviceRules : List (String × DeviceRules D)) :
    ∀ s : Agent D, (writeDevices deviceRules s).flows = s.flows ∧
      (writeDevices deviceRules s).groups = s.groups ∧
      (writeDevices deviceRules s).noFlowChangesRequired = s.noFlowChangesRequired := by
  induction deviceRules with
  | nil => exact fun s => ⟨rfl, rfl, rfl⟩
  | cons r l ih => exact fun s => ih _

theorem mem_toKeep : f ∈ toKeep flow flows ↔ f ∈ flows ∧ f.key ≠ flow.key := by
  simp [toKeep, mem_filter, ← flowMatch_iff]

theorem length_toKeep_lt (hf : f ∈ flows) (hkey : f.key = flow.key) :
    (toKeep flow flows).length < flows.length := by
  rw [toKeep, length_filter_lt_length_iff_exists]
  exact ⟨f, hf, by simp [flowMatch_iff.mpr hkey]⟩

/-- Nothing is written when no flow matches. -/
theorem flowDeleteEntry_of_notMem (h : ∀ f ∈ s.flows, f.key ≠ flow.key) :
    flowDeleteEntry post flow s = (.ok (), s) := by
  refine if_neg fun hany => ?_
  obtain ⟨f, hf, hmatch⟩ := any_eq_true.mp hany
  exact h f hf (flowMatch_iff.mp hmatch)

/-- A shorter table is written when some flow matches. -/
theorem flowDeleteEntry_of_mem (hf : f ∈ s.flows) (hkey : f.key = flow.key) :
    flowDeleteEntry post flow s = (.ok (), (post (toKeep flow s.flows)
      { preProcessFlows (toKeep flow s.flows) s with flows := toKeep flow s.flows }).2) := by
  have hne : s.flows ≠ toKeep flow s.flows := fun heq =>
    absurd (length_toKeep_lt hf hkey) (by rw [← heq]; exact Nat.lt_irrefl _)
  have hany : (s.flows.any fun g => flowMatch g flow) = true :=
    any_eq_true.mpr ⟨f, hf, flowMatch_iff.mpr hkey⟩
  exact (if_pos hany).trans (if_neg hne)

theorem flowDeleteEntry_fst (post : List (FlowStats D) → Act (Agent D) Err Unit)
    (flow : FlowStats D) (s : Agent D) : (flowDeleteEntry post flow s).1 = .ok () := by
  by_cases hf : ∀ g ∈ s.flows, g.key ≠ flow.key
  · rw [flowDeleteEntry_of_notMem hf]
  · push Not at hf
    obtain ⟨g, hg, hkey⟩ := hf
    rw [flowDeleteEntry_of_mem hg hkey]

theorem propagate_lockstep {R : Agent D → Agent D → Prop}
    (hwrite : ∀ l s t, R s t → R (writeDevices l s) (writeDevices l t))
    {del' : FlowStats D → Act (Agent D) Err Unit}
    (hdel : ∀ f ∈ flows, Lockstep R (fun _ => True) (del f) (del' f)) (groups : List GroupEntry) :
    Lockstep R (fun _ => True) (propagate (T.provider del) flows groups)
      (propagate (T.provider del') flows groups) := by
  refine (decomposeRules_lockstep (T.provider_alike _ _) hdel groups).bind fun deviceRules _ => ?_
  exact of_forall fun s t h => ⟨rfl, hwrite deviceRules s t h⟩

/-- Flows go, and the groups stay. -/
structure Loses (s s' : Agent D) : Prop where
  flows : s'.flows.Sublist s.flows
  groups : s'.groups = s.groups

theorem Loses.refl (s : Agent D) : Loses s s := ⟨List.Sublist.refl _, rfl⟩

theorem flowDeleteEntry_loses (hpost : ∀ items s, Loses s (post items s).2) (flow : FlowStats D)
    (s : Agent D) : Loses s (flowDeleteEntry post flow s).2 := by
  by_cases hf : ∀ g ∈ s.flows, g.key ≠ flow.key
  · rw [flowDeleteEntry_of_notMem hf]
    exact .refl s
  · push Not at hf
    obtain ⟨g, hg, hkey⟩ := hf
    rw [flowDeleteEntry_of_mem hg hkey]
    exact ⟨(hpost _ _).flows.trans filter_sublist, (hpost _ _).groups⟩

theorem propagate_loses (hpost : ∀ items s, Loses s (post items s).2) (flows : List (FlowStats D))
    (groups : List GroupEntry) (s : Agent D) :
    Loses s (propagate (T.provider (flowDeleteEntry post)) flows groups s).2 := by
  -- in lockstep with a decomposer that deletes nothing
  have hlock : ∀ f ∈ flows, Lockstep (fun s₁ _ : Agent D => Loses s s₁) (fun _ => True)
      (flowDeleteEntry post f) (fun t => (.ok (), t)) := by
    refine fun f _ => of_forall fun s₁ t h => ⟨flowDeleteEntry_fst _ f s₁, ?_⟩
    obtain ⟨hflows, hgroups⟩ := flowDeleteEntry_loses hpost f s₁
    exact ⟨hflows.trans h.flows, hgroups.trans h.groups⟩
  refine (propagate_lockstep (fun l s₁ t h => ?_) hlock groups s s (.refl s)).2.1
  obtain ⟨hflows, hgroups, -⟩ := writeDevices_frame l s₁
  exact ⟨hflows ▸ h.flows, hgroups.trans h.groups⟩

/-- **Whatever nests below a write of the flow table, it only removes flows.** -/
theorem flowTableUpdated_loses (T : Topology D) (fuel : ℕ) :
    ∀ (items : List (FlowStats D)) (s : Agent D), Loses s (flowTableUpdated T fuel items s).2 := by
  induction fuel with
  | zero => exact fun _ s => .refl s
  | succ fuel ih =>
    intro items s
    unfold flowTableUpdated
    split
    · exact .refl s
    · exact propagate_loses ih items s.groups s

theorem updateFlows_loses (T : Topology D) (items : List (FlowStats D)) (s : Agent D) :
    Loses { s with flows := items } (updateFlows T items s).2 := by
  unfold updateFlows flowsProxyUpdate
  dsimp only
  split
  · next h => exact ⟨h ▸ List.Sublist.refl _, rfl⟩
  · obtain ⟨hflows, hgroups⟩ := flowTableUpdated_loses T (items.length + 1) items
      { preProcessFlows items s with flows := items }
    exact ⟨hflows, hgroups⟩

theorem updateGroups_loses (T : Topology D) (items : List GroupEntry) (s : Agent D) :
    Loses { s with groups := items } (updateGroups T items s).2 := by
  unfold updateGroups
  split
  · next h => exact ⟨List.Sublist.refl _, h⟩
  · exact propagate_loses (flowTableUpdated_loses T _) s.flows items { s with groups := items }

/-- The flows before and after a write have the same ids. -/
theorem noFlowChangesRequired_iff {items : List (FlowStats D)} :
    (preProcessFlows items s).noFlowChangesRequired = true ↔
      ∀ i, i ∈ items.map FlowStats.id ↔ i ∈ s.flows.map FlowStats.id := by
  unfold preProcessFlows
  simp only [Bool.and_eq_true, all_eq_true, decide_eq_true_eq]
  exact ⟨fun h i => ⟨h.1 i, h.2 i⟩, fun h => ⟨fun i => (h i).mp, fun i => (h i).mpr⟩⟩

/-- Nothing nests below a write that leaves the ids as they are. -/
theorem updateFlows_of_sameIds {items : List (FlowStats D)} (T : Topology D)
    (h : ∀ i, i ∈ items.map FlowStats.id ↔ i ∈ s.flows.map FlowStats.id) :
    (updateFlows T items s).2 = { s with flows := items, noFlowChangesRequired := true } := by
  have hflag := noFlowChangesRequired_iff.mpr h
  have hpre : preProcessFlows items s = { s with noFlowChangesRequired := true } := by
    rw [← hflag]
    rfl
  unfold updateFlows flowsProxyUpdate
  rw [hpre]
  dsimp only
  split
  · next heq =>
    subst heq
    rfl
  · rfl

/-- **The bound for the nesting is never reached**: any two bounds above the number of stored flows
do the same. -/
theorem flowTableUpdated_fuel (T : Topology D) (fuel : ℕ) :
    ∀ (fuel' : ℕ) (items : List (FlowStats D)) (s : Agent D), s.flows.length < fuel →
      s.flows.length < fuel' →
      flowTableUpdated T fuel items s = flowTableUpdated T fuel' items s := by
  induction fuel with
  | zero => exact fun _ _ _ h => absurd h (Nat.not_lt_zero _)
  | succ fuel ih =>
    intro fuel' items s h h'
    rcases fuel' with _ | fuel'
    · exact absurd h' (Nat.not_lt_zero _)
    unfold flowTableUpdated
    split
    · rfl
    · -- both runs stay in the same state, which has no more flows than `s`
      have hdel : ∀ f ∈ items, Lockstep
          (fun s₁ t : Agent D => s₁ = t ∧ s₁.flows.length ≤ s.flows.length) (fun _ => True)
          (flowDeleteEntry (flowTableUpdated T fuel) f)
          (flowDeleteEntry (flowTableUpdated T fuel') f) := by
        refine fun f _ => of_forall ?_
        rintro s₁ t ⟨rfl, hlen⟩
        by_cases hf : ∀ g ∈ s₁.flows, g.key ≠ f.key
        · rw [flowDeleteEntry_of_notMem hf, flowDeleteEntry_of_notMem hf]
          exact ⟨rfl, rfl, hlen⟩
        · push Not at hf
          obtain ⟨g, hg, hkey⟩ := hf
          have hlt := length_toKeep_lt hg hkey
          rw [flowDeleteEntry_of_mem hg hkey, flowDeleteEntry_of_mem hg hkey]
          rw [ih fuel' (toKeep f s₁.flows) _ (by dsimp only; omega) (by dsimp only; omega)]
          refine ⟨rfl, rfl, ?_⟩
          exact Nat.le_trans (flowTableUpdated_loses T fuel' _ _).flows.length_le
            (Nat.le_trans (Nat.le_of_lt hlt) hlen)
      have hlock := propagate_lockstep (T := T) (fun l s₁ t (h : s₁ = t ∧ _) =>
        ⟨congrArg (writeDevices l) h.1, by rw [(writeDevices_frame l s₁).1]; exact h.2⟩)
        hdel s.groups s s ⟨rfl, Nat.le_refl _⟩
      exact Prod.ext hlock.1 hlock.2.1.1

open Sample in
theorem nesting_bound_sample : ∃ s : Agent digest, s.flows.length = 1 ∧ ∀ items,
    flowTableUpdated network 2 items s = flowTableUpdated network 3 items s :=
  ⟨{ flows := [flowStatsEntryFromFlowModMessage digest (upstream 0 0x1000)] }, rfl,
    fun items => flowTableUpdated_fuel network 2 3 items _ (by decide) (by decide)⟩

end Voltha.Core
