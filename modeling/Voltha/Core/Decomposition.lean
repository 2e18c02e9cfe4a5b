import Voltha.Core.Nesting

/-!
# What decomposition keeps

`decompose_rules` collects the flows that each logical flow gives to each device, after the default
rules of the device, and keeps the first of those with one id.  The id of a device flow does not
cover its instructions, and building it has replaced the input port and dropped the table and the
flags of the logical flow.  So flows that differ may meet.

* `decompose_table`: the table of a device, as default rules followed by a stream of flows.
* `decomposition_faithful_iff`: no rule is lost, and the order of the logical flows does not
  matter, exactly if device flows that meet are the same rule.
-/

namespace Voltha.Core

open List OrderedDict FlowStats Act.Lockstep

variable {D : Digest} {T : Topology D}

/-! ## Decomposition as a function -/

/-- The flows that one logical flow gives to each device. -/
def Topology.rules (T : Topology D) (groups : List GroupEntry) (flow : FlowStats D) :
    Except Err (FlowRules D) :=
  (decomposeFlow T.dry flow (groupMapOf groups) ()).1

/-- The tables of the devices. -/
def Topology.decompose (T : Topology D) (flows : List (FlowStats D)) (groups : List GroupEntry) :
    Except Err (List (String × DeviceRules D)) :=
  (decomposeRules T.dry flows groups ()).1

/-- What a decomposition returns does not depend on what `flow_delete` does to the state. -/
theorem decomposeRules_fst {σ : Type} {del : FlowStats D → Act σ Err Unit}
    (hdel : ∀ f s, (del f s).1 = .ok ()) (flows : List (FlowStats D)) (groups : List GroupEntry)
    (s : σ) : (decomposeRules (T.provider del) flows groups s).1 = T.decompose flows groups := by
  refine (decomposeRules_lockstep (R := fun _ _ => True) (T.provider_alike del fun _ => pure ())
    (fun f _ => of_forall fun s₁ _ _ => ⟨hdel f s₁, trivial⟩) groups s () trivial).1

/-- One flow after the other. -/
theorem decompose_eq (flows : List (FlowStats D)) (groups : List GroupEntry) :
    T.decompose flows groups = flows.foldlM
      (fun acc f => do pure ((← T.rules groups f).foldl mergeRules acc)) T.defaultRules := by
  unfold Topology.decompose decomposeRules
  generalize hacc : T.dry.getAllDefaultRules = acc
  rw [show T.defaultRules = acc from hacc]
  clear hacc
  induction flows generalizing acc with
  | nil => rfl
  | cons f flows ih =>
    rw [foldlM_cons, foldlM_cons, Act.bind_unit_fst, Act.bind_unit_fst]
    change (T.rules groups f >>= fun a => _) >>= _ = _
    rcases T.rules groups f with e | rules
    · rfl
    · exact ih _

/-! ## The table of a device -/

/-- The flows in a device's table, by id. -/
def flowsOf (deviceRules : List (String × DeviceRules D)) (deviceId : String) :
    List (D.Id × FlowStats D) :=
  ((deviceRules.lookup deviceId).getD {}).flows

/-- The flows that one logical flow gives to a device. -/
def flowsFor (deviceId : String) (rules : FlowRules D) : List (FlowStats D) :=
  (rules.filter fun p => p.1 = deviceId).flatMap Prod.snd

theorem flowsOf_mergeRules (deviceRules : List (String × DeviceRules D))
    (rules : String × List (FlowStats D)) (deviceId : String) :
    flowsOf (mergeRules deviceRules rules) deviceId =
      addAll FlowStats.id (flowsOf deviceRules deviceId)
        (if rules.1 = deviceId then rules.2 else []) := by
  unfold flowsOf mergeRules
  rw [lookup_insert]
  by_cases h : deviceId = rules.1
  · rw [if_pos h, if_pos h.symm, ← h]
    rfl
  · rw [if_neg h, if_neg (Ne.symm h)]
    rfl

theorem flowsOf_foldl_mergeRules (rules : FlowRules D) (deviceId : String) :
    ∀ deviceRules : List (String × DeviceRules D),
      flowsOf (rules.foldl mergeRules deviceRules) deviceId =
        addAll FlowStats.id (flowsOf deviceRules deviceId)
          (flowsFor deviceId rules) := by
  induction rules with
  | nil => exact fun _ => rfl
  | cons p rules ih =>
    intro deviceRules
    rw [foldl_cons, ih, flowsOf_mergeRules, ← addAll_append]
    congr 1
    unfold flowsFor
    by_cases h : p.1 = deviceId
    · simp [h]
    · simp [h]

/-- The flows that logical flows give to a device, in their order. -/
def Topology.stream (T : Topology D) (groups : List GroupEntry) (flows : List (FlowStats D))
    (deviceId : String) : List (FlowStats D) :=
  flows.flatMap fun f => flowsFor deviceId ((T.rules groups f).toOption.getD [])

/-- Every flow is decomposed without error. -/
def Topology.Decomposes (T : Topology D) (groups : List GroupEntry) (flows : List (FlowStats D)) :
    Prop :=
  ∀ f ∈ flows, ∃ rules, T.rules groups f = .ok rules

variable {flows l : List (FlowStats D)} {groups : List GroupEntry} {deviceId : String}
  {r r' : FlowStats D}

/-- **The table of a device**: its default rules, then the stream of flows, the first of those with
one id. -/
theorem decompose_table (h : T.Decomposes groups flows) :
    ∃ out, T.decompose flows groups = .ok out ∧ ∀ deviceId, flowsOf out deviceId =
      addAll FlowStats.id (flowsOf T.defaultRules deviceId)
        (T.stream groups flows deviceId) := by
  rw [decompose_eq]
  generalize T.defaultRules = acc
  induction flows generalizing acc with
  | nil => exact ⟨acc, rfl, fun _ => rfl⟩
  | cons f flows ih =>
    obtain ⟨rules, hrules⟩ := h f mem_cons_self
    obtain ⟨out, hout, htable⟩ := ih (fun g hg => h g (mem_cons_of_mem _ hg))
      (rules.foldl mergeRules acc)
    refine ⟨out, ?_, fun deviceId => ?_⟩
    · rw [foldlM_cons, hrules]
      exact hout
    · rw [htable, flowsOf_foldl_mergeRules, ← addAll_append]
      unfold Topology.stream
      rw [flatMap_cons, hrules]
      rfl

/-- Every flow of a stream is plain. -/
theorem stream_plain (h : r ∈ T.stream groups flows deviceId) : Plain r := by
  obtain ⟨f, -, hr⟩ := mem_flatMap.mp h
  obtain ⟨p, hp, hr⟩ := mem_flatMap.mp hr
  rcases hrules : T.rules groups f with e | rules
  · rw [hrules] at hp
    exact absurd (mem_of_mem_filter hp) not_mem_nil
  · rw [hrules] at hp
    have hplain : ∀ rules, T.rules groups f = .ok rules → AllPlain rules :=
      (decomposeFlow_lockstep (R := fun _ _ => True) (T.provider_alike _ fun _ => pure ())
        (of_forall fun _ _ _ => ⟨rfl, trivial⟩) _ () () trivial).2.2
    exact hplain rules hrules p (mem_of_mem_filter hp) r hr

/-! ## Default rules -/

/-- The flows of a table are plain and stand under their ids, each id once. -/
structure Keyed (flows : List (D.Id × FlowStats D)) : Prop where
  nodup : (flows.map Prod.fst).Nodup
  id : ∀ p ∈ flows, p.1 = p.2.id
  plain : ∀ p ∈ flows, Plain p.2

theorem Keyed.nil : Keyed ([] : List (D.Id × FlowStats D)) :=
  ⟨nodup_nil, nofun, nofun⟩

/-- The default rules of every device are keyed. -/
def Topology.Keyed (T : Topology D) : Prop :=
  ∀ deviceId, Core.Keyed (flowsOf T.defaultRules deviceId)

/-- Plain flows under their ids. -/
theorem keyed_ofList (h : ∀ r ∈ l, Plain r) :
    Keyed (ofList (l.map fun f => (f.id, f))) := by
  obtain ⟨hnodup, -, hmem⟩ := ofList_spec (l.map fun f => (f.id, f))
  refine ⟨hnodup, fun p hp => ?_, fun p hp => ?_⟩
  · obtain ⟨f, -, rfl⟩ := mem_map.mp (hmem p hp)
    rfl
  · obtain ⟨f, hf, rfl⟩ := mem_map.mp (hmem p hp)
    exact h f hf

theorem leafDeviceDefaultRules_keyed {device : Device} {ports : List Port} {rules : DeviceRules D}
    (h : leafDeviceDefaultRules device ports = .ok rules) : Keyed rules.flows := by
  unfold leafDeviceDefaultRules at h
  split at h
  · split at h
    · cases h
    · cases h
      refine keyed_ofList fun r hr => ?_
      simp only [mem_cons, not_mem_nil, or_false] at hr
      rcases hr with rfl | rfl | rfl
      · exact mkFlowStat_plain ..
      · exact mkFlowStat_plain ..
      · exact mkFlowStat_plain ..
  · cases h

theorem deviceDefaultRules_keyed {rootDeviceId : String} {device : Device} {ports : List Port}
    {rules : DeviceRules D} (h : deviceDefaultRules rootDeviceId device ports = .ok rules) :
    Keyed rules.flows := by
  unfold deviceDefaultRules at h
  split at h
  · cases h
    exact Keyed.nil
  · exact leafDeviceDefaultRules_keyed h

/-- **The default rules that the agent generates are keyed.** -/
theorem generateDefaultRules_keyed {rootDeviceId : String} {devices : List (Device × List Port)}
    {rules : List (String × DeviceRules D)}
    (h : generateDefaultRules rootDeviceId devices = .ok rules) (deviceId : String) :
    Keyed (flowsOf rules deviceId) := by
  unfold generateDefaultRules at h
  have hacc : ∀ deviceId, Keyed (flowsOf ([] : List (String × DeviceRules D)) deviceId) :=
    fun _ => Keyed.nil
  generalize ([] : List (String × DeviceRules D)) = acc at h hacc
  induction devices generalizing acc with
  | nil =>
    cases h
    exact hacc deviceId
  | cons d devices ih =>
    rw [foldlM_cons] at h
    rcases hd : deviceDefaultRules (D := D) rootDeviceId d.1 d.2 with e | r
    · rw [hd] at h
      cases h
    · rw [hd] at h
      refine ih _ h fun deviceId => ?_
      unfold flowsOf
      rw [lookup_insert]
      split
      · exact deviceDefaultRules_keyed hd
      · exact hacc deviceId

/-! ## Losing no rule, in any order -/

/-- The same match, priority, cookie and instructions. -/
def SameRule (r r' : FlowStats D) : Prop :=
  r.match = r'.match ∧ r.priority = r'.priority ∧ r.cookie = r'.cookie ∧
    r.instructions = r'.instructions

instance (r r' : FlowStats D) : Decidable (SameRule r r') :=
  inferInstanceAs (Decidable (_ ∧ _ ∧ _ ∧ _))

/-- The rules in a device's table. -/
def rulesOf (deviceRules : List (String × DeviceRules D)) (deviceId : String) :
    List (FlowStats D) :=
  (flowsOf deviceRules deviceId).map Prod.snd

/-- Each device rule that decomposition yields for one logical flow occurs in the table of the
device, and the rules of each table are the same for every order of the logical flows. -/
def Topology.Faithful (T : Topology D) (groups : List GroupEntry) (flows : List (FlowStats D)) :
    Prop :=
  ∃ out, T.decompose flows groups = .ok out ∧
    (∀ f ∈ flows, ∀ rules, T.rules groups f = .ok rules → ∀ deviceId,
      ∀ r ∈ flowsFor deviceId rules, ∃ r' ∈ rulesOf out deviceId, SameRule r r') ∧
    ∀ flows' : List (FlowStats D), flows'.Perm flows → ∃ out',
      T.decompose flows' groups = .ok out' ∧
        ∀ deviceId r, r ∈ rulesOf out' deviceId ↔ r ∈ rulesOf out deviceId

/-- Of two rules with one id for one device, the first of them from a logical flow, the other from a
logical flow too or a default rule, both are the same rule. -/
def Topology.Compatible (T : Topology D) (groups : List GroupEntry) (flows : List (FlowStats D)) :
    Prop :=
  ∀ deviceId, ∀ r ∈ T.stream groups flows deviceId, ∀ r',
    r' ∈ T.stream groups flows deviceId ∨ r' ∈ rulesOf T.defaultRules deviceId →
      r.id = r'.id → SameRule r r'

section

variable (h : SameRule r r')
include h

/-- The id of a plain rule is in what makes it the same rule. -/
theorem SameRule.id_eq (hr : Plain r) (hr' : Plain r') : r.id = r'.id := by
  rw [hr.id, hr'.id]
  unfold key
  rw [hr.tableId, hr'.tableId, hr.flags, hr'.flags, h.1, h.2.1, h.2.2.1]

theorem SameRule.eq (hr : Plain r) (hr' : Plain r') : r = r' := by
  have hid := h.id_eq hr hr'
  obtain ⟨hmatch, hprio, hcookie, hinstr⟩ := h
  obtain ⟨-, h1, h2, h3, h4, h5, h6⟩ := hr
  obtain ⟨-, h1', h2', h3', h4', h5', h6'⟩ := hr'
  cases r
  cases r'
  simp_all

theorem SameRule.symm : SameRule r' r :=
  ⟨h.1.symm, h.2.1.symm, h.2.2.1.symm, h.2.2.2.symm⟩

theorem SameRule.trans {r'' : FlowStats D} (h' : SameRule r' r'') : SameRule r r'' :=
  ⟨h.1.trans h'.1, h.2.1.trans h'.2.1, h.2.2.1.trans h'.2.2.1, h.2.2.2.trans h'.2.2.2⟩

end

/-- A table that starts with keyed default rules and takes in plain flows is keyed. -/
theorem Keyed.addAll {d : List (D.Id × FlowStats D)} (h : Keyed d) (hl : ∀ r ∈ l, Plain r) :
    Keyed (addAll FlowStats.id d l) := by
  refine ⟨nodup_keys_addAll h.nodup, fun p hp => ?_, fun p hp => ?_⟩
  · rcases mem_addAll hp with hp | ⟨-, hk⟩
    · exact h.id p hp
    · exact hk
  · rcases mem_addAll hp with hp | ⟨hp, -⟩
    · exact h.plain p hp
    · exact hl _ hp

theorem mem_stream (h : T.Decomposes groups flows) :
    r ∈ T.stream groups flows deviceId ↔
      ∃ f ∈ flows, ∃ rules, T.rules groups f = .ok rules ∧ r ∈ flowsFor deviceId rules := by
  unfold Topology.stream
  rw [mem_flatMap]
  constructor
  · rintro ⟨f, hf, hr⟩
    obtain ⟨rules, hrules⟩ := h f hf
    rw [hrules] at hr
    exact ⟨f, hf, rules, hrules, hr⟩
  · rintro ⟨f, hf, rules, hrules, hr⟩
    refine ⟨f, hf, ?_⟩
    rw [hrules]
    exact hr

theorem decomposes_perm {flows' : List (FlowStats D)} (h : T.Decomposes groups flows)
    (hperm : flows'.Perm flows) : T.Decomposes groups flows' :=
  fun f hf => h f (hperm.mem_iff.mp hf)

/-- If rules that meet are the same rule, what is in a table does not depend on the order of the
stream. -/
theorem mem_addAll_congr {d : List (D.Id × FlowStats D)} (hd : Keyed d) {l' : List (FlowStats D)}
    (hl : ∀ r ∈ l, Plain r) (hmem : ∀ r, r ∈ l ↔ r ∈ l')
    (hcompat : ∀ r ∈ l, ∀ r' ∈ l, r.id = r'.id → r = r') {p : D.Id × FlowStats D}
    (hp : p ∈ addAll FlowStats.id d l) : p ∈ addAll FlowStats.id d l' := by
  rcases mem_addAll hp with hpd | ⟨hpl, hkey⟩
  · exact mem_addAll_of_mem hpd
  · -- the id is in the other table as well, with a rule of the defaults or of the stream
    have hk : p.1 ∈ (addAll FlowStats.id d l').map Prod.fst :=
      mem_keys_addAll.mpr (.inr ⟨p.2, (hmem _).mp hpl, hkey.symm⟩)
    obtain ⟨q, hq, hqk⟩ := mem_map.mp hk
    rcases mem_addAll hq with hqd | ⟨hql, hqkey⟩
    · have heq : p = q := eq_of_mem (hd.addAll hl).nodup hp
        (mem_addAll_of_mem hqd) hqk.symm
      rw [heq]
      exact hq
    · have heq : p.2 = q.2 := hcompat _ hpl _ ((hmem _).mpr hql)
        (by rw [← hkey, ← hqkey, hqk])
      rw [show p = q from Prod.ext hqk.symm heq]
      exact hq

/-- **Decomposition loses no rule and ignores the order of the logical flows, exactly if rules that
meet are the same rule.** -/
theorem decomposition_faithful_iff (hkeyed : T.Keyed) {groups : List GroupEntry}
    {flows : List (FlowStats D)} (h : T.Decomposes groups flows) :
    T.Faithful groups flows ↔ T.Compatible groups flows := by
  obtain ⟨out, hout, htable⟩ := decompose_table h
  have hplain : ∀ deviceId, ∀ r ∈ T.stream groups flows deviceId, Plain r :=
    fun _ _ hr => stream_plain hr
  have hdict : ∀ deviceId, Keyed (flowsOf out deviceId) := by
    intro deviceId
    rw [htable]
    exact (hkeyed deviceId).addAll (hplain deviceId)
  constructor
  · rintro ⟨out', hout', hkept, -⟩ deviceId r hr r' hr' hid
    cases hout.symm.trans hout'
    -- both rules are the rule that the table has under their id
    have hfind : ∀ x ∈ T.stream groups flows deviceId,
        ∃ p ∈ flowsOf out deviceId, p.1 = x.id ∧ SameRule x p.2 := by
      intro x hx
      obtain ⟨f, hf, rules, hrules, hxf⟩ := (mem_stream h).mp hx
      obtain ⟨y, hy, hsame⟩ := hkept f hf rules hrules deviceId x hxf
      obtain ⟨p, hp, rfl⟩ := mem_map.mp hy
      refine ⟨p, hp, ?_, hsame⟩
      rw [(hdict deviceId).id p hp]
      exact (hsame.id_eq (hplain deviceId x hx) ((hdict deviceId).plain p hp)).symm
    obtain ⟨p, hp, hpid, hsame⟩ := hfind r hr
    have hfind' : ∃ q ∈ flowsOf out deviceId, q.1 = r'.id ∧ SameRule r' q.2 := by
      rcases hr' with hr' | hr'
      · exact hfind r' hr'
      · obtain ⟨q, hq, rfl⟩ := mem_map.mp hr'
        refine ⟨q, ?_, (hkeyed deviceId).id q hq, rfl, rfl, rfl, rfl⟩
        rw [htable]
        exact mem_addAll_of_mem hq
    obtain ⟨q, hq, hqid, hsame'⟩ := hfind'
    obtain rfl : p = q := eq_of_mem (hdict deviceId).nodup hp hq
      (by rw [hpid, hqid, hid])
    exact hsame.trans hsame'.symm
  · intro hcompat
    have heq : ∀ deviceId, ∀ r ∈ T.stream groups flows deviceId,
        ∀ r' ∈ T.stream groups flows deviceId, r.id = r'.id → r = r' :=
      fun deviceId r hr r' hr' hid => (hcompat deviceId r hr r' (.inl hr') hid).eq
        (hplain deviceId r hr) (hplain deviceId r' hr')
    refine ⟨out, hout, ?_, ?_⟩
    · intro f hf rules hrules deviceId r hr
      have hr : r ∈ T.stream groups flows deviceId := (mem_stream h).mpr ⟨f, hf, rules, hrules, hr⟩
      have hk : r.id ∈ (flowsOf out deviceId).map Prod.fst := by
        rw [htable, mem_keys_addAll]
        exact .inr ⟨r, hr, rfl⟩
      obtain ⟨p, hp, hpid⟩ := mem_map.mp hk
      refine ⟨p.2, mem_map_of_mem hp, ?_⟩
      have hid : r.id = p.2.id := by rw [← (hdict deviceId).id p hp, hpid]
      rw [htable] at hp
      rcases mem_addAll hp with hp | ⟨hp, -⟩
      · exact hcompat deviceId r hr _ (.inr (mem_map_of_mem hp)) hid
      · exact hcompat deviceId r hr _ (.inl hp) hid
    · intro flows' hperm
      have h' := decomposes_perm h hperm
      obtain ⟨out', hout', htable'⟩ := decompose_table h'
      refine ⟨out', hout', fun deviceId r => ?_⟩
      have hmem : ∀ x, x ∈ T.stream groups flows deviceId ↔
          x ∈ T.stream groups flows' deviceId := by
        intro x
        rw [mem_stream h, mem_stream h']
        simp only [hperm.mem_iff]
      unfold rulesOf
      rw [htable, htable']
      constructor
      · intro hr
        obtain ⟨p, hp, rfl⟩ := mem_map.mp hr
        refine mem_map_of_mem (mem_addAll_congr (hkeyed deviceId) (fun x hx => stream_plain hx)
          (fun x => (hmem x).symm) ?_ hp)
        exact fun x hx y hy => heq deviceId x ((hmem x).mpr hx) y ((hmem y).mpr hy)
      · intro hr
        obtain ⟨p, hp, rfl⟩ := mem_map.mp hr
        exact mem_map_of_mem (mem_addAll_congr (hkeyed deviceId) (hplain deviceId) hmem
          (heq deviceId) hp)

/-- The rules of all devices together. -/
def allRules (deviceRules : List (String × DeviceRules D)) : List (FlowStats D) :=
  deviceRules.flatMap fun p => p.2.flows.map Prod.snd

/-- The flows that logical flows give to any device. -/
def Topology.allFlows (T : Topology D) (groups : List GroupEntry) (flows : List (FlowStats D)) :
    List (FlowStats D) :=
  flows.flatMap fun f => ((T.rules groups f).toOption.getD []).flatMap Prod.snd

/-- It is enough to compare all rules with each other, whichever their devices. -/
theorem compatible_of_forall
    (h : ∀ r ∈ T.allFlows groups flows, ∀ r' ∈ T.allFlows groups flows ++ allRules T.defaultRules,
      r.id = r'.id → SameRule r r') : T.Compatible groups flows := by
  have hall : ∀ deviceId, ∀ r ∈ T.stream groups flows deviceId, r ∈ T.allFlows groups flows := by
    intro deviceId r hr
    obtain ⟨f, hf, hr⟩ := mem_flatMap.mp hr
    obtain ⟨p, hp, hr⟩ := mem_flatMap.mp hr
    exact mem_flatMap.mpr
      ⟨f, hf, mem_flatMap.mpr ⟨p, mem_of_mem_filter hp, hr⟩⟩
  intro deviceId r hr r' hr' hid
  refine h r (hall deviceId r hr) r' (mem_append.mpr ?_) hid
  rcases hr' with hr' | hr'
  · exact .inl (hall deviceId r' hr')
  · refine .inr ?_
    unfold rulesOf flowsOf at hr'
    rcases hl : T.defaultRules.lookup deviceId with _ | rules
    · rw [hl] at hr'
      exact absurd hr' not_mem_nil
    · rw [hl] at hr'
      exact mem_flatMap.mpr ⟨_, mem_of_lookup hl, hr'⟩

namespace Sample

theorem network_keyed : network.Keyed := by
  have hok : (generateDefaultRules (D := digest) "olt"
      [(olt, [oltNni, oltPon]), (onu, [onuUni, onuPon])]) = .ok network.defaultRules := by
    decide +kernel
  exact generateDefaultRules_keyed hok

/-- Two upstream flows with different customer tags. -/
def twoTags : List (FlowStats digest) :=
  [flowStatsEntryFromFlowModMessage digest (upstream 0 0x1000),
    flowStatsEntryFromFlowModMessage digest (upstream 0 0x1005)]

/-- Two upstream flows of different tables, the second one without the outer tag. -/
def twoTables : List (FlowStats digest) :=
  [flowStatsEntryFromFlowModMessage digest (upstream 0 0x1000),
    flowStatsEntryFromFlowModMessage digest
      { upstream 0 0x1000 with
        tableId := 1
        instructions := [{ type := .applyActions, data := .actions [output 0] }] }]

end Sample

open Sample

theorem decomposition_faithful_iff_sample : network.Faithful [] twoTags := by
  have hdec : network.Decomposes [] twoTags := by
    have hall : ∀ f ∈ twoTags, (network.rules [] f).toOption.isSome = true := by
      decide +kernel
    intro f hf
    rcases hrules : network.rules [] f with e | rules
    · have := hall f hf
      rw [hrules] at this
      cases this
    · exact ⟨rules, rfl⟩
  refine (decomposition_faithful_iff network_keyed hdec).mpr (compatible_of_forall ?_)
  decide +kernel

/-- Both flows have a route, and they differ in their table.  On the OLT they meet, and the rule of
the second one is lost. -/
theorem second_table_rule_lost :
    (twoTables.map key).Nodup ∧
      (∀ f ∈ twoTables, ∀ rules, network.rules [] f = .ok rules →
        (flowsFor "olt" rules).length = 1) ∧
      ¬ network.Faithful [] twoTables := by
  refine ⟨by decide +kernel, fun f hf rules hrules => ?_, ?_⟩
  · have hlen : ∀ f ∈ twoTables, (network.rules [] f).toOption.map
        (fun rules => (flowsFor "olt" rules).length) = some 1 := by decide +kernel
    have := hlen f hf
    rw [hrules] at this
    exact Option.some.inj this
  · rintro ⟨out, hout, hkept, -⟩
    have hok : network.decompose twoTables [] =
        .ok ((network.decompose twoTables []).toOption.getD []) := by decide +kernel
    have hlost : ¬ ∀ f ∈ twoTables,
        ∀ r ∈ flowsFor "olt" ((network.rules [] f).toOption.getD []),
          ∃ r' ∈ rulesOf ((network.decompose twoTables []).toOption.getD []) "olt",
            SameRule r r' := by decide +kernel
    refine hlost fun f hf r hr => ?_
    rw [← Except.ok.inj (hout.symm.trans hok)]
    rcases hrules : network.rules [] f with e | rules
    · rw [hrules] at hr
      exact absurd hr not_mem_nil
    · rw [hrules] at hr
      exact hkept f hf rules hrules "olt" r hr

end Voltha.Core
