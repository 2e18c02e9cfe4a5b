import Voltha.Core.DroppedFlows
import Voltha.Lib.Positions

/-!
# Device tables track the logical tables

When a logical table changes, the agent decomposes the tables and writes the result to the devices.
While it decomposes, it deletes logical flows that have no route, and so decomposes again before the
first decomposition is written.  The device tables end up right if what the deleted flows
contributed to the outer decomposition is nothing.

* `Topology.Clean`: no flow is decomposed with an error, and the dropped ones yield nothing.
* `settled_of_unswept`: when the nested writes have deleted the dropped flows of a clean table, the
  device tables agree with what is left.
* `Tracked`: the requests after which they agree: an `ADD` for a flow that is there neither asks for
  an overlap check nor changes the instructions, and no flow is decomposed with an error or loses
  some of its buckets.
* `device_tables_track`: in runs of such requests the device tables agree with the logical tables.
-/

namespace Voltha.Core

open List Act FlowStats

variable {D : Digest} {T : Topology D}

/-! ## Clean tables -/

/-- Every flow is decomposed without error, and one that is dropped yields nothing. -/
def Topology.Clean (T : Topology D) (groups : List GroupEntry) (flows : List (FlowStats D)) :
    Prop :=
  ∀ f ∈ flows, ∃ rules, T.rules groups f = .ok rules ∧ (T.dropped groups f = true → rules = [])

/-- The flows that decomposition does not delete. -/
def Topology.kept (T : Topology D) (groups : List GroupEntry) (flows : List (FlowStats D)) :
    List (FlowStats D) :=
  flows.filter fun f => !T.dropped groups f

variable {flows flows' : List (FlowStats D)} {groups items : List GroupEntry} {s : Agent D}
  {f : FlowStats D}

section

variable (h : T.Clean groups flows)
include h

theorem Topology.Clean.subset (hsub : flows' ⊆ flows) : T.Clean groups flows' :=
  fun f hf => h f (hsub hf)

theorem Topology.Clean.decomposes : T.Decomposes groups flows := by
  intro f hf
  obtain ⟨rules, hrules, -⟩ := h f hf
  exact ⟨rules, hrules⟩

/-- The deleted flows have contributed nothing. -/
theorem decompose_kept : T.decompose (T.kept groups flows) groups = T.decompose flows groups := by
  rw [decompose_eq, decompose_eq]
  generalize T.defaultRules = acc
  induction flows generalizing acc with
  | nil => rfl
  | cons f flows ih =>
    have ih := ih (h.subset (subset_cons_self f flows))
    obtain ⟨rules, hrules, hnone⟩ := h f mem_cons_self
    unfold Topology.kept at ih ⊢
    rw [filter_cons, foldlM_cons, hrules]
    cases hdrop : T.dropped groups f
    · rw [Bool.not_false, if_pos rfl, foldlM_cons, hrules]
      exact ih _
    · rw [Bool.not_true, if_neg (by decide), hnone hdrop]
      exact ih _

end

/-! ## The nested writes -/

/-- The flows and groups stored under the devices are those that the logical tables decompose
into. -/
def Tracks (T : Topology D) (s : Agent D) : Prop :=
  ∃ out, T.decompose s.flows s.groups = .ok out ∧
    ∀ p ∈ out, s.devices p.1 = (p.2.flows.map Prod.snd, p.2.groups.map Prod.snd)

/-- Of a clean table, the flows that are not dropped are left. -/
theorem unswept_eq_kept (h : TableInv flows) (hclean : T.Clean groups flows) :
    T.unswept groups flows = T.kept groups flows := by
  refine filter_congr fun f hf => ?_
  have hstops : ∀ g ∈ flows, ¬ ∃ e, T.rules groups g = .error e := by
    rintro g hg ⟨e, he⟩
    obtain ⟨rules, hrules, -⟩ := hclean g hg
    rw [he] at hrules
    cases hrules
  rw [Bool.eq_iff_iff]
  simp only [decide_eq_true_eq, Bool.not_eq_true', ← Bool.not_eq_true]
  rw [Sweep.swept_of_no_stops hstops, not_iff_not]
  constructor
  · -- a flow of the identity of a dropped one is that flow
    rintro ⟨g, hg, hdrop, hkey⟩
    rw [← inj_on_of_nodup_map h.nodup hg hf hkey]
    exact dropped_iff.mpr hdrop
  · exact fun hdrop => ⟨f, hf, dropped_iff.mp hdrop, rfl⟩

/-- Each device is written once. -/
theorem writeDevices_devices {deviceRules : List (String × DeviceRules D)}
    (h : (deviceRules.map Prod.fst).Nodup) :
    ∀ s : Agent D, ∀ p ∈ deviceRules, (writeDevices deviceRules s).devices p.1 =
      (p.2.flows.map Prod.snd, p.2.groups.map Prod.snd) := by
  -- the devices that are not written keep their tables
  have hframe : ∀ (l : List (String × DeviceRules D)) (d : String), d ∉ l.map Prod.fst →
      ∀ s : Agent D, (writeDevices l s).devices d = s.devices d := by
    intro l d
    induction l with
    | nil => exact fun _ _ => rfl
    | cons r l ih =>
      intro hd s
      rw [map_cons, mem_cons, not_or] at hd
      refine (ih hd.2 _).trans ?_
      exact Function.update_of_ne hd.1 _ _
  induction deviceRules with
  | nil => exact nofun
  | cons r l ih =>
    intro s p hp
    rw [map_cons, nodup_cons] at h
    rcases mem_cons.mp hp with rfl | hp
    · refine (hframe l p.1 h.1 _).trans ?_
      exact Function.update_self ..
    · exact ih h.2 _ p hp

theorem decompose_nodup (hdict : (T.defaultRules.map Prod.fst).Nodup)
    {out : List (String × DeviceRules D)} (h : T.decompose flows groups = .ok out) :
    (out.map Prod.fst).Nodup := by
  have hmerge : ∀ (rules : FlowRules D) (acc : List (String × DeviceRules D)),
      (acc.map Prod.fst).Nodup → ((rules.foldl mergeRules acc).map Prod.fst).Nodup := by
    intro rules
    induction rules with
    | nil => exact fun _ h => h
    | cons p rules ih => exact fun acc h => ih _ (OrderedDict.nodup_keys_insert h)
  rw [decompose_eq] at h
  generalize T.defaultRules = acc at h hdict
  induction flows generalizing acc with
  | nil =>
    cases h
    exact hdict
  | cons f flows ih =>
    rw [foldlM_cons] at h
    rcases hrules : T.rules groups f with e | rules
    · rw [hrules] at h
      cases h
    · rw [hrules] at h
      exact ih _ h (hmerge rules acc hdict)

/-- What a decomposition writes to the devices. -/
theorem propagate_devices (hdict : (T.defaultRules.map Prod.fst).Nodup)
    {del : FlowStats D → Act (Agent D) Err Unit} (hdel : ∀ f s, (del f s).1 = .ok ())
    {out : List (String × DeviceRules D)} (hout : T.decompose flows groups = .ok out)
    (s : Agent D) : ∀ p ∈ out, (propagate (T.provider del) flows groups s).2.devices p.1 =
      (p.2.flows.map Prod.snd, p.2.groups.map Prod.snd) := by
  have hfst := decomposeRules_fst (T := T) hdel flows groups s
  rw [hout] at hfst
  have hrun : propagate (T.provider del) flows groups s = _ := bind_of_ok (Prod.ext hfst rfl)
  rw [hrun]
  exact writeDevices_devices (decompose_nodup hdict hout) _

/-! ## Writing the tables -/

/-- The invariant between requests: the table is well formed, and its flows are decomposed without
error and not dropped. -/
structure Settled (T : Topology D) (s : Agent D) : Prop where
  table : TableInv s.flows
  decomposes : T.Decomposes s.groups s.flows
  routed : ∀ f ∈ s.flows, T.dropped s.groups f = false

theorem Topology.Clean.of_routed (hdec : T.Decomposes groups flows)
    (hrouted : ∀ f ∈ flows, T.dropped groups f = false) : T.Clean groups flows := by
  intro f hf
  obtain ⟨rules, hrules⟩ := hdec f hf
  refine ⟨rules, hrules, fun hd => ?_⟩
  rw [hrouted f hf] at hd
  cases hd

theorem Settled.clean (h : Settled T s) : T.Clean s.groups s.flows :=
  .of_routed h.decomposes h.routed

/-- **What is left of a clean table is settled**, and agrees with the devices to which the whole
table was written. -/
theorem settled_of_unswept (hinv : TableInv flows) (hclean : T.Clean groups flows)
    (hf : s.flows = T.unswept groups flows) (hg : s.groups = groups)
    (hdev : ∀ out, T.decompose flows groups = .ok out → ∀ p ∈ out, s.devices p.1 =
      (p.2.flows.map Prod.snd, p.2.groups.map Prod.snd)) : Settled T s ∧ Tracks T s := by
  rw [unswept_eq_kept hinv hclean] at hf
  obtain ⟨out, hout, -⟩ := decompose_table hclean.decomposes
  subst hg
  refine ⟨⟨?_, ?_, ?_⟩, out, ?_, hdev out hout⟩
  · rw [hf]
    exact hinv.sublist filter_sublist
  · rw [hf]
    exact (hclean.subset (filter_subset_self _)).decomposes
  · intro f hmem
    rw [hf] at hmem
    simpa using (mem_filter.mp hmem).2
  · rw [hf, decompose_kept hclean, hout]

/-- A write of the flow table that changes the set of ids. -/
theorem updateFlows_settles (hD : D.CollisionFree) (hdict : (T.defaultRules.map Prod.fst).Nodup)
    {items : List (FlowStats D)} (hinv : TableInv items) (hclean : T.Clean s.groups items)
    (hflag : (preProcessFlows items s).noFlowChangesRequired = false) :
    Settled T (updateFlows T items s).2 ∧ Tracks T (updateFlows T items s).2 := by
  have hne : s.flows ≠ items := by
    rintro rfl
    rw [← Bool.not_eq_true, noFlowChangesRequired_iff] at hflag
    exact hflag fun _ => Iff.rfl
  have heq : updateFlows T items s = (.ok (), (flowTableUpdated T (items.length + 1) items
      { preProcessFlows items s with flows := items }).2) := if_neg hne
  obtain ⟨hf, hg⟩ := flowTableUpdated_sweeps (T := T) hD (items.length + 1) items
    { preProcessFlows items s with flows := items } (Nat.lt_succ_self _) rfl rfl hflag hinv.hashed
  rw [heq]
  refine settled_of_unswept hinv hclean hf hg fun out hout => ?_
  unfold flowTableUpdated
  simp only [hflag, Bool.false_eq_true, if_false]
  exact propagate_devices hdict (flowDeleteEntry_fst _) hout _

/-! ## Replacing a flow -/

/-- Decomposition reads the priority, the cookie, the match and the instructions of a flow. -/
theorem decomposeFlow_congr {σ : Type} (del : Act σ Err Unit) {g : FlowStats D}
    (hprio : f.priority = g.priority) (hcookie : f.cookie = g.cookie) (hmatch : f.match = g.match)
    (hinstr : f.instructions = g.instructions) (groupMap : List (ℕ × GroupEntry)) :
    decomposeFlow (T.provider fun _ => del) f groupMap =
      decomposeFlow (T.provider fun _ => del) g groupMap := by
  cases f
  cases g
  subst hprio hcookie hmatch hinstr
  rfl

/-- Flows that differ in their counters and timeouts only. -/
def SameCourse (f g : FlowStats D) : Prop := f.key = g.key ∧ f.instructions = g.instructions

theorem SameCourse.rules {g : FlowStats D} (h : SameCourse f g) (groups : List GroupEntry) :
    T.rules groups f = T.rules groups g ∧ T.dropped groups f = T.dropped groups g := by
  obtain ⟨hkey, hinstr⟩ := h
  unfold key at hkey
  rw [FlowKey.mk.injEq] at hkey
  obtain ⟨-, hprio, -, hcookie, hmatch⟩ := hkey
  unfold Topology.rules Topology.dropped Topology.dry Topology.watch
  rw [decomposeFlow_congr _ hprio hcookie hmatch hinstr]
  refine ⟨rfl, ?_⟩
  rw [decomposeFlow_congr (fun _ => (.ok (), true)) hprio hcookie hmatch hinstr]

theorem decompose_sameCourse (h : Forall₂ SameCourse flows flows') (groups : List GroupEntry) :
    T.decompose flows groups = T.decompose flows' groups := by
  rw [decompose_eq, decompose_eq]
  generalize T.defaultRules = acc
  induction h generalizing acc with
  | nil => rfl
  | cons h _ ih =>
    rw [foldlM_cons, foldlM_cons, (h.rules groups).1]
    refine bind_congr fun acc' => ih acc'

theorem replacement_instructions (mod : FlowMod) (flow old : FlowStats D) :
    (replacement mod flow old).instructions = flow.instructions := by
  unfold replacement
  split <;> rfl

/-- Replacing an entry by one with the same instructions. -/
theorem modify_sameCourse {mod : FlowMod} {idx : ℕ}
    (hidx : findFlow flows (flowStatsEntryFromFlowModMessage D mod) = some idx)
    (hinstr : flows[idx]?.map instructions = some mod.instructions) :
    Forall₂ SameCourse
      (flows.modify idx (replacement mod (flowStatsEntryFromFlowModMessage D mod))) flows := by
  obtain ⟨old, hold, hkey⟩ := findFlow_eq_some hidx
  rw [hold, Option.map_some, Option.some.injEq] at hinstr
  rw [forall₂_iff_get]
  refine ⟨length_modify .., fun i h₁ h₂ => ?_⟩
  rw [get_eq_getElem, get_eq_getElem, getElem_modify]
  split
  · next hi =>
    subst hi
    have hget : flows[idx] = old := (List.getElem?_eq_some_iff.mp hold).2
    rw [hget]
    exact ⟨(replacement_key ..).trans hkey.symm, (replacement_instructions ..).trans hinstr.symm⟩
  · exact ⟨rfl, rfl⟩

/-! ## Requests -/

/-- A flow is decomposed without error and, if it is dropped, yields nothing. -/
def Topology.cleanFlow (T : Topology D) (groups : List GroupEntry) (f : FlowStats D) : Bool :=
  match T.rules groups f with
  | .ok rules => !T.dropped groups f || rules.isEmpty
  | .error _ => false

/-- A flow is decomposed without error and not dropped. -/
def Topology.routedFlow (T : Topology D) (groups : List GroupEntry) (f : FlowStats D) : Bool :=
  (T.rules groups f).toOption.isSome && !T.dropped groups f

/-- The request is one after which the device tables agree: an `ADD` for a flow that is there
neither asks for an overlap check nor changes the instructions, a new flow is clean, and a new group
table leaves all flows routed. -/
def Tracked (T : Topology D) (s : Agent D) : Request → Bool
  | .flow mod => mod.command ≠ .add || mod.cookieMask ≠ 0 ||
    match findFlow s.flows (flowStatsEntryFromFlowModMessage D mod) with
    | some idx => mod.flags &&& ofpffCheckOverlap = 0 &&
        s.flows[idx]?.map instructions = some mod.instructions
    | none => T.cleanFlow s.groups (flowStatsEntryFromFlowModMessage D mod)
  | .group mod => s.flows.all (T.routedFlow (groupsAfter s.groups mod))

theorem cleanFlow_iff :
    T.cleanFlow groups f = true ↔
      ∃ rules, T.rules groups f = .ok rules ∧ (T.dropped groups f = true → rules = []) := by
  unfold Topology.cleanFlow
  rcases T.rules groups f with e | rules
  · simp
  · cases T.dropped groups f <;> simp

theorem routedFlow_iff :
    T.routedFlow groups f = true ↔
      (∃ rules, T.rules groups f = .ok rules) ∧ T.dropped groups f = false := by
  unfold Topology.routedFlow
  rcases T.rules groups f with e | rules
  · simp [Except.toOption]
  · simp [Except.toOption]

/-- The logical tables hold other flows or other groups. -/
def Changed (s s' : Agent D) : Prop :=
  s'.flows.map key ≠ s.flows.map key ∨ s'.groups ≠ s.groups

/-- What steps are to do: keep the tables settled, and the device tables in agreement with them;
and when they change the logical tables, bring the device tables into agreement. -/
def Keeps (T : Topology D) (s s' : Agent D) : Prop :=
  Settled T s' ∧ (Tracks T s ∨ Changed s s' → Tracks T s')

theorem not_changed (s : Agent D) : ¬ Changed s s := fun h => h.elim (fun h => h rfl) fun h => h rfl

theorem Keeps.refl (h : Settled T s) : Keeps T s s :=
  ⟨h, fun ht => ht.resolve_right (not_changed s)⟩

theorem Keeps.trans {s' s'' : Agent D} (h : Keeps T s s') (h' : Keeps T s' s'') :
    Keeps T s s'' := by
  refine ⟨h'.1, fun ht => h'.2 ?_⟩
  by_cases hc : Changed s s'
  · exact .inl (h.2 (.inr hc))
  · -- what has changed has changed in the second step
    unfold Changed at hc
    push Not at hc
    refine ht.imp (fun ht => h.2 (.inl ht)) fun hc' => ?_
    unfold Changed at hc' ⊢
    rw [hc.1, hc.2]
    exact hc'

section

variable (hD : D.CollisionFree) (hdict : (T.defaultRules.map Prod.fst).Nodup)

include hD hdict

section

variable (h : Settled T s)
include h

/-- A write of the group table with which no flow is dropped. -/
theorem updateGroups_keeps (hrouted : ∀ f ∈ s.flows, T.routedFlow items f = true) :
    (updateGroups T items s).2.flows = s.flows ∧ Keeps T s (updateGroups T items s).2 := by
  by_cases heq : s.groups = items
  · rw [show updateGroups T items s = (.ok (), s) from if_pos heq]
    exact ⟨rfl, Keeps.refl h⟩
  · have hrouted' := fun f hf => routedFlow_iff.mp (hrouted f hf)
    have hclean : T.Clean items s.flows :=
      .of_routed (fun f hf => (hrouted' f hf).1) fun f hf => (hrouted' f hf).2
    have hkept : T.kept items s.flows = s.flows := by
      refine filter_eq_self.mpr fun f hf => ?_
      rw [(hrouted' f hf).2]
      rfl
    have hwrite : updateGroups T items s = (.ok (), (groupTableUpdated T items
        { s with groups := items }).2) := if_neg heq
    obtain ⟨hf, hg⟩ := updateGroups_sweeps (T := T) hD h.table.hashed heq
    have hleft := settled_of_unswept h.table hclean hf hg fun out hout => by
      rw [hwrite]
      exact propagate_devices hdict (flowDeleteEntry_fst _) hout _
    rw [unswept_eq_kept h.table hclean, hkept] at hf
    exact ⟨hf, hleft.1, fun _ => hleft.2⟩

/-- Removing flows. -/
theorem updateFlows_removed {items : List (FlowStats D)} (hsub : items.Sublist s.flows)
    (hf : f ∈ s.flows) (hgone : ∀ g ∈ items, g.key ≠ f.key) :
    Keeps T s (updateFlows T items s).2 := by
  obtain ⟨hsettled, htracks⟩ := updateFlows_settles hD hdict (h.table.sublist hsub)
    (h.clean.subset hsub.subset) (flag_of_removed hD h.table.hashed hsub.subset hf hgone rfl)
  exact ⟨hsettled, fun _ => htracks⟩

theorem addToFlows_keeps {mod : FlowMod} (hcmd : mod.command = .add) (hmask : mod.cookieMask = 0)
    (hc : Tracked T s (.flow mod) = true) {items : List (FlowStats D)}
    (hitems : addToFlows s.flows mod = some items) : Keeps T s (updateFlows T items s).2 := by
  unfold Tracked at hc
  simp only [hcmd, hmask, ne_eq, not_true_eq_false, decide_false, Bool.false_or] at hc
  rcases hfind : findFlow s.flows (flowStatsEntryFromFlowModMessage D mod) with _ | idx
  · -- a new flow
    rw [hfind] at hc
    rw [addToFlows_of_none hfind] at hitems
    cases hitems
    have hnew := findFlow_eq_none.mp hfind
    have hclean : T.Clean s.groups (s.flows ++ [flowStatsEntryFromFlowModMessage D mod]) := by
      intro f hf
      rcases mem_append.mp hf with hf | hf
      · exact h.clean f hf
      · rw [mem_singleton.mp hf]
        exact cleanFlow_iff.mp hc
    have hflag : (preProcessFlows (s.flows ++ [flowStatsEntryFromFlowModMessage D mod])
        s).noFlowChangesRequired = false := by
      rw [← Bool.not_eq_true, noFlowChangesRequired_iff]
      intro hids
      obtain ⟨g, hg, hid⟩ := mem_map.mp
        ((hids (flowStatsEntryFromFlowModMessage D mod).id).mp
          (mem_map_of_mem (mem_append_right _ (mem_singleton_self _))))
      rw [h.table.hashed g hg, entry_id] at hid
      exact hnew g hg (hD hid)
    obtain ⟨hsettled, htracks⟩ := updateFlows_settles hD hdict (h.table.append hnew) hclean
      hflag
    exact ⟨hsettled, fun _ => htracks⟩
  · -- an old flow with its instructions
    rw [hfind, Bool.and_eq_true, decide_eq_true_eq, decide_eq_true_eq] at hc
    obtain ⟨hoverlap, hinstr⟩ := hc
    rw [addToFlows_of_some hoverlap hfind] at hitems
    cases hitems
    have hsame := modify_sameCourse hfind hinstr
    have hids : ∀ i, i ∈ (s.flows.modify idx (replacement mod
        (flowStatsEntryFromFlowModMessage D mod))).map FlowStats.id ↔
          i ∈ s.flows.map FlowStats.id := by
      intro i
      rw [(h.table.modify hfind).map_id, map_key_modify hfind, h.table.map_id]
    rw [updateFlows_of_sameIds T hids]
    refine ⟨⟨h.table.modify hfind, ?_, ?_⟩, ?_⟩
    · intro f hf
      obtain ⟨g, hg, hfg⟩ := forall₂_exists hsame hf
      obtain ⟨rules, hrules⟩ := h.decomposes g hg
      exact ⟨rules, (hfg.rules s.groups).1.trans hrules⟩
    · intro f hf
      obtain ⟨g, hg, hfg⟩ := forall₂_exists hsame hf
      exact (hfg.rules s.groups).2.trans (h.routed g hg)
    · rintro (⟨out, hout, hdev⟩ | hc)
      · exact ⟨out, (decompose_sameCourse hsame _).trans hout, hdev⟩
      · exact absurd hc fun hc => hc.elim (fun h => h (map_key_modify hfind)) fun h => h rfl

/-- **A request after which the device tables agree with the logical tables.** -/
theorem request_keeps {r : Request} (hc : Tracked T s r = true) :
    Keeps T s (afterRequest T s r) := by
  have hwrites := request_writes T s r
  generalize afterRequest T s r = s' at hwrites ⊢
  cases hwrites with
  | nothing => exact Keeps.refl h
  | add hcmd hmask hitems => exact addToFlows_keeps hD hdict h hcmd hmask hc hitems
  | delete hsub hf hgone => exact updateFlows_removed hD hdict h hsub hf (hgone h.table)
  | groups => exact (updateGroups_keeps hD hdict h (all_eq_true.mp hc)).2
  | both hf huses =>
    obtain ⟨hflows, hfirst⟩ := updateGroups_keeps hD hdict h (all_eq_true.mp hc)
    refine hfirst.trans (updateFlows_removed hD hdict hfirst.1 ?_ (hflows ▸ hf) fun g hg hkey => ?_)
    · rw [hflows]
      exact filter_sublist
    · obtain ⟨hg, hnot⟩ := mem_filter.mp hg
      rw [inj_on_of_nodup_map h.table.nodup hg hf hkey, huses] at hnot
      cases hnot

theorem run_keeps {l : List Request}
    (hc : AllAlong (afterRequest T) (fun s r => Tracked T s r = true) s l) :
    Keeps T s (l.foldl (afterRequest T) s) :=
  hc.foldl (I := Keeps T s) (fun _ _ hI hr => hI.trans (request_keeps hD hdict hI.1 hr))
    (Keeps.refl h)

end

end

/-- **Device tables track the logical tables**: in a run whose requests are all tracked, the device
tables agree with the logical ones if they did so at the start, or if the logical tables have
changed since. -/
theorem device_tables_track (hD : D.CollisionFree)
    (hdict : (T.defaultRules.map Prod.fst).Nodup) {s : Agent D} (h : Settled T s)
    {l : List Request} (hc : AllAlong (afterRequest T) (fun s r => Tracked T s r = true) s l)
    (hstart : Tracks T s ∨ ∃ l', l' <+: l ∧ Changed s (l'.foldl (afterRequest T) s)) :
    Tracks T (l.foldl (afterRequest T) s) := by
  rcases hstart with htracks | ⟨l', ⟨l'', rfl⟩, hchanged⟩
  · exact (run_keeps hD hdict h hc).2 (.inl htracks)
  · obtain ⟨hc', hc''⟩ := allAlong_append.mp hc
    have hmid := run_keeps hD hdict h hc'
    rw [foldl_append]
    exact (run_keeps hD hdict hmid.1 hc'').2 (.inl (hmid.2 (.inr hchanged)))

/-- An agent with empty tables is settled. -/
theorem settled_of_empty (h : s.flows = []) : Settled T s where
  table := h ▸ TableInv.nil
  decomposes := by
    rw [h]
    exact nofun
  routed := by
    rw [h]
    exact nofun

open Sample

/-- Two flows are added, one of them again, a group is added, and a flow is deleted. -/
def Sample.mixedRequests : List Request :=
  [.flow (upstream 0 0x1000), .flow (upstream 0 0x1005),
    .flow (upstream 0 0x1000),
    .group { groupId := 7, buckets := [{ actions := [output 101] }] },
    .flow { upstream 0 0x1005 with command := .deleteStrict }]

theorem device_tables_track_sample :
    Tracks network (mixedRequests.foldl (afterRequest network) {}) :=
  device_tables_track digest_collisionFree (by decide +kernel) (settled_of_empty rfl)
    (by decide +kernel)
    (.inr ⟨[.flow (upstream 0 0x1000)], ⟨_, rfl⟩, .inl (by decide +kernel)⟩)

/-- The flow of `Sample.upstream` with its actions changed. -/
def Sample.otherActions : FlowMod :=
  { upstream 0 0x1000 with
    instructions := [{ type := .applyActions, data := .actions [output 0] }] }

/-- Adding a flow again with other actions is a change of the logical table that the devices never
hear of. -/
theorem readded_flow_not_propagated :
    let s := afterRequest network {} (.flow (upstream 0 0x1000))
    let s' := afterRequest network s (.flow Sample.otherActions)
    (handle network (.flow (upstream 0 0x1000)) {}).1 = .ok () ∧
      (handle network (.flow Sample.otherActions) s).1 = .ok () ∧
      Tracks network s ∧
      s'.flows.map instructions = [Sample.otherActions.instructions] ∧
      s'.devices "olt" = s.devices "olt" ∧ ¬ Tracks network s' := by
  intro s s'
  refine ⟨by decide +kernel, by decide +kernel, ?_, by decide +kernel, by decide +kernel, ?_⟩
  · refine ⟨(network.decompose s.flows s.groups).toOption.getD [], by decide +kernel, ?_⟩
    decide +kernel
  · rintro ⟨out, hout, hdev⟩
    have hok : network.decompose s'.flows s'.groups =
        .ok ((network.decompose s'.flows s'.groups).toOption.getD []) := by decide +kernel
    have hbad : ¬ ∀ p ∈ (network.decompose s'.flows s'.groups).toOption.getD [],
        s'.devices p.1 = (p.2.flows.map Prod.snd, p.2.groups.map Prod.snd) := by decide +kernel
    rw [Except.ok.inj (hout.symm.trans hok)] at hdev
    exact hbad hdev

end Voltha.Core
