import Voltha.Core.Decomposition
import Voltha.Core.FlowTable
import Voltha.Core.Multicast
import Voltha.Lib.Sweep

/-!
# Flows that are dropped

While the agent decomposes its flows, it deletes those that have no route.  Each deletion writes the
flow table, and the callback of the write decomposes what is left; a flow whose decomposition raises
ends the decomposition that has come to it.  Deletion is by identity: the table may hold several
flows of one identity, and then they go together, also if only one of them has no route.

So a decomposition is a sweep: the flows without a route are dropped, those that raise stop it.

* `Topology.dropped`: decomposing a flow deletes it.
* `Topology.Routeless`: a route is missing that its decomposition asks for; `dropped_iff` says that
  these are the flows that are dropped.
* `Topology.Swept`: the identities that are deleted in the end.
* `flowTableUpdated_sweeps`, `updateGroups_sweeps`: these are deleted, and no others.
-/

namespace Voltha.Core

open List Act Lockstep

variable {D : Digest} {T : Topology D}

/-! ## Flows that decomposition deletes -/

/-- A decomposer that only notes whether `flow_delete` was called. -/
def Topology.watch (T : Topology D) : Provider D Bool := T.provider fun _ _ => (.ok (), true)

/-- Decomposing the flow deletes it. -/
def Topology.dropped (T : Topology D) (groups : List GroupEntry) (flow : FlowStats D) : Bool :=
  (decomposeFlow T.watch flow (groupMapOf groups) false).2

theorem rules_eq_watch (groups : List GroupEntry) (flow : FlowStats D) (b : Bool) :
    (decomposeFlow T.watch flow (groupMapOf groups) b).1 = T.rules groups flow :=
  (decomposeFlow_lockstep (R := fun _ _ => True) (T.provider_alike _ fun _ => pure ())
    (of_forall fun _ _ _ => ⟨rfl, trivial⟩) _ b () trivial).1

variable {groups : List GroupEntry} {flow f : FlowStats D} {flows : List (FlowStats D)}
  {s : Agent D}

section

variable {σ : Type} {del : FlowStats D → Act σ Err Unit} (hdel : ∀ f s, (del f s).1 = .ok ())

include hdel

/-- Decomposing a flow that is not dropped leaves the state alone. -/
theorem decomposeFlow_of_not_dropped (h : T.dropped groups flow = false) (s : σ) :
    decomposeFlow (T.provider del) flow (groupMapOf groups) s = (T.rules groups flow, s) := by
  have hdelete : Lockstep (fun (s' : σ) (b : Bool) => b = false → s' = s) (fun _ => True) (del flow)
      (fun _ => (.ok (), true)) := of_forall fun s₁ _ _ => ⟨hdel flow s₁, nofun⟩
  have hlock := decomposeFlow_lockstep (T.provider_alike del fun _ _ => (.ok (), true)) hdelete
    (groupMapOf groups) s false (fun _ => rfl)
  exact Prod.ext (hlock.1.trans (rules_eq_watch groups flow false)) (hlock.2.1 h)

/-- Decomposing a flow that is dropped ends in a state in which the flow has been deleted. -/
theorem decomposeFlow_of_dropped (h : T.dropped groups flow = true) {Q : σ → Prop} {s : σ}
    (hfirst : Q (del flow s).2) (hmore : ∀ s', Q s' → Q (del flow s').2) :
    wp (decomposeFlow (T.provider del) flow (groupMapOf groups)) s fun r s' =>
      r = T.rules groups flow ∧ Q s' := by
  have hdelete : Lockstep (fun (s' : σ) (b : Bool) => b = true ∧ Q s' ∨ b = false ∧ s' = s)
      (fun _ => True) (del flow) (fun _ => (.ok (), true)) := by
    refine of_forall ?_
    rintro s₁ b (⟨-, hQ⟩ | ⟨-, rfl⟩)
    · exact ⟨hdel flow s₁, .inl ⟨rfl, hmore s₁ hQ⟩⟩
    · exact ⟨hdel flow s₁, .inl ⟨rfl, hfirst⟩⟩
  have hlock := decomposeFlow_lockstep (T.provider_alike del fun _ _ => (.ok (), true)) hdelete
    (groupMapOf groups) s false (.inr ⟨rfl, rfl⟩)
  refine ⟨hlock.1.trans (rules_eq_watch groups flow false), ?_⟩
  rcases hlock.2.1 with ⟨-, hQ⟩ | ⟨hfalse, -⟩
  · exact hQ
  · exact absurd (h.symm.trans hfalse) (by decide)

end

/-! ## Flows without a route -/

/-- The loop over the buckets comes to such a bucket. -/
def Topology.SomeBucketRouteless (T : Topology D) (flow : FlowStats D) (fields : List OfbField)
    (inPortNo : ℕ) (ingress : RouteHop) : Option ℕ × FlowRules D → List Bucket → Prop
  | _, [] => False
  | acc, bucket :: buckets =>
    T.BucketRouteless inPortNo acc.1 bucket ∨
      ∃ acc', bucketStep T flow fields inPortNo ingress acc bucket = .ok acc' ∧
        T.SomeBucketRouteless flow fields inPortNo ingress acc' buckets

/-- A route is missing that the decomposition of the flow asks for: that from its input port to its
output port; for a downstream flow to another table, that to the port of its metadata; or for a
multicast flow, that to the port of one of its buckets. -/
inductive Topology.Routeless (T : Topology D) (groupMap : List (ℕ × GroupEntry))
    (flow : FlowStats D) : Prop
  | ports {inPortNo outPortNo : Option ℕ} {fields : List OfbField} {actions : List Action}
      (hin : getInPort flow = .ok inPortNo) (hout : getOutPort flow = .ok outPortNo)
      (hfields : getOfbFields flow = .ok fields) (hactions : iterActions flow = .ok actions)
      (hroute : T.getRoute inPortNo outPortNo = .ok none)
  | innerTag {inPortNo : Option ℕ} {fields : List OfbField} {actions : List Action}
      {ingress : RouteHop} {egress : Option RouteHop} {tag : ℕ}
      (hin : getInPort flow = .ok inPortNo) (hout : getOutPort flow = .ok none)
      (hfields : getOfbFields flow = .ok fields) (hactions : iterActions flow = .ok actions)
      (hhalf : T.getRoute inPortNo none = .ok (some (some ingress, egress)))
      (hroot : ingress.device.root = true) (hnext : hasNextTable flow = true)
      (htag : getMetadata flow = .ok (some tag))
      (hroute : T.getRoute inPortNo (some tag) = .ok none)
  | bucket {inPortNo grpId : ℕ} {fields : List OfbField} {actions : List Action}
      {ingress : RouteHop} (h : T.Multicast flow inPortNo grpId fields actions ingress)
      (hroute : T.SomeBucketRouteless flow fields inPortNo ingress
        (none, multicastRules T flow fields actions inPortNo ingress [])
        ((groupMap.lookup grpId).getD {}).buckets)

section

variable {flow : FlowStats D} {fields : List OfbField} {inPortNo : ℕ} {ingress : RouteHop}

theorem foldlM_decomposeBucket_watch
    (hhalf : T.getRoute (some inPortNo) none = .ok (some (some ingress, none))) :
    ∀ (buckets : List Bucket) (acc : Option ℕ × FlowRules D) (d : Bool),
      (buckets.foldlM (decomposeBucket T.watch flow fields (some inPortNo) ingress) acc d).2 =
          true ↔
        d = true ∨ T.SomeBucketRouteless flow fields inPortNo ingress acc buckets
  | [], acc, d => by
    rw [Topology.SomeBucketRouteless, or_false]
    exact Iff.rfl
  | bucket :: buckets, acc, d => by
    obtain ⟨d', hround, hd⟩ : ∃ d', decomposeBucket T.watch flow fields (some inPortNo) ingress acc
        bucket d = (bucketStep T flow fields inPortNo ingress acc bucket, d') ∧ _ :=
      decomposeBucket_spec (fun _ _ => rfl) hhalf acc bucket d
    have hsnd : d' = true ↔ d = true ∨ T.BucketRouteless inPortNo acc.1 bucket := by
      rcases hd with ⟨h, rfl⟩ | ⟨h, rfl⟩
      · exact iff_of_true rfl (.inr h)
      · exact (or_iff_left h).symm
    rw [foldlM_cons, bind_apply, hround, Topology.SomeBucketRouteless, ← or_assoc, ← hsnd]
    rcases bucketStep T flow fields inPortNo ingress acc bucket with e | acc'
    · simp
    · exact (foldlM_decomposeBucket_watch hhalf buckets acc' d').trans (by simp)

end

/-- A flow that lacks a route is dropped. -/
theorem dropped_of_routeless (h : T.Routeless (groupMapOf groups) flow) :
    T.dropped groups flow = true := by
  have hgetRoute : T.watch.getRoute = T.getRoute := rfl
  rw [Topology.dropped]
  cases h with
  | ports hin hout hfields hactions hroute =>
    rw [decomposeFlow, hin, hout, hfields, hactions]
    simp only [ofExcept_ok_bind]
    rw [hgetRoute, hroute]
    rfl
  | innerTag hin hout hfields hactions hhalf hroot hnext htag hroute =>
    rw [decomposeFlow, hin, hout, hfields, hactions]
    simp only [ofExcept_ok_bind]
    rw [hgetRoute, hhalf]
    simp only [ofExcept_ok_bind, Option.any_none, Bool.false_eq_true, if_false]
    show ((if _ = false then _ else _ : Act Bool Err (FlowRules D)) false).2 = true
    rw [hroot, if_neg Bool.true_eq_false.mp, hnext, if_pos rfl, htag]
    show ((ofExcept (T.getRoute _ _) >>= _ : Act Bool Err (FlowRules D)) false).2 = true
    rw [hroute]
    rfl
  | bucket h hroute =>
    have heq : decomposeFlow T.watch flow (groupMapOf groups) = _ :=
      decomposeFlow_eq_multicast h (groupMapOf groups)
    rw [heq, bind_pure_apply]
    exact (foldlM_decomposeBucket_watch h.route _ _ false).mpr (.inr hroute)

/-- With a route to begin with, the flow has an input port. -/
theorem getRoute_half {inPortNo : Option ℕ} {ingressHop egressHop : Option RouteHop}
    (h : T.getRoute inPortNo none = .ok (some (ingressHop, egressHop))) :
    ∃ i ingress, inPortNo = some i ∧ ingressHop = some ingress ∧ egressHop = none := by
  rw [Topology.getRoute] at h
  dsimp only [Option.map_none] at h
  rw [if_neg (fun h => Option.some_ne_none _ h.2.symm)] at h
  rcases hfind : T.routes.find? (fun r => some r.1.1 = inPortNo) with _ | r
  · rw [hfind] at h
    cases h
  · rw [hfind] at h
    cases h
    have hin : some r.1.1 = inPortNo := by simpa using find?_some hfind
    exact ⟨_, _, hin.symm, rfl, rfl⟩

/-- Nothing else deletes a flow. -/
theorem wp_watch_routeless :
    wp (decomposeFlow T.watch flow (groupMapOf groups)) false fun _ d =>
      d = true → T.Routeless (groupMapOf groups) flow := by
  have hno : false = true → T.Routeless (groupMapOf groups) flow := nofun
  rw [decomposeFlow]
  refine wp_ofExcept_bind_of (fun _ => hno) fun inPortNo hin => ?_
  refine wp_ofExcept_bind_of (fun _ => hno) fun outPortNo hout => ?_
  refine wp_ofExcept_bind_of (fun _ => hno) fun fields hfields => ?_
  refine wp_ofExcept_bind_of (fun _ => hno) fun actions hactions => ?_
  refine wp_ofExcept_bind_of (fun _ => hno) fun route hroute => ?_
  rcases route with _ | ⟨ingressHop, egressHop⟩
  · exact fun _ => Topology.Routeless.ports hin hout hfields hactions hroute
  dsimp only
  split
  · exact wp_ofExcept_bind_of (fun _ => hno) fun _ _ => hno
  refine wp_ofExcept_bind_of (fun _ => hno) fun ingress hingress => ?_
  split
  · split
    · exact wp_ofExcept_bind_of (fun _ => hno) fun _ _ => hno
    · refine wp_ofExcept_bind_of (fun _ => hno) fun _ _ => ?_
      exact wp_ofExcept_bind_of (fun _ => hno) fun _ _ => hno
  next hroot =>
  rw [Bool.not_eq_false] at hroot
  split
  · next hnext =>
    refine wp_ofExcept_bind_of (fun _ => hno) fun _ hassert => ?_
    refine wp_ofExcept_bind_of (fun _ => hno) fun innerTag htag => ?_
    rcases innerTag with _ | tag
    · exact hno
    refine wp_ofExcept_bind_of (fun _ => hno) fun route2 hroute2 => ?_
    rcases route2 with _ | ⟨ingressHop2, egressHop2⟩
    · intro _
      obtain rfl : outPortNo = none := by
        rcases outPortNo with _ | p
        · rfl
        · cases hassert
      obtain ⟨i, ingress', rfl, rfl, rfl⟩ := getRoute_half hroute
      cases hingress
      exact Topology.Routeless.innerTag hin hout hfields hactions hroute hroot hnext htag hroute2
    · exact wp_ofExcept_bind_of (fun _ => hno) fun _ _ => hno
  · next hnext =>
    split
    · exact wp_ofExcept_bind_of (fun _ => hno) fun _ _ => hno
    · next hnone =>
      rw [Bool.not_eq_true, Option.isSome_eq_false_iff, Option.isNone_iff_eq_none] at hnone
      subst hnone
      obtain ⟨i, ingress', rfl, rfl, rfl⟩ := getRoute_half hroute
      cases hingress
      rcases hgroup : getGroup flow with e | _ | grpId
      · rw [decomposeMulticast, hgroup]
        exact hno
      · rw [decomposeMulticast, hgroup]
        exact hno
      · have h : T.Multicast flow i grpId fields actions ingress :=
          ⟨hin, hout, hfields, hactions, hgroup, Bool.not_eq_true _ ▸ hnext, hroute, hroot⟩
        rw [decomposeMulticast, hgroup, ofExcept_ok_bind]
        dsimp only
        rw [wp_def, bind_pure_apply]
        intro hd
        exact Topology.Routeless.bucket h
          (((foldlM_decomposeBucket_watch h.route _ _ false).mp hd).resolve_left (by decide))

/-- **The flows that are dropped are those that lack a route.** -/
theorem dropped_iff : T.dropped groups flow = true ↔ T.Routeless (groupMapOf groups) flow :=
  ⟨wp_watch_routeless, dropped_of_routeless⟩

/-! ## The sweep -/

/-- The identities that a decomposition of the flows deletes: those of the flows without a route, if
the flows before them whose decomposition raises are deleted. -/
def Topology.Swept (T : Topology D) (groups : List GroupEntry) (flows : List (FlowStats D)) :
    FlowKey → Prop :=
  Sweep.Swept FlowStats.key (T.Routeless (groupMapOf groups))
    (fun f => ∃ e, T.rules groups f = .error e) flows

/-- The flows that a decomposition leaves. -/
noncomputable def Topology.unswept (T : Topology D) (groups : List GroupEntry)
    (flows : List (FlowStats D)) : List (FlowStats D) :=
  Sweep.unswept FlowStats.key (T.Routeless (groupMapOf groups))
    (fun f => ∃ e, T.rules groups f = .error e) flows

/-- The flow lacks a route, and the decomposition of the flows comes to it. -/
structure Topology.DropsFirst (T : Topology D) (groups : List GroupEntry)
    (flows : List (FlowStats D)) (f : FlowStats D) : Prop where
  routeless : T.Routeless (groupMapOf groups) f
  reached : ∃ done todo, flows = done ++ f :: todo ∧
    ∀ g ∈ done, ¬ ∃ e, T.rules groups g = .error e

section

variable (h : T.DropsFirst groups flows f)
include h

theorem Topology.DropsFirst.mem : f ∈ flows := by
  obtain ⟨done, todo, rfl, -⟩ := h.reached
  simp

theorem Topology.DropsFirst.swept : T.Swept groups flows f.key := by
  obtain ⟨done, todo, hflows, hdone⟩ := h.reached
  exact Sweep.Swept.drop done todo f hflows (fun g hg hraise => absurd hraise (hdone g hg))
    h.routeless

theorem Topology.DropsFirst.unswept_toKeep :
    T.unswept groups (toKeep f flows) = T.unswept groups flows := by
  obtain ⟨done, todo, hflows, hdone⟩ := h.reached
  have hkeep : toKeep f flows = flows.filter fun g => g.key ≠ f.key := by
    refine filter_congr fun g _ => ?_
    rw [Bool.eq_iff_iff, Bool.not_eq_true', ← Bool.not_eq_true, flowMatch_iff, decide_eq_true_eq]
  rw [hkeep]
  exact Sweep.unswept_remove hflows hdone h.routeless

end

section

variable {del : FlowStats D → Act (Agent D) Err Unit} (hdel : ∀ f s, (del f s).1 = .ok ())
  (hdrop : ∀ f, T.DropsFirst groups flows f → ∀ s : Agent D, s.groups = groups →
    s.flows = flows ∨ s.flows = T.unswept groups flows →
      (del f s).2.flows = T.unswept groups flows ∧ (del f s).2.groups = groups)
  (hflows : s.flows = flows) (hgroups : s.groups = groups)

include hdel hdrop hflows hgroups

/-- **What a decomposition leaves**, if each deletion does: until the first deletion all flows are
there, and from then on those that are not swept. -/
theorem decomposeRules_sweeps :
    wp (decomposeRules (T.provider del) flows groups) s fun _ s' =>
      s'.flows = T.unswept groups flows ∧ s'.groups = groups := by
  have hloop := wp_foldlM
    (f := fun deviceRules flow => do
      let rules ← decomposeFlow (T.provider del) flow (groupMapOf groups)
      pure (rules.foldl mergeRules deviceRules))
    (I := fun todo _ s' => ∃ done, flows = done ++ todo ∧
      (∀ g ∈ done, ¬ ∃ e, T.rules groups g = .error e) ∧ s'.groups = groups ∧
      (s'.flows = T.unswept groups flows ∨
        s'.flows = flows ∧ ∀ g ∈ done, ¬ T.Routeless (groupMapOf groups) g))
    (E := fun _ s' => s'.flows = T.unswept groups flows ∧ s'.groups = groups) ?_ flows
    T.defaultRules s ⟨[], rfl, nofun, hgroups,
      .inr ⟨hflows, nofun⟩⟩
  · refine wp_mono hloop ?_
    rintro (e | out) s' hr
    · exact hr
    · obtain ⟨done, hdone, -, hg, hf | ⟨hf, hnone⟩⟩ := hr
      · exact ⟨hf, hg⟩
      · refine ⟨hf.trans (Sweep.unswept_eq_self hdone hnone ?_).symm, hg⟩
        exact nofun
  · rintro f todo acc s₁ ⟨done, hsplit, hdone, hg, hf⟩
    have hnext : ∀ rules, T.rules groups f = .ok rules →
        ∀ g ∈ done ++ [f], ¬ ∃ e, T.rules groups g = .error e := by
      intro rules hrules
      refine forall_mem_append.mpr ⟨hdone, forall_mem_singleton.mpr ?_⟩
      rw [hrules]
      exact nofun
    rw [wp_bind]
    cases hd : T.dropped groups f
    · have hnot : ¬ T.Routeless (groupMapOf groups) f := by
        rw [← dropped_iff, hd]
        decide
      rw [wp_def, decomposeFlow_of_not_dropped hdel hd]
      rcases hrules : T.rules groups f with e | rules
      · -- the flow stops the sweep
        refine ⟨?_, hg⟩
        rcases hf with hf | ⟨hf, hnone⟩
        · exact hf
        · refine hf.trans (Sweep.unswept_eq_self hsplit hnone ?_).symm
          rintro _ ⟨⟩
          exact ⟨⟨e, hrules⟩, hnot⟩
      · refine ⟨done ++ [f], by simp [hsplit], hnext rules hrules, hg, hf.imp id ?_⟩
        rintro ⟨hf, hnone⟩
        exact ⟨hf, forall_mem_append.mpr ⟨hnone, forall_mem_singleton.mpr hnot⟩⟩
    · have hfirst := hdrop f ⟨dropped_iff.mp hd, done, todo, hsplit, hdone⟩
      refine wp_mono (decomposeFlow_of_dropped hdel hd
        (Q := fun s' : Agent D => s'.flows = T.unswept groups flows ∧ s'.groups = groups)
        (hfirst s₁ hg (hf.symm.imp (fun h => h.1) id))
        fun s' hQ => hfirst s' hQ.2 (.inr hQ.1)) ?_
      rintro (e | rules) s' ⟨hrules, hQ⟩
      · exact hQ
      · exact ⟨done ++ [f], by simp [hsplit], hnext rules hrules.symm, hQ.2, .inl hQ.1⟩

theorem propagate_sweeps :
    wp (propagate (T.provider del) flows groups) s fun _ s' =>
      s'.flows = T.unswept groups flows ∧ s'.groups = groups := by
  rw [propagate, wp_bind]
  refine wp_mono (decomposeRules_sweeps hdel hdrop hflows hgroups) ?_
  rintro (e | out) s' ⟨hf, hg⟩
  · exact ⟨hf, hg⟩
  · obtain ⟨hwf, hwg, -⟩ := writeDevices_frame out s'
    exact ⟨hwf.trans hf, hwg.trans hg⟩

end

section

variable (hD : D.CollisionFree)
include hD

/-- A write that removes a flow changes the set of ids. -/
theorem flag_of_removed {items : List (FlowStats D)} (h : Hashed flows) (hsub : items ⊆ flows)
    (hf : f ∈ flows) (hgone : ∀ g ∈ items, g.key ≠ f.key) (hs : s.flows = flows) :
    (preProcessFlows items s).noFlowChangesRequired = false := by
  rw [← Bool.not_eq_true, noFlowChangesRequired_iff]
  intro hids
  rw [hs] at hids
  obtain ⟨g, hg, hid⟩ := mem_map.mp ((hids f.id).mpr (mem_map_of_mem hf))
  rw [h g (hsub hg), h f hf] at hid
  exact hgone g hg (hD hid)

/-- The deletion of a dropped flow, given what the callback after the nested write does. -/
theorem flowDeleteEntry_sweeps (h : Hashed flows)
    {post : List (FlowStats D) → Act (Agent D) Err Unit}
    (hpost : ∀ items s, items.length < flows.length → items.Sublist flows →
      s.flows = items → s.groups = groups → s.noFlowChangesRequired = false →
      (post items s).2.flows = T.unswept groups items ∧ (post items s).2.groups = groups)
    (hf : T.DropsFirst groups flows f) (hgroups : s.groups = groups)
    (hflows : s.flows = flows ∨ s.flows = T.unswept groups flows) :
    (flowDeleteEntry post f s).2.flows = T.unswept groups flows ∧
      (flowDeleteEntry post f s).2.groups = groups := by
  rcases hflows with hflows | hflows
  · have hmem : f ∈ s.flows := hflows ▸ hf.mem
    rw [flowDeleteEntry_of_mem hmem rfl, ← hf.unswept_toKeep, hflows]
    refine hpost (toKeep f flows) _ (length_toKeep_lt hf.mem rfl) filter_sublist rfl hgroups ?_
    exact flag_of_removed hD h (filter_subset_self _) hf.mem
      (fun g hg => (mem_toKeep.mp hg).2) hflows
  · rw [flowDeleteEntry_of_notMem]
    · exact ⟨hflows, hgroups⟩
    · -- the flow has been deleted with those of its identity
      intro g hg hkey
      rw [hflows] at hg
      refine (Sweep.mem_unswept.mp hg).2 ?_
      rw [hkey]
      exact hf.swept

/-- **The nested writes delete the flows that are swept**, all of them and no others. -/
theorem flowTableUpdated_sweeps (fuel : ℕ) :
    ∀ (flows : List (FlowStats D)) (s : Agent D), flows.length < fuel → s.flows = flows →
      s.groups = groups → s.noFlowChangesRequired = false → Hashed flows →
        (flowTableUpdated T fuel flows s).2.flows = T.unswept groups flows ∧
          (flowTableUpdated T fuel flows s).2.groups = groups := by
  induction fuel with
  | zero => exact fun _ _ h => absurd h (Nat.not_lt_zero _)
  | succ fuel ih =>
    intro flows s hlen hflows hgroups hflag hhash
    have hprop := propagate_sweeps (flowDeleteEntry_fst (flowTableUpdated T fuel))
      (fun f hf s₁ hg hs₁ => flowDeleteEntry_sweeps hD hhash
        (fun items s₂ hlt hsub h2 hg2 hflag2 => ih items s₂ (by omega) h2 hg2 hflag2
          (hhash.sublist hsub)) hf hg hs₁) hflows hgroups
    unfold flowTableUpdated
    rw [hflag, hgroups]
    exact hprop

/-- **A write of the group table deletes the flows that are swept with the new groups.** -/
theorem updateGroups_sweeps (h : Hashed s.flows) {items : List GroupEntry}
    (hne : s.groups ≠ items) :
    (updateGroups T items s).2.flows = T.unswept items s.flows ∧
      (updateGroups T items s).2.groups = items := by
  have hwrite : updateGroups T items s = (.ok (), (groupTableUpdated T items
      { s with groups := items }).2) := if_neg hne
  have hprop : wp (groupTableUpdated T items) { s with groups := items } fun _ s' =>
      s'.flows = T.unswept items s.flows ∧ s'.groups = items := by
    rw [groupTableUpdated, wp_bind, wp_read, seqPost_ok]
    refine propagate_sweeps (flowDeleteEntry_fst _) (fun f hf s₁ hg hs₁ => ?_) rfl rfl
    exact flowDeleteEntry_sweeps hD h (fun items' s₂ hlt hsub h2 hg2 hflag2 =>
      flowTableUpdated_sweeps hD _ items' s₂ hlt h2 hg2 hflag2 (h.sublist hsub)) hf hg hs₁
  rw [hwrite]
  exact hprop

end

end Voltha.Core
