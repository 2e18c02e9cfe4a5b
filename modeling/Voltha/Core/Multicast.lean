import Voltha.Core.Nesting
import Voltha.Lib.Run

/-!
# The buckets of a multicast group

A downstream flow without output port and next table sends to a group.  `decompose_flow` gives one
rule to the ingress device and then goes through the buckets of the group: the output port of a
bucket decides to which device its rule goes.  The output port is a variable of the whole function,
so a bucket without an output action is sent to the port of the bucket before it; without one,
the route has no egress hop, and its attribute is read.

* `bucketRules`: the rules of a bucket, from its own output port and its own other actions.
* `bucketStep`: one round of the loop; `decomposeBucket_spec` says that `decomposeBucket` comes to
  it.
* `foldlM_bucketStep_ok`, `le_of_foldlM_bucketStep`: the loop yields the rules of the buckets, and
  never less; `multicast_buckets_iff` says when it yields them exactly.
-/

namespace Voltha.Core

open List OrderedDict Act

variable {D : Digest} {T : Topology D} {σ : Type}

/-! ## A bucket by itself -/

/-- The output port of a bucket: that of its last output action. -/
def ownOutput (bucket : Bucket) : Option ℕ :=
  (bucket.actions.filter fun a => a.type = .output).getLast?.map Action.outputPort

/-- The actions of a bucket that stay. -/
def otherActions (bucket : Bucket) : List Action :=
  bucket.actions.filter fun a => a.type ≠ .popVlan ∧ a.type ≠ .output

theorem scanBucket_foldl (actions : List Action) : ∀ (o : Option ℕ) (others : List Action),
    actions.foldl
      (fun acc a =>
        if a.type = .popVlan then acc
        else if a.type = .output then (some a.outputPort, acc.2)
        else (acc.1, acc.2 ++ [a]))
      (o, others) =
      (((actions.filter fun a => a.type = .output).getLast?.map Action.outputPort).or o,
        others ++ actions.filter fun a => a.type ≠ .popVlan ∧ a.type ≠ .output) := by
  induction actions with
  | nil => intro o others; simp
  | cons a actions ih =>
    intro o others
    rw [foldl_cons]
    by_cases hpop : a.type = .popVlan
    · rw [if_pos hpop, ih]
      simp [hpop]
    · rw [if_neg hpop]
      by_cases hout : a.type = .output
      · rw [if_pos hout, ih, filter_cons_of_pos (by simpa using hout),
          filter_cons_of_neg (by simp [hout]), getLast?_cons]
        refine Prod.ext ?_ rfl
        generalize (List.filter (fun a => decide (a.type = .output)) actions).getLast? = last
        cases last <;> rfl
      · rw [if_neg hout, ih, filter_cons_of_neg (by simpa using hout),
          filter_cons_of_pos (by simp [hpop, hout]), append_assoc]
        rfl

/-- What the scan of a bucket finds, beside the port that it is given. -/
theorem scanBucket_eq (o : Option ℕ) (bucket : Bucket) :
    scanBucket o bucket.actions = ((ownOutput bucket).or o, otherActions bucket) := by
  rw [scanBucket, scanBucket_foldl, nil_append]
  rfl

/-- The route between two logical ports. -/
def Topology.route (T : Topology D) (ingressPortNo egressPortNo : ℕ) :
    Option (RouteHop × RouteHop) :=
  T.routes.lookup (ingressPortNo,
    if egressPortNo &&& 0x7fffffff = ofppController then T.nniLogicalPortNo else egressPortNo)

theorem getRoute_some (i p : ℕ) :
    T.getRoute (some i) (some p) = .ok ((T.route i p).map fun r => (some r.1, some r.2)) := by
  simp [Topology.getRoute, Topology.route]

/-- The rule that a bucket gives to the egress device of a route. -/
def bucketRule (flow : FlowStats D) (fields : List OfbField) (egress : RouteHop)
    (bucket : Bucket) : String × FlowStats D :=
  (egress.device.id,
    hopFlow flow (fieldsBut [.inPort, .vlanVid, .vlanPcp] fields) egress (otherActions bucket))

/-- **The rules of a bucket by itself**: one for the egress device of the route to its output port,
if it has an output port and there is a route. -/
def bucketRules (T : Topology D) (flow : FlowStats D) (fields : List OfbField) (inPortNo : ℕ)
    (bucket : Bucket) : List (String × FlowStats D) :=
  match (ownOutput bucket).bind (T.route inPortNo) with
  | none => []
  | some (_, egress) => [bucketRule flow fields egress bucket]

/-- A rule is added to those of its device. -/
def addRule (rules : FlowRules D) (r : String × FlowStats D) : FlowRules D :=
  appendFlows r.1 [r.2] rules

/-- The rules of a multicast flow: that of the ingress device, and those of the buckets. -/
def multicastRules (T : Topology D) (flow : FlowStats D) (fields : List OfbField)
    (actions : List Action) (inPortNo : ℕ) (ingress : RouteHop) (buckets : List Bucket) :
    FlowRules D :=
  (buckets.flatMap (bucketRules T flow fields inPortNo)).foldl addRule
    (appendFlows ingress.device.id
      [hopFlow flow (fieldsBut [.inPort] fields) ingress (actionsBut .group actions ++ [popVlan])]
      [])

/-! ## A round of the loop -/

/-- One bucket, with the output port that is left from the buckets before. -/
def bucketStep (T : Topology D) (flow : FlowStats D) (fields : List OfbField) (inPortNo : ℕ)
    (ingress : RouteHop) (acc : Option ℕ × FlowRules D) (bucket : Bucket) :
    Except Err (Option ℕ × FlowRules D) :=
  match (ownOutput bucket).or acc.1 with
  | none => (hopOf "device" none).map fun _ => acc
  | some p =>
    match T.route inPortNo p with
    | none => .ok (some p, acc.2)
    | some (ingress2, egress) =>
      if ingress.ingressPort = ingress2.ingressPort then
        .ok (some p, addRule acc.2 (bucketRule flow fields egress bucket))
      else
        .error (.assertionError "ingress_hop.ingress_port == ingress_hop2.ingress_port")

variable {del : FlowStats D → Act σ Err Unit} {flow : FlowStats D} {fields : List OfbField}
  {inPortNo : ℕ} {ingress : RouteHop}

/-- The output port that is left after a bucket. -/
def nextOutput (o : Option ℕ) (bucket : Bucket) : Option ℕ := (ownOutput bucket).or o

/-- The bucket is to be sent to a port to which there is no route. -/
def Topology.BucketRouteless (T : Topology D) (inPortNo : ℕ) (o : Option ℕ) (bucket : Bucket) :
    Prop :=
  ∃ p, nextOutput o bucket = some p ∧ T.route inPortNo p = none

/-- **What a round does**, in every state, if there is a route from the input port: it comes to
`bucketStep`, and it deletes the flow exactly if the bucket cannot be sent. -/
theorem decomposeBucket_spec (hdel : ∀ f s, (del f s).1 = .ok ())
    (hhalf : T.getRoute (some inPortNo) none = .ok (some (some ingress, none)))
    (acc : Option ℕ × FlowRules D) (bucket : Bucket) (s : σ) :
    ∃ s', decomposeBucket (T.provider del) flow fields (some inPortNo) ingress acc bucket s =
        (bucketStep T flow fields inPortNo ingress acc bucket, s') ∧
      (T.BucketRouteless inPortNo acc.1 bucket ∧ s' = (del flow s).2 ∨
        ¬ T.BucketRouteless inPortNo acc.1 bucket ∧ s' = s) := by
  have hroute : (T.provider del).getRoute = T.getRoute := rfl
  rw [decomposeBucket, scanBucket_eq, bucketStep, hroute, Topology.BucketRouteless, nextOutput]
  dsimp only
  rcases (ownOutput bucket).or acc.1 with _ | p
  · refine ⟨s, ?_, .inr ⟨by simp, rfl⟩⟩
    rw [hhalf]
    show (ofExcept (pyAssert (decide (ingress.ingressPort = ingress.ingressPort)) _) >>= _ :
      Act σ Err _) s = _
    rw [pyAssert_of rfl]
    rfl
  · rw [getRoute_some]
    dsimp only
    rcases hr : T.route inPortNo p with _ | ⟨ingress2, egress⟩
    · refine ⟨(del flow s).2, ?_, .inl ⟨⟨p, rfl, hr⟩, rfl⟩⟩
      exact bind_of_ok (Prod.ext (hdel flow s) rfl)
    · refine ⟨s, ?_, .inr ⟨by simp [hr], rfl⟩⟩
      show (ofExcept (pyAssert (decide (ingress.ingressPort = ingress2.ingressPort)) _) >>= _ :
        Act σ Err _) s = _
      dsimp only
      by_cases hport : ingress.ingressPort = ingress2.ingressPort
      · rw [pyAssert_of hport, if_pos hport]
        rfl
      · rw [pyAssert, if_neg (by simpa using hport), if_neg hport]
        rfl

/-! ## The loop -/

/-- A bucket that is decomposed by itself: the route to its output port, if there is one, begins
where the flow comes in; or it has no output port, and there is no route to the port that is left
from the buckets before. -/
def BucketFits (T : Topology D) (inPortNo : ℕ) (ingress : RouteHop) (o : Option ℕ)
    (bucket : Bucket) : Prop :=
  match ownOutput bucket with
  | some p => ∀ r, T.route inPortNo p = some r → ingress.ingressPort = r.1.ingressPort
  | none => ∃ p, o = some p ∧ T.route inPortNo p = none

/-- The number of rules for all devices. -/
def ruleCount (rules : FlowRules D) : ℕ := (rules.flatMap Prod.snd).length

open Option

theorem ruleCount_addRule (rules : FlowRules D) (r : String × FlowStats D) :
    ruleCount (addRule rules r) = ruleCount rules + 1 := by
  rw [addRule, appendFlows, ruleCount, ruleCount]
  rcases h : rules.lookup r.1 with _ | l
  · have hnot : r.1 ∉ rules.map Prod.fst := fun hmem => by
      obtain ⟨v, hv⟩ := exists_lookup hmem
      rw [h] at hv
      cases hv
    rw [insert_of_notMem hnot, flatMap_append]
    simp
  · have hlen := length_flatMap_insert ((some l).getD [] ++ [r.2]) h
    rw [length_append, getD_some] at hlen
    simp only [getD_some, length_singleton] at hlen ⊢
    omega

theorem ruleCount_foldl (l : List (String × FlowStats D)) :
    ∀ rules : FlowRules D, ruleCount (l.foldl addRule rules) = ruleCount rules + l.length := by
  induction l with
  | nil => exact fun _ => rfl
  | cons r l ih =>
    intro rules
    rw [foldl_cons, ih, ruleCount_addRule, length_cons]
    omega

/-- A bucket that fits adds its own rules. -/
theorem bucketStep_of_fits {o : Option ℕ} {bucket : Bucket} (rules : FlowRules D)
    (h : BucketFits T inPortNo ingress o bucket) :
    bucketStep T flow fields inPortNo ingress (o, rules) bucket =
      .ok (nextOutput o bucket,
        (bucketRules T flow fields inPortNo bucket).foldl addRule rules) := by
  rw [BucketFits] at h
  rw [bucketStep, nextOutput, bucketRules]
  rcases ho : ownOutput bucket with _ | p
  · rw [ho] at h
    obtain ⟨p, rfl, hroute⟩ := h
    simp only [none_or, hroute, bind_none, foldl_nil]
  · rw [ho] at h
    rcases hroute : T.route inPortNo p with _ | ⟨ingress2, egress⟩
    · simp [hroute]
    · have hport := h _ hroute
      simp [hroute, hport]

/-- A bucket adds at least its own rules, and no more only if it fits. -/
theorem bucketStep_count {o o' : Option ℕ} {bucket : Bucket} {rules rules' : FlowRules D}
    (h : bucketStep T flow fields inPortNo ingress (o, rules) bucket = .ok (o', rules')) :
    o' = nextOutput o bucket ∧
      ruleCount rules + (bucketRules T flow fields inPortNo bucket).length ≤ ruleCount rules' ∧
      (ruleCount rules' = ruleCount rules + (bucketRules T flow fields inPortNo bucket).length →
        BucketFits T inPortNo ingress o bucket) := by
  rw [bucketStep] at h
  rw [nextOutput, bucketRules, BucketFits]
  rcases ho : ownOutput bucket with _ | p
  · rw [ho, none_or] at h
    rcases o with _ | p
    · cases h
    · dsimp only at h
      rcases hroute : T.route inPortNo p with _ | ⟨ingress2, egress⟩
      · rw [hroute] at h
        obtain ⟨rfl, rfl⟩ := Prod.mk.inj (Except.ok.inj h)
        exact ⟨rfl, Nat.le_refl _, fun _ => ⟨p, rfl, hroute⟩⟩
      · -- the port of another bucket: one rule too many
        rw [hroute] at h
        dsimp only at h
        split at h
        · obtain ⟨rfl, rfl⟩ := Prod.mk.inj (Except.ok.inj h)
          rw [ruleCount_addRule]
          exact ⟨rfl, Nat.le_succ _, fun heq => absurd heq (Nat.succ_ne_self _)⟩
        · cases h
  · rw [ho, some_or] at h
    dsimp only at h
    rcases hroute : T.route inPortNo p with _ | ⟨ingress2, egress⟩
    · rw [hroute] at h
      obtain ⟨rfl, rfl⟩ := Prod.mk.inj (Except.ok.inj h)
      simp [hroute]
    · rw [hroute] at h
      dsimp only at h
      split at h
      · next hport =>
        obtain ⟨rfl, rfl⟩ := Prod.mk.inj (Except.ok.inj h)
        rw [ruleCount_addRule]
        simp [hroute, hport]
      · cases h

/-- **Buckets that fit add their own rules, one after the other.** -/
theorem foldlM_bucketStep_ok : ∀ {buckets : List Bucket} {o : Option ℕ} (rules : FlowRules D),
    AllAlong nextOutput (BucketFits T inPortNo ingress) o buckets →
      buckets.foldlM (bucketStep T flow fields inPortNo ingress) (o, rules) =
        .ok (buckets.foldl nextOutput o,
          (buckets.flatMap (bucketRules T flow fields inPortNo)).foldl addRule rules)
  | [], _, _, _ => rfl
  | bucket :: buckets, o, rules, h => by
    rw [foldlM_cons, bucketStep_of_fits rules h.1, flatMap_cons, foldl_append,
      foldl_cons]
    exact foldlM_bucketStep_ok _ h.2

/-- The loop yields at least the rules of the buckets, and no more only if they all fit. -/
theorem le_of_foldlM_bucketStep : ∀ {buckets : List Bucket} {o o' : Option ℕ}
    {rules rules' : FlowRules D},
    buckets.foldlM (bucketStep T flow fields inPortNo ingress) (o, rules) = .ok (o', rules') →
      ruleCount rules + (buckets.flatMap (bucketRules T flow fields inPortNo)).length ≤
          ruleCount rules' ∧
        (ruleCount rules' =
            ruleCount rules + (buckets.flatMap (bucketRules T flow fields inPortNo)).length →
          AllAlong nextOutput (BucketFits T inPortNo ingress) o buckets)
  | [], o, o', rules, rules', h => by
    obtain ⟨rfl, rfl⟩ := Prod.mk.inj (Except.ok.inj h)
    exact ⟨Nat.le_refl _, fun _ => trivial⟩
  | bucket :: buckets, o, o', rules, rules', h => by
    rw [foldlM_cons] at h
    rcases hstep : bucketStep T flow fields inPortNo ingress (o, rules) bucket with e | ⟨o₁, rules₁⟩
    · rw [hstep] at h
      cases h
    · rw [hstep] at h
      obtain ⟨rfl, hle, hfits⟩ := bucketStep_count hstep
      obtain ⟨hle', hall⟩ := le_of_foldlM_bucketStep h
      rw [flatMap_cons, length_append]
      refine ⟨by omega, fun heq => ⟨hfits (by omega), hall (by omega)⟩⟩

/-! ## Multicast flows -/

/-- A downstream multicast flow: it comes in on a logical port from which there is a route, at the
root device, has a group, and neither an output port nor a next table. -/
structure Topology.Multicast (T : Topology D) (flow : FlowStats D) (inPortNo grpId : ℕ)
    (fields : List OfbField) (actions : List Action) (ingress : RouteHop) : Prop where
  inPort : getInPort flow = .ok (some inPortNo)
  outPort : getOutPort flow = .ok none
  fields : getOfbFields flow = .ok fields
  actions : iterActions flow = .ok actions
  group : getGroup flow = .ok (some grpId)
  noNextTable : hasNextTable flow = false
  route : T.getRoute (some inPortNo) none = .ok (some (some ingress, none))
  root : ingress.device.root = true

variable {grpId : ℕ} {actions : List Action}

section

variable (h : T.Multicast flow inPortNo grpId fields actions ingress)
include h

/-- A multicast flow is decomposed bucket by bucket. -/
theorem decomposeFlow_eq_multicast (groupMap : List (ℕ × GroupEntry)) :
    decomposeFlow (T.provider del) flow groupMap =
      ((groupMap.lookup grpId).getD {}).buckets.foldlM
        (decomposeBucket (T.provider del) flow fields (some inPortNo) ingress)
        (none, multicastRules T flow fields actions inPortNo ingress []) >>= fun acc =>
      pure acc.2 := by
  have hroute : (T.provider del).getRoute (some inPortNo) none =
      .ok (some (some ingress, none)) := h.route
  rw [decomposeFlow, h.inPort, h.outPort, h.fields, h.actions]
  simp only [ofExcept_ok_bind]
  rw [hroute]
  simp only [ofExcept_ok_bind, any_none, Bool.false_eq_true, if_false]
  show (if ingress.device.root = false then _ else _ : Act σ Err (FlowRules D)) = _
  rw [h.root, if_neg Bool.true_eq_false.mp, h.noNextTable]
  show decomposeMulticast (T.provider del) flow groupMap fields actions (some inPortNo) ingress = _
  rw [decomposeMulticast, h.group, ofExcept_ok_bind]
  rfl

/-- What `decompose_flow` comes to for a multicast flow. -/
theorem decomposeFlow_multicast (hdel : ∀ f s, (del f s).1 = .ok ())
    (groupMap : List (ℕ × GroupEntry)) (s : σ) :
    (decomposeFlow (T.provider del) flow groupMap s).1 =
      (((groupMap.lookup grpId).getD {}).buckets.foldlM
        (bucketStep T flow fields inPortNo ingress)
        (none, multicastRules T flow fields actions inPortNo ingress [])).map Prod.snd := by
  rw [decomposeFlow_eq_multicast h, bind_pure_apply, foldlM_fst fun acc bucket s => ?_]
  obtain ⟨s', hround, -⟩ := decomposeBucket_spec hdel h.route acc bucket s
  rw [hround]

end

/-- **When the buckets of a group are decomposed independently.**  For every downstream multicast
flow and every group, `decompose_flow` returns the rule of the ingress device and the rules of each
bucket by itself, if and only if every bucket without an output action comes after one with an
output action, and the last of these has a port without a route; and the routes to the output ports
of the buckets begin at the port where the flow comes in. -/
theorem multicast_buckets_iff (h : T.Multicast flow inPortNo grpId fields actions ingress)
    (post : List (FlowStats D) → Act (Agent D) Err Unit) (groupMap : List (ℕ × GroupEntry))
    (s : Agent D) :
    (decomposeFlow (T.provider (flowDeleteEntry post)) flow groupMap s).1 =
        .ok (multicastRules T flow fields actions inPortNo ingress
          ((groupMap.lookup grpId).getD {}).buckets) ↔
      AllAlong nextOutput (BucketFits T inPortNo ingress) none
        ((groupMap.lookup grpId).getD {}).buckets := by
  rw [decomposeFlow_multicast h (flowDeleteEntry_fst post)]
  generalize ((groupMap.lookup grpId).getD {}).buckets = buckets
  constructor
  · intro heq
    rcases hfold : buckets.foldlM (bucketStep T flow fields inPortNo ingress)
      (none, multicastRules T flow fields actions inPortNo ingress []) with e | ⟨o, rules⟩
    · rw [hfold] at heq
      cases heq
    · rw [hfold] at heq
      obtain rfl : rules = _ := Except.ok.inj heq
      exact (le_of_foldlM_bucketStep hfold).2 (ruleCount_foldl ..)
  · intro hfits
    rw [foldlM_bucketStep_ok _ hfits]
    rfl

namespace Sample

/-- A downstream flow to a group. -/
def toGroup : FlowStats digest :=
  mkFlowStat digest 1000 0 [inPort 0] [{ type := .group, action := .group 7 }]

/-- A group with the given buckets. -/
def groupOf (buckets : List (List Action)) : List (ℕ × GroupEntry) :=
  [(7, { groupId := 7, buckets := buckets.map fun actions => { actions := actions } })]

theorem toGroup_multicast :
    network.Multicast toGroup 0 7 [inPort 0] [{ type := .group, action := .group 7 }]
      ⟨olt, oltNni, oltPon⟩ where
  inPort := by decide +kernel
  outPort := by decide +kernel
  fields := by decide +kernel
  actions := by decide +kernel
  group := by decide +kernel
  noNextTable := by decide +kernel
  route := by decide +kernel
  root := rfl

end Sample

open Sample

/-- A bucket for the customer, one for a port without a route, and one without an output. -/
theorem multicast_buckets_sample :
    (decomposeFlow (network.provider (flowDeleteEntry fun _ => pure ())) toGroup
        (groupOf [[popVlan, output 101], [output 55], []]) {}).1 =
      .ok (multicastRules network toGroup [inPort 0]
        [{ type := .group, action := .group 7 }] 0 ⟨olt, oltNni, oltPon⟩
        [{ actions := [popVlan, output 101] }, { actions := [output 55] }, {}]) := by
  refine (multicast_buckets_iff toGroup_multicast (fun _ => pure ())
    (groupOf [[popVlan, output 101], [output 55], []]) {}).mpr ?_
  refine ⟨?_, ?_, ?_, trivial⟩
  · intro r hr
    have hroute : network.route 0 101 = some (⟨olt, oltNni, oltPon⟩,
        ⟨onu, onuPon, onuUni⟩) := by decide +kernel
    exact congrArg (fun r => r.1.ingressPort) (some.inj (hroute.symm.trans hr))
  · intro r hr
    cases hr
  · exact ⟨55, rfl, by decide +kernel⟩

/-- After a bucket for the customer, a bucket without an output action gives the customer's device
another rule; before it, it raises. -/
theorem bucket_without_output_misdirected :
    let rules := fun buckets =>
      (decomposeFlow (network.provider (flowDeleteEntry fun _ => pure ())) toGroup
        (groupOf buckets) {}).1
    (rules [[output 101]]).map (fun r => ((r.lookup "onu").getD []).length) = .ok 1 ∧
      (rules [[output 101], []]).map (fun r => ((r.lookup "onu").getD []).length) = .ok 2 ∧
      rules [[], [output 101]] =
        .error (.attributeError "'NoneType' object has no attribute 'device'") := by
  decide +kernel

end Voltha.Core
