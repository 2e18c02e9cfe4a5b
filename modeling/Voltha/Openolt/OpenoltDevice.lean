import Voltha.Core.FlowDecomposer
import Voltha.Lib.Run

/-!
# The OpenOLT device

Two loops of `OpenoltDevice`.  `update_flow_table` hands flows to the flow manager: it decides the
direction of a flow and then, in the same turn, adds all flows in that direction.  `heartbeat`
counts failures in a row; it schedules `olt_down` when the count reaches `MAX_HEARTBEAT_MISS`, and
`olt_reachable` with the next success, but only if the count has gone beyond that number.

* `updateFlowTable_calls_iff`: **each flow is added once and in its own direction exactly if there
  is at most one flow**.
* `reports_paired_iff`: **losses and recoveries are reported in pairs exactly if no success comes
  after** `MAX_HEARTBEAT_MISS` **failures**.
-/

namespace Voltha.Openolt

open List Voltha.Core Act

/-! ## Flow updates -/

section Flows

variable {D : Digest}

/-- A call of `flow_mgr.add_flow`: the flow, and `is_down_stream`. -/
abbrev Call (D : Digest) := FlowStats D × Bool

/-- `flow_mgr.add_flow`, with its exceptions logged.  Whether it fails may depend on the calls made
so far. -/
def tryAddFlow (addFlow : List (Call D) → Except Err Unit) (call : Call D) :
    Act (List (Call D)) Err Unit :=
  exceptOn (fun _ => true) (do modify (· ++ [call]); ofExcept (addFlow (← read))) (pure ())

/-- Whether `inPort` is the number of an `ETHERNET_NNI` port. -/
def isDownStream (ports : List Port) (inPort : ℕ) : Bool :=
  (ports.filter fun port => port.type = .ethernetNni).any fun port => port.portNo = inPort

/-- `update_flow_table` -/
def updateFlowTable (addFlow : List (Call D) → Except Err Unit) (ports : List Port)
    (flows : List (FlowStats D)) : Act (List (Call D)) Err Unit :=
  flows.forM fun flow => do
    match ← ofExcept (getInPort flow) with
    | none => raise (.assertionError "in_port is not None")
    | some inPort =>
      flows.forM fun flow => tryAddFlow addFlow (flow, isDownStream ports inPort)

/-- The direction of a flow by its own `in_port`. -/
def ownDirection (ports : List Port) (flow : FlowStats D) : Bool :=
  match getInPort flow with
  | .ok (some inPort) => isDownStream ports inPort
  | _ => false

/-- A loop whose rounds append to a list. -/
theorem forM_append {α β : Type} {f : α → Act (List β) Err Unit} {g : α → List β} {l : List α}
    (h : ∀ a ∈ l, ∀ s, f a s = (.ok (), s ++ g a)) (s : List β) :
    l.forM f s = (.ok (), s ++ l.flatMap g) := by
  induction l generalizing s with
  | nil => simp [Act.pure_apply]
  | cons a l ih =>
    rw [forall_mem_cons] at h
    refine (bind_of_ok (h.1 s)).trans ((ih h.2 _).trans ?_)
    rw [flatMap_cons, append_assoc]

variable (addFlow : List (Call D) → Except Err Unit) (ports : List Port)
  {flows : List (FlowStats D)}

/-- The calls: all flows for each flow, in the direction of that flow. -/
theorem updateFlowTable_eq (hin : ∀ f ∈ flows, ∃ p, getInPort f = .ok (some p)) :
    updateFlowTable addFlow ports flows [] = (.ok (),
      flows.flatMap fun f => flows.map fun g => (g, ownDirection ports f)) := by
  refine forM_append (fun f hf s => ?_) []
  obtain ⟨p, hp⟩ := hin f hf
  have htry : ∀ call s, tryAddFlow addFlow call s = (.ok (), s ++ [call]) := by
    intro call s
    simp only [tryAddFlow, exceptOn, modify_bind, read_bind]
    rw [Act.ofExcept]
    cases addFlow (s ++ [call]) <;> rfl
  rw [hp, ofExcept_ok_bind, ownDirection, hp, map_eq_flatMap]
  exact forM_append (f := fun g => tryAddFlow addFlow (g, isDownStream ports p))
    (fun g _ => htry _) s

/-- **Each flow is added once, in the order of the list and in its own direction, exactly if there
is at most one flow.** -/
theorem updateFlowTable_calls_iff (hin : ∀ f ∈ flows, ∃ p, getInPort f = .ok (some p)) :
    updateFlowTable addFlow ports flows [] =
      (.ok (), flows.map fun f => (f, ownDirection ports f)) ↔ flows.length ≤ 1 := by
  rw [updateFlowTable_eq addFlow ports hin]
  constructor
  · intro heq
    have hlen := congrArg (fun r => r.2.length) heq
    simp only [length_flatMap, length_map, map_const', sum_replicate_nat] at hlen
    rcases Nat.eq_zero_or_pos flows.length with hzero | hpos
    · omega
    · exact Nat.le_of_mul_le_mul_left (by omega) hpos
  · intro hle
    match flows, hle with
    | [], _ => rfl
    | [f], _ => rfl

/-- A flow with an `in_port`. -/
def flowFrom (n : ℕ) : FlowStats { Id := FlowKey, md5 := id } := mkFlowStat _ 0 0 [inPort n] []

theorem updateFlowTable_one :
    updateFlowTable (fun _ => .ok ()) [{ portNo := 1, type := .ethernetNni }] [flowFrom 1] [] =
      (.ok (), [(flowFrom 1, true)]) :=
  (updateFlowTable_calls_iff _ _ (by simpa using ⟨1, rfl⟩)).2 (Nat.le_refl 1)

/-- Each of two flows is added in both directions. -/
theorem updateFlowTable_two :
    (updateFlowTable (fun _ => .ok ()) [{ portNo := 1, type := .ethernetNni }]
      [flowFrom 1, flowFrom 2] []).2 =
      [(flowFrom 1, true), (flowFrom 2, true), (flowFrom 1, false), (flowFrom 2, false)] := rfl

end Flows

/-! ## Heartbeats -/

/-- `MAX_HEARTBEAT_MISS` -/
def maxHeartbeatMiss : ℕ := 3

/-- What is scheduled in the reactor. -/
inductive Scheduled where
  | oltDown
  | oltReachable
  deriving DecidableEq

/-- What the heartbeat thread keeps in an `OpenoltDevice`. -/
structure Heartbeat where
  heartbeatMiss : ℕ := 0
  heartbeatSignature : Option ℕ := none
  indicationsThreadActive : Bool := false

/-- A turn of `heartbeat`: `HeartbeatCheck` fails, or answers with a signature. -/
def Heartbeat.turn (d : Heartbeat) : Option ℕ → List Scheduled × Heartbeat
  | none =>
    let miss := d.heartbeatMiss + 1
    (if miss = maxHeartbeatMiss then [.oltDown] else [], { d with heartbeatMiss := miss })
  | some signature =>
    let known := d.heartbeatSignature.getD signature
    (if d.heartbeatMiss > maxHeartbeatMiss then [.oltReachable] else [],
      { heartbeatMiss := 0
        -- another signature: the OLT was rebooted
        heartbeatSignature := some (if known ≠ signature then signature else known)
        indicationsThreadActive := true })

/-- What should be reported: the failures in a row so far, and whether the loss of the OLT was
reported and its recovery was not. -/
structure Report where
  failures : ℕ := 0
  lost : Bool := false

/-- A loss is reported once in a run of failures, when the run reaches `MAX_HEARTBEAT_MISS`, and the
success that ends such a run reports the recovery. -/
def Report.turn (r : Report) : Option ℕ → List Scheduled × Report
  | none =>
    if r.failures + 1 = maxHeartbeatMiss then ([.oltDown], ⟨r.failures + 1, true⟩)
    else ([], ⟨r.failures + 1, r.lost⟩)
  | some _ => (if r.lost then [.oltReachable] else [], {})

/-- **Losses and recoveries are reported in pairs exactly if no success comes after**
`MAX_HEARTBEAT_MISS` **failures.** -/
theorem reports_paired_iff (l : List (Option ℕ)) :
    answers Heartbeat.turn {} l = answers Report.turn {} l ↔
      AllAlong (fun (d : Heartbeat) a => (d.turn a).2)
        (fun d a => a ≠ none → d.heartbeatMiss ≠ maxHeartbeatMiss) {} l := by
  refine answers_eq_iff (R := fun (d : Heartbeat) (r : Report) => d.heartbeatMiss = r.failures ∧
    r.lost = decide (maxHeartbeatMiss ≤ r.failures)) (fun d r a h => ?_) (fun d r a h => ?_) l
    ⟨rfl, rfl⟩
  · obtain ⟨hmiss, hlost⟩ := h
    cases a with
    | none =>
      simp only [Heartbeat.turn, Report.turn]
      split <;> simp [hmiss, hlost] <;> omega
    | some signature => exact ⟨rfl, rfl⟩
  · obtain ⟨hmiss, hlost⟩ := h
    cases a with
    | none =>
      simp only [Heartbeat.turn, Report.turn, hmiss]
      split <;> simp
    | some signature =>
      simp only [Heartbeat.turn, Report.turn, hmiss, hlost, decide_eq_true_eq]
      split <;> split <;> simp <;> omega

/-- A success after three failures does not bring the device back. -/
theorem three_misses :
    answers Heartbeat.turn {} [none, none, none, some 7] = [[], [], [.oltDown], []] ∧
      answers Report.turn {} [none, none, none, some 7] =
        [[], [], [.oltDown], [.oltReachable]] := by
  decide

end Voltha.Openolt
