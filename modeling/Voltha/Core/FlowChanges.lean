import Voltha.Core.LogicalDeviceAgent

/-!
# Flow updates of a device

`DeviceAgent` watches the flow table of its device.  Before the table is written,
`_pre_process_flows` compares the desired table with the stored one by flow ids, and notes the flows
to add and those to remove; after it, `_flow_table_updated` hands the changes to the adapter, or
the whole table if the adapter takes only that.  If there are no changes, it calls nobody.

A flow id covers the table, the priority, the flags, the cookie and the match of a flow, but not
its instructions or timeouts.

* `FlowAgent.preProcessFlows`, `FlowAgent.flowTableUpdated`, `FlowAgent.update`: the callbacks, and
  an update around which they run.
* `mem_applied`: what the changes make of the current table.
* `changes_reproduce_iff`: the changes reproduce the desired table exactly if no flow of it has the
  id of a flow of the current table that differs from it.
-/

namespace Voltha.Core

open List Act

variable {D : Digest}

/-- `FlowChanges` -/
structure FlowChanges (D : Digest) where
  toAdd : List (FlowStats D) := []
  toRemove : List (FlowStats D) := []
  deriving DecidableEq

/-- What a device type says about flow updates. -/
structure DeviceType where
  acceptsAddRemoveFlowUpdates : Bool
  acceptsBulkFlowUpdate : Bool
  deriving DecidableEq, Repr

/-- The calls of the adapter. -/
inductive AdapterCall (D : Digest) where
  | updateFlowsIncrementally (flowChanges : FlowChanges D)
  | updateFlowsBulk (flows : List (FlowStats D)) (groups : List GroupEntry)
  deriving DecidableEq

/-- The agent's part in flow updates, the stored tables, and the calls so far. -/
structure FlowAgent (D : Digest) where
  deviceType : DeviceType
  flows : List (FlowStats D) := []
  groups : List GroupEntry := []
  currentFlows : List (FlowStats D) := []
  flowChanges : Option (FlowChanges D) := none
  calls : List (AdapterCall D) := []
  deriving DecidableEq

namespace FlowAgent

/-- `_pre_process_flows` -/
def preProcessFlows (flows : List (FlowStats D)) (s : FlowAgent D) : FlowAgent D :=
  let currentFlows := s.flows
  let flowChanges : FlowChanges D :=
    match s.flowChanges with
    | none => {}
    | some changes => { changes with toAdd := [], toRemove := [] }
  let currentFlowIds := currentFlows.map FlowStats.id
  let desiredFlowIds := flows.map FlowStats.id
  let idsToAdd := desiredFlowIds.filter (· ∉ currentFlowIds)
  let idsToDel := currentFlowIds.filter (· ∉ desiredFlowIds)
  { s with
    currentFlows := currentFlows
    flowChanges := some
      { toAdd := flowChanges.toAdd ++ flows.filter (·.id ∈ idsToAdd)
        toRemove := flowChanges.toRemove ++ currentFlows.filter (·.id ∈ idsToDel) } }

/-- A call of the adapter. -/
def callAdapter (call : AdapterCall D) : Act (FlowAgent D) Err Unit :=
  modify fun s => { s with calls := s.calls ++ [call] }

/-- `_flow_table_updated`; `answer` is what the adapter's call comes to. -/
def flowTableUpdated (answer : Except Err Unit) (flows : List (FlowStats D)) :
    Act (FlowAgent D) Err Unit := do
  let s ← read
  match s.flowChanges with
  | none => raise (.attributeError "'NoneType' object has no attribute 'to_remove'")
  | some changes =>
    if changes.toRemove.length = 0 ∧ changes.toAdd.length = 0 then pure ()
    else if s.deviceType.acceptsAddRemoveFlowUpdates then
      -- a failure of the adapter is logged
      callAdapter (.updateFlowsIncrementally changes)
    else if s.deviceType.acceptsBulkFlowUpdate then do
      callAdapter (.updateFlowsBulk flows s.groups)
      ofExcept answer
    else raise (.notImplementedError "")

/-- `flows_proxy.update('/', flows)`, with the callbacks before and after the write. -/
def update (answer : Except Err Unit) (flows : List (FlowStats D)) :
    Act (FlowAgent D) Err Unit := do
  modify (preProcessFlows flows)
  modify fun s => { s with flows := flows }
  flowTableUpdated answer flows

end FlowAgent

/-! ## What the changes are -/

/-- The changes between two tables. -/
def changesBetween (current desired : List (FlowStats D)) : FlowChanges D where
  toAdd := desired.filter (·.id ∉ current.map FlowStats.id)
  toRemove := current.filter (·.id ∉ desired.map FlowStats.id)

/-- Whatever the changes were before, those between the two tables are noted. -/
theorem FlowAgent.preProcessFlows_flowChanges (flows : List (FlowStats D)) (s : FlowAgent D) :
    (preProcessFlows flows s).flowChanges = some (changesBetween s.flows flows) := by
  have hid (l l' : List (FlowStats D)) :
      (l.filter fun f => f.id ∈ (l.map FlowStats.id).filter (· ∉ l'.map FlowStats.id)) =
        l.filter (·.id ∉ l'.map FlowStats.id) := by
    refine filter_congr fun f hf => ?_
    rw [decide_eq_decide, mem_filter, decide_eq_true_eq,
      and_iff_right (mem_map_of_mem hf)]
  rw [preProcessFlows]
  rcases s.flowChanges with _ | changes
  all_goals simp only [nil_append, hid, changesBetween]

/-- A table from which flows are removed and to which others are added. -/
def FlowChanges.applied (c : FlowChanges D) (current : List (FlowStats D)) : List (FlowStats D) :=
  current.filter (· ∉ c.toRemove) ++ c.toAdd

variable {desired current : List (FlowStats D)}

/-- **What the changes make of the current table**: flows with ids of the desired table stay as
they are, and only flows with new ids come in. -/
theorem mem_applied {f : FlowStats D} :
    f ∈ (changesBetween current desired).applied current ↔
      (f ∈ current ∧ f.id ∈ desired.map FlowStats.id) ∨
        (f ∈ desired ∧ f.id ∉ current.map FlowStats.id) := by
  simp only [FlowChanges.applied, changesBetween, mem_append, mem_filter,
    decide_eq_true_eq]
  by_cases hf : f ∈ current
  · simp [hf]
  · simp [hf]

/-- No flow of the desired table has the id of another flow of the current table. -/
def SameIdsAgree (current desired : List (FlowStats D)) : Prop :=
  ∀ f ∈ current, ∀ g ∈ desired, f.id = g.id → f = g

theorem mem_applied_of_agree (h : SameIdsAgree current desired) (f : FlowStats D) :
    f ∈ (changesBetween current desired).applied current ↔ f ∈ desired := by
  rw [mem_applied]
  constructor
  · rintro (⟨hf, hid⟩ | ⟨hf, -⟩)
    · obtain ⟨g, hg, hgid⟩ := mem_map.1 hid
      rwa [h f hf g hg hgid.symm]
    · exact hf
  · intro hf
    by_cases hid : f.id ∈ current.map FlowStats.id
    · obtain ⟨g, hg, hgid⟩ := mem_map.1 hid
      obtain rfl := h g hg f hf hgid
      exact .inl ⟨hg, mem_map_of_mem hf⟩
    · exact .inr ⟨hf, hid⟩

theorem agree_of_mem_applied (hdesired : (desired.map FlowStats.id).Nodup)
    (h : ∀ f, f ∈ (changesBetween current desired).applied current ↔ f ∈ desired) :
    SameIdsAgree current desired := by
  intro f hf g hg hid
  have hmem : f ∈ desired :=
    (h f).1 (mem_applied.2 (.inl ⟨hf, hid ▸ mem_map_of_mem hg⟩))
  exact inj_on_of_nodup_map hdesired hmem hg hid

/-- Without changes, the changed table is the current one. -/
theorem applied_nil {c : FlowChanges D} (hadd : c.toAdd = []) (hremove : c.toRemove = []) :
    c.applied current = current := by
  rw [FlowChanges.applied, hadd, hremove, append_nil]
  exact filter_eq_self.2 fun f _ => decide_eq_true not_mem_nil

/-- An update after which no call was made, and no exception raised, had no changes. -/
theorem changes_nil_of_calls {answer : Except Err Unit} {s : FlowAgent D}
    (hok : (FlowAgent.update answer desired s).1 = .ok ())
    (hcalls : (FlowAgent.update answer desired s).2.calls = s.calls) :
    (changesBetween s.flows desired).toAdd = [] ∧
      (changesBetween s.flows desired).toRemove = [] := by
  have hrun : FlowAgent.update answer desired s =
      FlowAgent.flowTableUpdated answer desired
        { FlowAgent.preProcessFlows desired s with flows := desired } := rfl
  rw [hrun] at hok hcalls
  have hpre := FlowAgent.preProcessFlows_flowChanges desired s
  simp only [FlowAgent.flowTableUpdated, read_bind, hpre] at hok hcalls
  split at hok
  · next hnil => exact ⟨length_eq_zero_iff.1 hnil.2, length_eq_zero_iff.1 hnil.1⟩
  · next hsome =>
    exfalso
    rw [if_neg hsome] at hcalls
    have hlonger (call : AdapterCall D) : s.calls ++ [call] ≠ s.calls := by simp
    split at hok
    · next hinc =>
      rw [if_pos hinc] at hcalls
      exact hlonger _ hcalls
    · next hinc =>
      rw [if_neg hinc] at hcalls
      split at hok
      · next hbulk =>
        rw [if_pos hbulk] at hcalls
        exact hlonger _ hcalls
      · cases hok

/-- **When incremental updates reproduce the desired table.**  For every current table and every
desired one without repeated ids, the noted changes turn the one into the other, there are none
only if the tables are equal as sets, and the adapter is left alone only then, if and only if no
flow of the desired table has the id of another flow of the current table. -/
theorem changes_reproduce_iff (s : FlowAgent D) (answer : Except Err Unit)
    (desired : List (FlowStats D)) (hdesired : (desired.map FlowStats.id).Nodup) :
    (∃ changes, (s.preProcessFlows desired).flowChanges = some changes ∧
      (∀ f, f ∈ changes.applied s.flows ↔ f ∈ desired) ∧
      (changes.toAdd = [] → changes.toRemove = [] → ∀ f, f ∈ s.flows ↔ f ∈ desired) ∧
      ((FlowAgent.update answer desired s).1 = .ok () →
        (FlowAgent.update answer desired s).2.calls = s.calls → ∀ f, f ∈ s.flows ↔ f ∈ desired)) ↔
      SameIdsAgree s.flows desired := by
  rw [FlowAgent.preProcessFlows_flowChanges]
  constructor
  · rintro ⟨changes, hchanges, happlied, -⟩
    obtain rfl := Option.some.inj hchanges
    exact agree_of_mem_applied hdesired happlied
  · intro hagree
    have happlied := mem_applied_of_agree hagree
    have hnil : (changesBetween s.flows desired).toAdd = [] →
        (changesBetween s.flows desired).toRemove = [] → ∀ f, f ∈ s.flows ↔ f ∈ desired := by
      intro hadd hremove
      rwa [applied_nil hadd hremove] at happlied
    refine ⟨_, rfl, happlied, hnil, fun hok hcalls => ?_⟩
    obtain ⟨hadd, hremove⟩ := changes_nil_of_calls hok hcalls
    exact hnil hadd hremove

namespace Sample

/-- A flow of some priority that sends to a port. -/
def sending (priority port : ℕ) : FlowStats digest :=
  flowStatsEntryFromFlowModMessage digest
    { priority := priority
      instructions := [{ type := .applyActions, data := .actions [output port] }] }

/-- An agent of a device that takes changes and has one flow. -/
def flowAgent : FlowAgent digest := { deviceType := ⟨true, true⟩, flows := [sending 1000 1] }

end Sample

open Sample

/-- A flow of another priority comes in, and the old one goes. -/
theorem changes_reproduce_sample :
    ∃ changes, (flowAgent.preProcessFlows [sending 7 2]).flowChanges = some changes ∧
      ∀ f, f ∈ changes.applied flowAgent.flows ↔ f ∈ [sending 7 2] := by
  have hagree : SameIdsAgree flowAgent.flows [sending 7 2] := by
    intro f hf g hg hid
    obtain rfl := mem_singleton.1 hf
    obtain rfl := mem_singleton.1 hg
    exact absurd hid (by decide)
  obtain ⟨changes, hchanges, happlied, -⟩ :=
    (changes_reproduce_iff flowAgent (.ok ()) [sending 7 2] (by decide)).2 hagree
  exact ⟨changes, hchanges, happlied⟩

/-- The flow is to send to another port: no changes are noted, and the adapter is not called. -/
theorem changed_instructions_skipped :
    (flowAgent.preProcessFlows [sending 1000 2]).flowChanges = some {} ∧
      (FlowAgent.update (.ok ()) [sending 1000 2] flowAgent).1 = .ok () ∧
      (FlowAgent.update (.ok ()) [sending 1000 2] flowAgent).2.calls = [] ∧
      sending 1000 2 ∉ flowAgent.flows := by
  decide

end Voltha.Core
