import Voltha.Core.LogicalDeviceAgent
import Voltha.Lib.Run

/-!
# The cached tables of a logical device agent

The agent computes the routes, the default rules and the number of the NNI port when they are first
asked for, and keeps them until a logical port is added or removed.  The devices, their ports and
peers and the VLANs go into the tables as well, but their changes do not reach the agent.

The tables are filled one after the other, and what was filled stays when a later one raises: the
next call finds routes and takes the tables for complete.

How `compute_routes` finds its paths does not matter here: it is any function of the tree.  A flow
or group update reaches the tables by `get_route` and `get_all_default_rules` only, so that a run
has the calls in its place.
-/

namespace Voltha.Core

open List Act

variable {D : Digest}

/-- `LogicalPort`; the number is that of its `ofp_port`. -/
structure LogicalPort where
  id : String
  portNo : ℕ
  deviceId : String
  devicePortNo : ℕ
  rootPort : Bool := false
  deriving DecidableEq

/-- What the tables are computed from: the logical ports, and the devices that are connected to
them with their ports. -/
structure Tree where
  logicalPorts : List LogicalPort
  rootDeviceId : String
  devices : List (Device × List Port)
  deriving DecidableEq

/-- The routes, by the logical ports at their ends. -/
abbrev Routes := List ((ℕ × ℕ) × (RouteHop × RouteHop))

/-- `compute_routes`: the devices of the graph, in the order of its nodes, and the routes. -/
structure RouteComputation where
  computeRoutes : Tree → Except Err (List (Device × List Port) × Routes)
  /-- The graph has devices of the tree only. -/
  mem_devices : ∀ {tree graph routes}, computeRoutes tree = .ok (graph, routes) →
    ∀ d ∈ graph, d ∈ tree.devices

/-- The cached tables, `None` where not computed. -/
structure CachedTables (D : Digest) where
  routes : Option Routes := none
  defaultRules : Option (List (String × DeviceRules D)) := none
  nniLogicalPortNo : Option ℕ := none
  deriving DecidableEq

/-- What a call returns. -/
inductive Answer (D : Digest) where
  | route (r : Option Route)
  | defaultRules (rules : Option (List (String × DeviceRules D)))
  deriving DecidableEq

/-- A call of `get_route` or of `get_all_default_rules`. -/
inductive Call where
  | getRoute (ingressPortNo egressPortNo : Option ℕ)
  | getAllDefaultRules

variable (R : RouteComputation)

/-- `_assure_cached_tables_up_to_date` -/
def assureCachedTablesUpToDate (tree : Tree) : Act (CachedTables D) Err Unit := do
  doIf (← read).routes.isNone do
    let (graph, routes) ← ofExcept (R.computeRoutes tree)
    modify fun c => { c with routes := some routes }
    let rules ← ofExcept (generateDefaultRules tree.rootDeviceId graph)
    modify fun c => { c with defaultRules := some rules }
    match tree.logicalPorts.filter LogicalPort.rootPort with
    | [p] => modify fun c => { c with nniLogicalPortNo := some p.portNo }
    | _ => raise (.assertionError "Only one root port supported at this time")

/-- `get_route`, from tables that may lack the number of the NNI port. -/
def CachedTables.getRoute (c : CachedTables D) (ingressPortNo egressPortNo : Option ℕ) :
    Except Err (Option Route) :=
  let routes := c.routes.getD []
  let egressPortNo := match egressPortNo with
    | some p => if p &&& 0x7fffffff = ofppController then c.nniLogicalPortNo else some p
    | none => none
  if ingressPortNo = none ∧ egressPortNo = c.nniLogicalPortNo then
    match routes.find? fun r => some r.1.2 = c.nniLogicalPortNo with
    | some r => .ok (some (none, some r.2.2))
    | none => .error (.exception "not a single upstream route")
  else
    match egressPortNo with
    | none => .ok ((routes.find? fun r => some r.1.1 = ingressPortNo).map fun r =>
        (some r.2.1, none))
    | some egress => .ok (ingressPortNo.bind fun ingress =>
        (routes.lookup (ingress, egress)).map fun r => (some r.1, some r.2))

/-- `get_route` and `get_all_default_rules` -/
def answer (tree : Tree) (call : Call) : Act (CachedTables D) Err (Answer D) := do
  assureCachedTablesUpToDate R tree
  let c ← read
  match call with
  | .getRoute i e => Answer.route <$> ofExcept (c.getRoute i e)
  | .getAllDefaultRules => pure (.defaultRules c.defaultRules)

/-- The tree, and the tables that the agent has cached. -/
structure Routing (D : Digest) where
  tree : Tree
  cache : CachedTables D := {}
  deriving DecidableEq

/-- What happens around the agent. -/
inductive RoutingEvent where
  | portAdded (port : LogicalPort)
  | portRemoved (id : String)
  /-- Devices, device ports or peers are added or removed, or a VLAN changes. -/
  | devicesChanged (devices : List (Device × List Port))
  | called (call : Call)

/-! ## Trees that give all tables or none -/

/-- There is one root port, and each leaf device has one port upstream and some to the customer. -/
def Tree.Regular (tree : Tree) : Prop :=
  (tree.logicalPorts.filter LogicalPort.rootPort).length = 1 ∧
    ∀ d ∈ tree.devices, d.1.id ≠ tree.rootDeviceId →
      (d.2.filter fun p => p.type = .ponOnu ∨ p.type = .venetOnu).length = 1 ∧
        d.2.filter (fun p => p.type = .ethernetUni) ≠ []

instance : DecidablePred Tree.Regular := fun _ => inferInstanceAs (Decidable (_ ∧ _))

section Regular

variable {tree : Tree} (htree : tree.Regular)
include htree

theorem Tree.Regular.exists_deviceDefaultRules {d : Device × List Port} (hd : d ∈ tree.devices) :
    ∃ r, deviceDefaultRules (D := D) tree.rootDeviceId d.1 d.2 = .ok r := by
  by_cases hroot : d.1.id = tree.rootDeviceId
  · exact ⟨{}, if_pos hroot⟩
  · obtain ⟨hup, hdown⟩ := htree.2 d hd hroot
    obtain ⟨u, hu⟩ := length_eq_one_iff.mp hup
    obtain ⟨p, l, hl⟩ := exists_cons_of_ne_nil hdown
    simp only [deviceDefaultRules, if_neg hroot, leafDeviceDefaultRules, hu, hl]
    exact ⟨_, rfl⟩

theorem Tree.Regular.exists_generateDefaultRules {graph : List (Device × List Port)}
    (hgraph : ∀ d ∈ graph, d ∈ tree.devices) :
    ∃ rules, generateDefaultRules (D := D) tree.rootDeviceId graph = .ok rules := by
  unfold generateDefaultRules
  generalize ([] : List (String × DeviceRules D)) = rules
  induction graph generalizing rules with
  | nil => exact ⟨rules, rfl⟩
  | cons d graph ih =>
    obtain ⟨r, hr⟩ := htree.exists_deviceDefaultRules (hgraph d mem_cons_self)
    rw [foldlM_cons, hr]
    exact ih (fun d hd => hgraph d (mem_cons_of_mem _ hd)) _

/-- **From scratch, a regular tree gives complete tables, or none.** -/
theorem Tree.Regular.assure :
    (∃ e, assureCachedTablesUpToDate (D := D) R tree {} = (.error e, {})) ∨
      ∃ routes rules nni, assureCachedTablesUpToDate (D := D) R tree {} =
        (.ok (), ⟨some routes, some rules, some nni⟩) := by
  rcases hR : R.computeRoutes tree with e | ⟨graph, routes⟩
  · left
    refine ⟨e, ?_⟩
    simp [assureCachedTablesUpToDate, Act.doIf, Act.ofExcept, Act.bind_apply, Act.read, hR]
  · obtain ⟨rules, hrules⟩ := htree.exists_generateDefaultRules (D := D) (R.mem_devices hR)
    obtain ⟨p, hp⟩ := length_eq_one_iff.mp htree.1
    right
    refine ⟨routes, rules, p.portNo, ?_⟩
    simp [assureCachedTablesUpToDate, Act.doIf, Act.ofExcept, Act.bind_apply, Act.read,
      Act.modify, hR, hrules, hp]

end Regular

/-! ## Runs -/

/-- The cache is not partly filled. -/
def CachedTables.Complete (c : CachedTables D) : Prop :=
  c.routes.isSome → c.defaultRules.isSome ∧ c.nniLogicalPortNo.isSome

namespace Routing

/-- One event.  Only `_port_added` and `_port_removed` call `_invalidate_cached_tables`. -/
def step (s : Routing D) : RoutingEvent → Routing D
  | .portAdded port =>
    if port.id ∈ s.tree.logicalPorts.map LogicalPort.id then s
    else { tree := { s.tree with logicalPorts := s.tree.logicalPorts ++ [port] } }
  | .portRemoved id =>
    if id ∈ s.tree.logicalPorts.map LogicalPort.id then
      { tree := { s.tree with logicalPorts := s.tree.logicalPorts.filter (·.id ≠ id) } }
    else s
  | .devicesChanged devices => { s with tree := { s.tree with devices := devices } }
  | .called call => { s with cache := (answer R s.tree call s.cache).2 }

/-- Every call that returns gives what computing from scratch gives. -/
def UpToDate (s : Routing D) : Prop :=
  ∀ call a, (answer R s.tree call s.cache).1 = .ok a → (answer R s.tree call {}).1 = .ok a

/-- Devices change while nothing is cached, and the tables are computed from regular trees. -/
def Orderly (s : Routing D) : RoutingEvent → Prop
  | .portAdded _ => True
  | .portRemoved _ => True
  | .devicesChanged _ => s.cache = {}
  | .called _ => s.cache = {} → s.tree.Regular

instance (s : Routing D) [DecidableEq D.Id] : DecidablePred s.Orderly
  | .portAdded _ => isTrue trivial
  | .portRemoved _ => isTrue trivial
  | .devicesChanged _ => inferInstanceAs (Decidable (s.cache = {}))
  | .called _ => inferInstanceAs (Decidable (s.cache = {} → s.tree.Regular))

/-- Nothing is cached, or the complete tables of the tree as it is. -/
def Coherent (s : Routing D) : Prop :=
  s.cache = {} ∨ ∃ routes rules nni, s.cache = ⟨some routes, some rules, some nni⟩ ∧
    assureCachedTablesUpToDate R s.tree {} = (.ok (), s.cache)

section Coherent

variable {R} {s : Routing D}

theorem answer_snd (tree : Tree) (call : Call) (c : CachedTables D) :
    (answer R tree call c).2 = (assureCachedTablesUpToDate R tree c).2 := by
  unfold answer
  rcases h : assureCachedTablesUpToDate R tree c with ⟨_ | _, c'⟩
  · rw [bind_of_error h]
  · rw [bind_of_ok h, read_bind]
    cases call with
    | getRoute i e =>
      simp only
      cases c'.getRoute i e <;> rfl
    | getAllDefaultRules => rfl

variable (hs : s.Coherent R)
include hs

theorem Coherent.complete : s.cache.Complete := by
  rcases hs with h | ⟨routes, rules, nni, h, -⟩
  · rw [h]
    exact fun h => absurd h Bool.false_ne_true
  · rw [h]
    exact fun _ => ⟨rfl, rfl⟩

theorem Coherent.upToDate : s.UpToDate R := by
  intro call a h
  rcases hs with hc | ⟨routes, rules, nni, hc, hfresh⟩
  · rwa [hc] at h
  · -- the call finds the tables that the one from scratch computes
    have hcached : assureCachedTablesUpToDate R s.tree s.cache = (.ok (), s.cache) := by
      rw [hc]
      rfl
    rw [answer, bind_of_ok hcached] at h
    rw [answer, bind_of_ok hfresh]
    exact h

theorem Coherent.step {e : RoutingEvent} (he : s.Orderly e) : (s.step R e).Coherent R := by
  cases e with
  | portAdded port =>
    rw [Routing.step]
    split
    · exact hs
    · exact .inl rfl
  | portRemoved id =>
    rw [Routing.step]
    split
    · exact .inl rfl
    · exact hs
  | devicesChanged devices => exact .inl he
  | called call =>
    rw [Routing.step, Coherent, answer_snd]
    rcases hs with hc | ⟨routes, rules, nni, hc, hfresh⟩
    · rw [hc]
      rcases (he hc).assure (D := D) R with ⟨e, h⟩ | ⟨routes, rules, nni, h⟩
      · exact .inl (congrArg Prod.snd h)
      · exact .inr ⟨routes, rules, nni, congrArg Prod.snd h, by rw [h]⟩
    · rw [hc] at hfresh ⊢
      exact .inr ⟨routes, rules, nni, rfl, hfresh⟩

end Coherent

/-- The agent has computed nothing yet. -/
def started (tree : Tree) : Routing D := { tree := tree }

/-- **In a run whose events are orderly every answer is the one from scratch, and the cache is
never partly filled.** -/
theorem cached_tables_fresh (tree : Tree) (events : List RoutingEvent)
    (h : AllAlong (step R) Orderly (started tree : Routing D) events) :
    let s := events.foldl (step R) (started tree : Routing D)
    s.UpToDate R ∧ s.cache.Complete :=
  have hs := AllAlong.foldl (fun _ _ hs he => Coherent.step hs he) h (.inl rfl)
  ⟨hs.upToDate, hs.complete⟩

end Routing

namespace Sample

/-- The routes of the small network; there are none without a logical port at the network. -/
def routing : RouteComputation :=
  { computeRoutes := fun tree => .ok (tree.devices,
      if tree.logicalPorts.any LogicalPort.rootPort then network.routes else [])
    mem_devices := by
      rintro tree graph routes h d hd
      cases h
      exact hd }

/-- The devices of the small network, with a VLAN for the ONU. -/
def devices (vlan : ℕ) : List (Device × List Port) :=
  [(olt, [oltNni, oltPon]), ({ onu with vlan := vlan }, [onuUni, onuPon])]

/-- The logical port at the customer is there. -/
def access : Tree :=
  { logicalPorts := [{ id := "uni", portNo := 101, deviceId := "onu", devicePortNo := 1 }]
    rootDeviceId := "olt"
    devices := devices 101 }

/-- The logical port at the network. -/
def nni : LogicalPort :=
  { id := "nni", portNo := 0, deviceId := "olt", devicePortNo := 1, rootPort := true }

end Sample

namespace Routing

open Sample

theorem cached_tables_fresh_readded :
    let s := [.portAdded nni, .called .getAllDefaultRules, .portRemoved "nni",
        .devicesChanged (devices 102), .portAdded nni, .called .getAllDefaultRules].foldl
      (step routing) (started access : Routing digest)
    s.UpToDate routing ∧ s.cache.Complete :=
  cached_tables_fresh routing access _ (by decide +kernel)

/-- **Stale and partly filled tables.**  When the VLAN of an ONU changes after its default rules
were computed, they stay those of the old VLAN.  Without a root port the first call raises, and the
second one returns. -/
theorem cached_tables_stale :
    ¬ ([.portAdded nni, .called .getAllDefaultRules, .devicesChanged (devices 102)].foldl
      (step routing) (started access : Routing digest)).UpToDate routing ∧
    (answer routing access .getAllDefaultRules ({} : CachedTables digest)).1 =
      .error (.assertionError "Only one root port supported at this time") ∧
    ¬ ([.called .getAllDefaultRules].foldl
      (step routing) (started access : Routing digest)).UpToDate routing := by
  refine ⟨fun h => ?_, by decide +kernel, fun h => ?_⟩
  · exact absurd (h .getAllDefaultRules (.defaultRules (some network.defaultRules))
      (by decide +kernel)) (by decide +kernel)
  · exact absurd (h .getAllDefaultRules (.defaultRules (some network.defaultRules))
      (by decide +kernel)) (by decide +kernel)

end Routing

end Voltha.Core
