import Voltha.Cluster.IdGeneration
import Voltha.Lib.OrderedDict

/-!
# Core slots

The first half of `Leader._reassign_core_stores`: the mapping from core ids to the running
instances is brought up to date with the members of the cluster.  A slot whose instance is not a
member is cleared.  The members that have no slot get the cleared ones, and slots with new core ids
when there are no more.

Members are compared as whole records in the first loop, and by their ids in the second.  A new
core id is the successor of the largest one in the order of texts, which is the order of the numbers
as long as all ids have four digits.

* `clearSlots_spec`: what the first loop leaves in the mapping and in its three sets.
* `Placed.place`: one step of the second loop keeps its invariant.
* `reassign_correct`: **every member is in exactly one slot, instances that have not changed keep
  theirs, and there is a new slot only if all the old ones are taken**.
-/

namespace Voltha.Cluster

open List hiding get
open OrderedDict
open Hex

/-- The record of a running instance. -/
structure Instance where
  id : Text
  host : Text
  deriving DecidableEq

/-- The mapping from core ids to instances; a slot may be empty. -/
abbrev Slots := List (Text × Option Instance)

/-- The core ids of a mapping. -/
abbrev Slots.coreIds (m : Slots) : List Text := m.map Prod.fst

/-- The order in which Python goes through a set, which may be any. -/
structure SetOrder where
  pop : List Text → Text
  pop_mem : ∀ {l}, l ≠ [] → pop l ∈ l
  iter : List Text → List Text
  iter_perm : ∀ l, (iter l).Perm l

/-! ## The computation -/

/-- The variables of the first loop. -/
structure Clearing where
  updatedMapping : Slots
  existingActive : List Text
  clearedConfigIds : List Text
  inactiveMembers : List Text
  deriving DecidableEq

/-- The first loop on one slot. -/
def clearSlot (members : List Instance) (c : Clearing) (slot : Text × Option Instance) : Clearing :=
  match slot with
  | (id, none) => { c with
      updatedMapping := insert id none c.updatedMapping
      clearedConfigIds := c.clearedConfigIds.insert id }
  | (id, some inst) =>
    if inst ∈ members then { c with
      updatedMapping := insert id (some inst) c.updatedMapping
      existingActive := c.existingActive.insert inst.id }
    else { c with
      updatedMapping := insert id none c.updatedMapping
      clearedConfigIds := c.clearedConfigIds.insert id
      inactiveMembers := c.inactiveMembers.insert inst.id }

/-- The first loop. -/
def clearSlots (members : List Instance) (slots : Slots) : Clearing :=
  slots.foldl (clearSlot members) ⟨[], [], [], []⟩

/-- The variables of the second loop. -/
structure Placing where
  updatedMapping : Slots
  clearedConfigIds : List Text
  currentId : Text
  deriving DecidableEq

/-- The second loop on one member; nothing for the `ValueError` of `get_next_core_id`. -/
def place (o : SetOrder) (existingActive : List Text) (p : Placing) (inst : Instance) :
    Option Placing :=
  if inst.id ∈ existingActive then some p
  else if p.clearedConfigIds ≠ [] then
    -- there is an empty slot
    let nextId := o.pop p.clearedConfigIds
    some { p with
      updatedMapping := insert nextId (some inst) p.updatedMapping
      clearedConfigIds := p.clearedConfigIds.filter (· ≠ nextId) }
  else
    (getNextCoreId p.currentId).map fun nextId => { p with
      updatedMapping := insert nextId (some inst) p.updatedMapping
      currentId := nextId }

/-- The largest core id in the order of texts, and 0000 if there is none. -/
def maxCoreId : List Text → Text
  | [] => "0000".toList
  | k :: ks => ks.foldl (fun m k' => if m < k' then k' else m) k

/-- What the two loops leave behind. -/
structure Reassigned where
  coreStoreAssignment : Slots
  existingActive : List Text
  inactiveMembers : List Text
  deriving DecidableEq

/-- Steps 1 and 2 of `_reassign_core_stores`. -/
def reassign (o : SetOrder) (members : List Instance) (assignment : Slots) : Option Reassigned :=
  let c := clearSlots members assignment
  (members.foldlM (place o c.existingActive)
    ⟨c.updatedMapping, c.clearedConfigIds, maxCoreId assignment.coreIds⟩).map fun p =>
      ⟨p.updatedMapping, c.existingActive, c.inactiveMembers⟩

/-! ## Clearing -/

variable {slots : Slots} {a : Instance} {members : List Instance}

/-- The instance that the first loop leaves in a slot. -/
abbrev stays (members : List Instance) (inst : Option Instance) : Option Instance :=
  inst.filter (· ∈ members)

theorem stays_eq_some {inst : Option Instance} :
    stays members inst = some a ↔ inst = some a ∧ a ∈ members := by
  rw [stays, Option.filter_eq_some_iff, decide_eq_true_iff]

theorem stays_of_mem (h : a ∈ members) : stays members (some a) = some a :=
  stays_eq_some.2 ⟨rfl, h⟩

theorem stays_of_notMem (h : a ∉ members) : stays members (some a) = none := by
  rw [stays, Option.filter_some, if_neg (by simpa using h)]

/-- What the first loop has done after the slots of a list. -/
structure Cleared (members : List Instance) (slots : Slots) (c : Clearing) : Prop where
  updated : c.updatedMapping = slots.map fun slot => (slot.1, stays members slot.2)
  existing : ∀ i, i ∈ c.existingActive ↔ ∃ k a, (k, some a) ∈ slots ∧ a ∈ members ∧ a.id = i
  cleared : ∀ k, k ∈ c.clearedConfigIds ↔ (k, none) ∈ c.updatedMapping
  inactive : ∀ i, i ∈ c.inactiveMembers ↔ ∃ k a, (k, some a) ∈ slots ∧ a ∉ members ∧ a.id = i

/-- The instances of a mapping with one more slot. -/
theorem exists_mem_concat {P : Instance → Prop} {id : Text} {inst : Instance} :
    (∃ k a, (k, some a) ∈ slots ++ [(id, some inst)] ∧ P a) ↔
      P inst ∨ ∃ k a, (k, some a) ∈ slots ∧ P a := by
  constructor
  · rintro ⟨k, a, hmem, ha⟩
    rcases mem_append.1 hmem with hmem | hmem
    · exact .inr ⟨k, a, hmem, ha⟩
    · rw [mem_singleton, Prod.mk.injEq, Option.some_inj] at hmem
      exact .inl (hmem.2 ▸ ha)
  · rintro (h | ⟨k, a, hmem, ha⟩)
    · exact ⟨id, inst, mem_append_right _ mem_cons_self, h⟩
    · exact ⟨k, a, mem_append_left _ hmem, ha⟩

theorem exists_mem_concat_none {P : Instance → Prop} {id : Text} :
    (∃ k a, (k, some a) ∈ slots ++ [(id, none)] ∧ P a) ↔ ∃ k a, (k, some a) ∈ slots ∧ P a := by
  simp only [mem_append, mem_singleton, Prod.mk.injEq, reduceCtorEq, and_false, or_false]

variable {c : Clearing} {p : Placing}

theorem Cleared.coreIds (h : Cleared members slots c) :
    c.updatedMapping.coreIds = slots.coreIds := by
  rw [h.updated, Slots.coreIds, map_map]
  rfl

theorem Cleared.clearSlot (h : Cleared members slots c) {slot : Text × Option Instance}
    (hslot : slot.1 ∉ slots.coreIds) :
    Cleared members (slots ++ [slot]) (clearSlot members c slot) := by
  obtain ⟨id, inst⟩ := slot
  have hinsert : ∀ v, insert id v c.updatedMapping = c.updatedMapping ++ [(id, v)] :=
    fun v => insert_of_notMem (by rw [← Slots.coreIds, h.coreIds]; exact hslot)
  have hcleared : ∀ k, k ∈ c.clearedConfigIds.insert id ↔
      (k, none) ∈ insert id none c.updatedMapping := by
    intro k
    rw [hinsert, mem_insert_iff, h.cleared, mem_append, mem_singleton,
      Prod.mk.injEq, or_comm]
    simp only [and_true]
  rcases inst with _ | inst
  · refine ⟨?_, fun i => ?_, hcleared, fun i => ?_⟩
    · rw [Cluster.clearSlot, hinsert, h.updated, map_append]
      rfl
    · rw [exists_mem_concat_none]
      exact h.existing i
    · rw [exists_mem_concat_none]
      exact h.inactive i
  · rw [Cluster.clearSlot]
    by_cases hmem : inst ∈ members
    · rw [if_pos hmem]
      refine ⟨?_, fun i => ?_, fun k => ?_, fun i => ?_⟩
      · rw [hinsert, h.updated, map_append, map_singleton, stays_of_mem hmem]
      · rw [exists_mem_concat, mem_insert_iff, h.existing, eq_comm]
        simp only [hmem, true_and]
      · rw [hinsert, h.cleared, mem_append, mem_singleton]
        simp only [Prod.mk.injEq, reduceCtorEq, and_false, or_false]
      · rw [exists_mem_concat, h.inactive]
        simp only [hmem, not_true_eq_false, false_and, false_or]
    · rw [if_neg hmem]
      refine ⟨?_, fun i => ?_, hcleared, fun i => ?_⟩
      · rw [hinsert, h.updated, map_append, map_singleton, stays_of_notMem hmem]
      · rw [exists_mem_concat, h.existing]
        simp only [hmem, false_and, false_or]
      · rw [exists_mem_concat, mem_insert_iff, h.inactive, eq_comm]
        simp only [hmem, not_false_eq_true, true_and]

/-- **What the first loop does.** -/
theorem clearSlots_spec (members : List Instance) (hkeys : slots.coreIds.Nodup) :
    Cleared members slots (clearSlots members slots) := by
  induction slots using reverseRecOn with
  | nil => constructor <;> simp [clearSlots]
  | append_singleton slots slot ih =>
    rw [Slots.coreIds, map_append, nodup_append] at hkeys
    obtain ⟨hnodup, -, hdisj⟩ := hkeys
    have hslot : slot.1 ∉ slots.map Prod.fst := fun hmem =>
      hdisj _ hmem _ (mem_singleton_self slot.1) rfl
    rw [clearSlots, foldl_append]
    exact (ih hnodup).clearSlot hslot

/-! ## The largest core id -/

/-- The number of a text is at most that of the largest one seen so far. -/
theorem foldl_max_format {ks : List Text} :
    ∀ {N : ℕ}, N < 16 ^ 4 → (∀ k ∈ ks, ∃ n < 16 ^ 4, k = format 4 n) →
      ∃ M, M < 16 ^ 4 ∧ N ≤ M ∧
        ks.foldl (fun m k => if m < k then k else m) (format 4 N) = format 4 M ∧
        ∀ k ∈ ks, ∃ n ≤ M, k = format 4 n := by
  induction ks with
  | nil => exact fun hN _ => ⟨_, hN, le_rfl, rfl, nofun⟩
  | cons k ks ih =>
    intro N hN hks
    obtain ⟨n, hn, rfl⟩ := hks _ mem_cons_self
    have hrest : ∀ k ∈ ks, ∃ n < 16 ^ 4, k = format 4 n :=
      fun k hk => hks k (mem_cons_of_mem _ hk)
    rw [foldl_cons]
    simp only [format_lt_format_iff (show 0 < 4 by decide) hN hn]
    split
    · next hlt =>
      obtain ⟨M, hM, hle, hfold, hall⟩ := ih hn hrest
      refine ⟨M, hM, by omega, hfold, ?_⟩
      rw [forall_mem_cons]
      exact ⟨⟨n, hle, rfl⟩, hall⟩
    · next hge =>
      obtain ⟨M, hM, hle, hfold, hall⟩ := ih hN hrest
      refine ⟨M, hM, hle, hfold, ?_⟩
      rw [forall_mem_cons]
      exact ⟨⟨n, by omega, rfl⟩, hall⟩

/-- The largest text is the numeral of the largest number. -/
theorem maxCoreId_spec {ks : List Text} (h : ∀ k ∈ ks, IsCoreId k) :
    ∃ N, maxCoreId ks = format 4 N ∧ ∀ k ∈ ks, ∃ n ≤ N, k = format 4 n := by
  have hfour : ∀ k ∈ ks, ∃ n < 16 ^ 4, k = format 4 n := by
    intro k hk
    obtain ⟨n, -, hn, rfl⟩ := isCoreId_iff.1 (h k hk)
    exact ⟨n, by omega, rfl⟩
  rcases ks with _ | ⟨k, ks⟩
  · exact ⟨0, rfl, nofun⟩
  · obtain ⟨n, hn, rfl⟩ := hfour _ mem_cons_self
    obtain ⟨M, -, hle, hfold, hall⟩ :=
      foldl_max_format hn fun k hk => hfour k (mem_cons_of_mem _ hk)
    refine ⟨M, hfold, ?_⟩
    rw [forall_mem_cons]
    exact ⟨⟨n, hle, rfl⟩, hall⟩

/-! ## Placing -/

variable {existing : List Text} {o : SetOrder}

/-- The invariant of the second loop, after the members in `done`. -/
structure Placed (slots : Slots) (members : List Instance) (existing : List Text)
    (done : List Instance) (p : Placing) : Prop where
  keys : ∃ new, p.updatedMapping.coreIds = slots.coreIds ++ new ∧
    (new ≠ [] → p.clearedConfigIds = [])
  nodup_keys : p.updatedMapping.coreIds.Nodup
  cleared : ∀ k, k ∈ p.clearedConfigIds ↔ get p.updatedMapping k = some none
  held : ∀ k a, get p.updatedMapping k = some (some a) →
    a ∈ members ∧ (a.id ∈ existing ∨ a ∈ done)
  once : ∀ k k' a a', get p.updatedMapping k = some (some a) →
    get p.updatedMapping k' = some (some a') → a.id = a'.id → k = k'
  kept : ∀ k a, get slots k = some (some a) → a ∈ members →
    get p.updatedMapping k = some (some a)
  placed : ∀ a ∈ done, ∃ k, get p.updatedMapping k = some (some a)
  last : ∃ N, p.currentId = format 4 N ∧ ∀ k ∈ p.updatedMapping.coreIds, ∃ n ≤ N, k = format 4 n

/-- A member whose id is in no slot is put into one that is empty or new. -/
theorem Placed.put {done : List Instance} {p' : Placing} (h : Placed slots members existing done p)
    (ha : a ∈ members)
    (hfresh : ∀ k b, get p.updatedMapping k = some (some b) → b.id ≠ a.id) (next : Text)
    (hnext : ∀ b, get p.updatedMapping next ≠ some (some b))
    (hp' : p'.updatedMapping = insert next (some a) p.updatedMapping)
    (hkeys : ∃ new, p'.updatedMapping.coreIds = slots.coreIds ++ new ∧
      (new ≠ [] → p'.clearedConfigIds = []))
    (hcleared : ∀ k, k ∈ p'.clearedConfigIds ↔ k ∈ p.clearedConfigIds ∧ k ≠ next)
    (hlast : ∃ N, p'.currentId = format 4 N ∧
      ∀ k ∈ p'.updatedMapping.coreIds, ∃ n ≤ N, k = format 4 n) :
    Placed slots members existing (done ++ [a]) p' := by
  have hget : ∀ k, get p'.updatedMapping k =
      if k = next then some (some a) else get p.updatedMapping k := by
    intro k
    rw [hp', get_insert]
  have hheld : ∀ {k b}, get p'.updatedMapping k = some (some b) →
      k = next ∧ b = a ∨ k ≠ next ∧ get p.updatedMapping k = some (some b) := by
    intro k b hb
    rw [hget] at hb
    split at hb
    · next hk => exact .inl ⟨hk, (Option.some_inj.1 (Option.some_inj.1 hb)).symm⟩
    · next hk => exact .inr ⟨hk, hb⟩
  have hkeep : ∀ {k b}, get p.updatedMapping k = some (some b) →
      get p'.updatedMapping k = some (some b) := by
    intro k b hb
    have hk : k ≠ next := by
      rintro rfl
      exact hnext b hb
    rw [hget, if_neg hk, hb]
  refine ⟨hkeys, ?_, fun k => ?_, fun k b hb => ?_, fun k k' b b' hb hb' hid => ?_,
    fun k b hb hmem => hkeep (h.kept k b hb hmem), fun b hb => ?_, hlast⟩
  · rw [hp']
    exact nodup_keys_insert h.nodup_keys
  · rw [hcleared, h.cleared, hget]
    split
    · next hk => simp [hk]
    · next hk => simp [hk]
  · rcases hheld hb with ⟨-, rfl⟩ | ⟨-, hb⟩
    · exact ⟨ha, .inr (mem_append_right _ mem_cons_self)⟩
    · obtain ⟨hmem, hex | hdone⟩ := h.held k b hb
      · exact ⟨hmem, .inl hex⟩
      · exact ⟨hmem, .inr (mem_append_left _ hdone)⟩
  · rcases hheld hb with ⟨rfl, rfl⟩ | ⟨-, hb⟩
    · rcases hheld hb' with ⟨rfl, -⟩ | ⟨-, hb'⟩
      · rfl
      · exact absurd hid.symm (hfresh k' b' hb')
    · rcases hheld hb' with ⟨-, rfl⟩ | ⟨-, hb'⟩
      · exact absurd hid (hfresh k b hb)
      · exact h.once k k' b b' hb hb' hid
  · rcases mem_append.1 hb with hb | hb
    · obtain ⟨k, hk⟩ := h.placed b hb
      exact ⟨k, hkeep hk⟩
    · rw [mem_singleton] at hb
      exact ⟨next, by rw [hget, if_pos rfl, hb]⟩

/-- **The second loop on one member keeps the invariant.** -/
theorem Placed.place {done : List Instance}
    (hexisting : ∀ i, i ∈ existing ↔ ∃ k a, (k, some a) ∈ slots ∧ a ∈ members ∧ a.id = i)
    (hkeys : slots.coreIds.Nodup) (hids : (members.map Instance.id).Nodup)
    (h : Placed slots members existing done p) (ha : a ∈ members)
    (hdone : ∀ b ∈ done, b.id ≠ a.id) :
    ∃ p', place o existing p a = some p' ∧ Placed slots members existing (done ++ [a]) p' := by
  rw [Cluster.place]
  by_cases hex : a.id ∈ existing
  · -- the member has its old slot
    rw [if_pos hex]
    obtain ⟨k, b, hk, hb, hid⟩ := (hexisting _).1 hex
    obtain rfl : b = a := inj_on_of_nodup_map hids hb ha hid
    refine ⟨p, rfl, { h with held := fun k b hb => ?_, placed := fun c hc => ?_ }⟩
    · obtain ⟨hmem, hex | hdone⟩ := h.held k b hb
      · exact ⟨hmem, .inl hex⟩
      · exact ⟨hmem, .inr (mem_append_left _ hdone)⟩
    · rcases mem_append.1 hc with hc | hc
      · exact h.placed c hc
      · rw [mem_singleton] at hc
        exact ⟨k, hc ▸ h.kept k b (get_of_mem hkeys hk) ha⟩
  · rw [if_neg hex]
    have hfresh : ∀ k b, get p.updatedMapping k = some (some b) → b.id ≠ a.id := by
      intro k b hb hid
      rcases (h.held k b hb).2 with hold | hmem
      · exact hex (hid ▸ hold)
      · exact hdone b hmem hid
    obtain ⟨new, hnew, hfull⟩ := h.keys
    obtain ⟨N, hN, hle⟩ := h.last
    by_cases hempty : p.clearedConfigIds = []
    · -- a slot with the next core id
      rw [if_neg (not_not.2 hempty), hN, getNextCoreId_format]
      refine ⟨_, rfl, ?_⟩
      have hnot : format 4 (N + 1) ∉ p.updatedMapping.coreIds := by
        intro hmem
        obtain ⟨n, hn, heq⟩ := hle _ hmem
        have := format_injective 4 heq
        omega
      have hcoreIds : Slots.coreIds (insert (format 4 (N + 1)) (some a)
          p.updatedMapping) = slots.coreIds ++ (new ++ [format 4 (N + 1)]) := by
        rw [insert_of_notMem hnot, Slots.coreIds, map_append, ← Slots.coreIds,
          hnew, append_assoc]
        rfl
      refine h.put ha hfresh (format 4 (N + 1)) ?_ rfl ⟨_, hcoreIds, fun _ => hempty⟩ ?_
        ⟨N + 1, rfl, ?_⟩
      · intro b hb
        exact hnot (mem_keys_of_get hb)
      · simp [hempty]
      · intro k hk
        rcases mem_keys_insert.1 hk with rfl | hk
        · exact ⟨N + 1, le_rfl, rfl⟩
        · obtain ⟨n, hn, rfl⟩ := hle k hk
          exact ⟨n, by omega, rfl⟩
    · -- an empty slot
      rw [if_pos hempty]
      have hpop := o.pop_mem hempty
      have hnone := (h.cleared _).1 hpop
      have hcoreIds : Slots.coreIds (insert (o.pop p.clearedConfigIds) (some a)
          p.updatedMapping) = p.updatedMapping.coreIds :=
        keys_insert_of_mem (mem_keys_of_get hnone)
      refine ⟨_, rfl, h.put ha hfresh (o.pop p.clearedConfigIds) ?_ rfl
        ⟨new, hcoreIds.trans hnew, ?_⟩ ?_ ⟨N, hN, ?_⟩⟩
      · intro b hb
        rw [hnone] at hb
        cases hb
      · intro hne
        exact absurd (hfull hne) hempty
      · intro k
        simp
      · intro k hk
        exact hle k (hcoreIds ▸ hk)

/-- The second loop keeps the invariant. -/
theorem Placed.foldlM
    (hexisting : ∀ i, i ∈ existing ↔ ∃ k a, (k, some a) ∈ slots ∧ a ∈ members ∧ a.id = i)
    (hkeys : slots.coreIds.Nodup) (hids : (members.map Instance.id).Nodup) :
    ∀ {rest done : List Instance} {p : Placing}, done ++ rest = members →
      Placed slots members existing done p →
      ∃ p', rest.foldlM (Cluster.place o existing) p = some p' ∧
        Placed slots members existing members p'
  | [], done, p, heq, h => by
    rw [append_nil] at heq
    exact ⟨p, rfl, heq ▸ h⟩
  | a :: rest, done, p, heq, h => by
    have ha : a ∈ members := heq ▸ mem_append_right _ mem_cons_self
    have hdone : ∀ b ∈ done, b.id ≠ a.id := by
      rw [← heq, map_append, nodup_append] at hids
      exact fun b hb => hids.2.2 _ (mem_map_of_mem hb) _ mem_cons_self
    obtain ⟨p₁, hp₁, h₁⟩ := h.place (o := o) hexisting hkeys hids ha hdone
    have heq' : (done ++ [a]) ++ rest = members := by
      rw [← heq, append_assoc, singleton_append]
    obtain ⟨p', hp', h'⟩ := Placed.foldlM hexisting hkeys hids heq' h₁
    exact ⟨p', by rw [foldlM_cons, hp₁]; exact hp', h'⟩

/-! ## Reassignment -/

/-- A stored mapping: its core ids are some of those before the broadcast id, and no member is in
two slots. -/
structure CoreStores where
  slots : Slots
  nodup_coreIds : slots.coreIds.Nodup
  isCoreId : ∀ k ∈ slots.coreIds, IsCoreId k
  once : ∀ k k' a a', (k, some a) ∈ slots → (k', some a') ∈ slots → a.id = a'.id → k = k'

/-- What the new mapping is to be for a list of active members. -/
structure ReassignedTo (slots : Slots) (members : List Instance) (updated : Slots) : Prop where
  active : ∀ a ∈ members, ∃! k, get updated k = some (some a)
  inactive : ∀ k a, get updated k = some (some a) → a ∈ members
  unchanged : ∀ k a, get slots k = some (some a) → a ∈ members →
    get updated k = some (some a)
  /-- The old core ids stay, and a new one is made only if all old slots are occupied. -/
  coreIds : ∃ new, updated.coreIds = slots.coreIds ++ new ∧
    (new ≠ [] → ∀ k ∈ slots.coreIds, ∃ a, get updated k = some (some a))
  nodup_coreIds : updated.coreIds.Nodup

/-- The invariant of the second loop holds before it. -/
theorem Placed.init (m : CoreStores) (hc : Cleared members m.slots c) :
    Placed m.slots members c.existingActive [] ⟨c.updatedMapping, c.clearedConfigIds,
      maxCoreId m.slots.coreIds⟩ := by
  have hnodup : c.updatedMapping.coreIds.Nodup := hc.coreIds ▸ m.nodup_coreIds
  have hget : ∀ {k a}, get c.updatedMapping k = some (some a) ↔
      (k, some a) ∈ m.slots ∧ a ∈ members := by
    intro k a
    rw [OrderedDict.get, lookup_eq_some_iff_mem hnodup, hc.updated, mem_map]
    constructor
    · rintro ⟨⟨k', inst⟩, hmem, heq⟩
      obtain ⟨rfl, hstays⟩ := Prod.mk.inj heq
      obtain ⟨hinst, ha⟩ := stays_eq_some.1 hstays
      exact ⟨hinst ▸ hmem, ha⟩
    · rintro ⟨hmem, ha⟩
      exact ⟨(k, some a), hmem, by rw [stays_of_mem ha]⟩
  obtain ⟨N, hN, hle⟩ := maxCoreId_spec m.isCoreId
  refine ⟨⟨[], by rw [hc.coreIds, append_nil], fun h => absurd rfl h⟩, hnodup, fun k => ?_,
    fun k a ha => ?_, fun k k' a a' ha ha' hid => ?_, fun k a ha hmem => ?_,
    fun _ h => absurd h not_mem_nil, ⟨N, hN, fun k hk => hle k (hc.coreIds ▸ hk)⟩⟩
  · rw [hc.cleared, OrderedDict.get, lookup_eq_some_iff_mem hnodup]
  · obtain ⟨hmem, ha⟩ := hget.1 ha
    exact ⟨ha, .inl ((hc.existing _).2 ⟨k, a, hmem, ha, rfl⟩)⟩
  · exact m.once k k' a a' (hget.1 ha).1 (hget.1 ha').1 hid
  · exact hget.2 ⟨mem_of_lookup ha, hmem⟩

/-- What the invariant of the second loop says after it. -/
theorem Placed.reassignedTo (h : Placed slots members existing members p) :
    ReassignedTo slots members p.updatedMapping := by
  refine ⟨fun a ha => ?_, fun k a ha => (h.held k a ha).1, h.kept, ?_, h.nodup_keys⟩
  · obtain ⟨k, hk⟩ := h.placed a ha
    exact ⟨k, hk, fun k' hk' => h.once k' k a a hk' hk rfl⟩
  · obtain ⟨new, hnew, hfull⟩ := h.keys
    refine ⟨new, hnew, fun hne k hk => ?_⟩
    have hmem : k ∈ p.updatedMapping.coreIds := hnew ▸ mem_append_left _ hk
    obtain ⟨inst, hinst⟩ := exists_lookup hmem
    rcases inst with _ | a
    · have := (h.cleared k).2 hinst
      rw [hfull hne] at this
      cases this
    · exact ⟨a, hinst⟩

/-- The loops end without an error, with the new mapping and the two sets. -/
theorem reassign_spec (o : SetOrder) (m : CoreStores) (hids : (members.map Instance.id).Nodup) :
    ∃ r c, reassign o members m.slots = some r ∧
      ReassignedTo m.slots members r.coreStoreAssignment ∧ Cleared members m.slots c ∧
      r.existingActive = c.existingActive ∧ r.inactiveMembers = c.inactiveMembers := by
  have hc := clearSlots_spec members m.nodup_coreIds
  obtain ⟨p, hp, h⟩ := (Placed.init m hc).foldlM (o := o) hc.existing m.nodup_coreIds hids
    (nil_append members)
  refine ⟨⟨p.updatedMapping, _, _⟩, _, ?_, h.reassignedTo, hc, rfl, rfl⟩
  rw [reassign, hp]
  rfl

/-- **Core slots are reassigned correctly.** -/
theorem reassign_correct (o : SetOrder) (m : CoreStores) {members : List Instance}
    (hids : (members.map Instance.id).Nodup) :
    ∃ r, reassign o members m.slots = some r ∧
      ReassignedTo m.slots members r.coreStoreAssignment := by
  obtain ⟨r, -, hr, hto, -⟩ := reassign_spec o m hids
  exact ⟨r, hr, hto⟩

/-- Sets gone through in the order of their lists. -/
def listOrder : SetOrder where
  pop := fun l => l.headD []
  pop_mem := fun {l} h => by
    cases l with
    | nil => exact absurd rfl h
    | cons k l => exact mem_cons_self
  iter := id
  iter_perm := fun _ => Perm.refl _

/-- Two slots, the first one taken. -/
def twoSlots : CoreStores where
  slots := [("0001".toList, some ⟨"v1".toList, "h1".toList⟩), ("0002".toList, none)]
  nodup_coreIds := by decide
  isCoreId := by
    intro k hk
    rw [Slots.coreIds, map_cons, map_singleton, mem_cons, mem_singleton] at hk
    rcases hk with rfl | rfl
    · exact isCoreId_iff.2 ⟨1, by decide, by decide, by decide⟩
    · exact isCoreId_iff.2 ⟨2, by decide, by decide, by decide⟩
  once := by
    intro k k' a a' h h' _
    simp only [mem_cons, Prod.mk.injEq, reduceCtorEq, and_false, not_mem_nil,
      or_false] at h h'
    rw [h.1, h'.1]

/-- The member v1 stays, v2 gets the empty slot, and v3 a new one. -/
theorem reassign_correct_three :
    ∃ r, reassign listOrder [⟨"v2".toList, "h2".toList⟩, ⟨"v1".toList, "h1".toList⟩,
        ⟨"v3".toList, "h3".toList⟩] twoSlots.slots = some r ∧
      ReassignedTo twoSlots.slots [⟨"v2".toList, "h2".toList⟩, ⟨"v1".toList, "h1".toList⟩,
        ⟨"v3".toList, "h3".toList⟩] r.coreStoreAssignment :=
  reassign_correct listOrder twoSlots (by decide)

end Voltha.Cluster
