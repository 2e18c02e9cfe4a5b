import Voltha.Core.Nesting
import Voltha.Lib.Run

/-!
# The logical flow table

A flow is identified by its table, priority, flags, cookie and match.  Each command of the agent
has its own way to the table: `ADD` looks an old entry up and replaces it, unless the message asks
for an overlap check, in which case it appends without looking, since `find_overlapping_flows` finds
nothing; `DELETE_STRICT` deletes the first entry found.

* `TableInv`: ids are the digests of identities, and no identity comes twice.
* `TableInv.request`, `not_nodup_of_not_fresh`: a request keeps the table free of repeated
  identities exactly if it is not an `ADD` with overlap check of a flow that is there.
* `flow_table_holds_iff`: the same for runs.
-/

namespace Voltha.Core

open List Act FlowStats

variable {D : Digest} {T : Topology D}

/-! ## The invariant -/

/-- Ids are the digests of identities. -/
def Hashed (flows : List (FlowStats D)) : Prop := ∀ f ∈ flows, f.id = hashFlowStats D f.key

variable {flows : List (FlowStats D)} {mod : FlowMod} {flow : FlowStats D} {idx : ℕ} {s : Agent D}

theorem Hashed.sublist {flows' : List (FlowStats D)} (h : Hashed flows)
    (hsub : flows'.Sublist flows) : Hashed flows' :=
  fun f hf => h f (hsub.subset hf)

/-- Ids are the digests of identities, and no identity comes twice. -/
structure TableInv (flows : List (FlowStats D)) : Prop where
  hashed : ∀ f ∈ flows, f.id = hashFlowStats D f.key
  nodup : (flows.map key).Nodup

theorem TableInv.nil : TableInv ([] : List (FlowStats D)) :=
  ⟨nofun, nodup_nil⟩

theorem TableInv.sublist {flows' : List (FlowStats D)} (h : TableInv flows)
    (hsub : flows'.Sublist flows) : TableInv flows' :=
  ⟨fun f hf => h.hashed f (hsub.subset hf), h.nodup.sublist (hsub.map _)⟩

/-- The identity of the flow that a message is about. -/
def FlowMod.key (mod : FlowMod) : FlowKey :=
  ⟨mod.tableId, mod.priority, mod.flags, mod.cookie, mod.match⟩

@[simp] theorem entry_key (mod : FlowMod) :
    (flowStatsEntryFromFlowModMessage D mod).key = mod.key := rfl

@[simp] theorem entry_id (mod : FlowMod) :
    (flowStatsEntryFromFlowModMessage D mod).id = hashFlowStats D mod.key := rfl

theorem Hashed.append (h : Hashed flows) (mod : FlowMod) :
    Hashed (flows ++ [flowStatsEntryFromFlowModMessage D mod]) :=
  forall_mem_append.mpr ⟨h, forall_mem_singleton.mpr rfl⟩

/-- An entry for an identity that is not there may be appended. -/
theorem TableInv.append (h : TableInv flows) (hnew : ∀ f ∈ flows, f.key ≠ mod.key) :
    TableInv (flows ++ [flowStatsEntryFromFlowModMessage D mod]) := by
  refine ⟨Hashed.append h.hashed mod, ?_⟩
  rw [map_append, map_singleton, entry_key, nodup_append]
  refine ⟨h.nodup, nodup_singleton _, ?_⟩
  intro a ha b hb heq
  obtain ⟨f, hf, rfl⟩ := mem_map.mp ha
  exact hnew f hf (heq.trans (mem_singleton.mp hb))

/-! ## Looking a flow up -/

theorem findFlow_eq_none : findFlow flows flow = none ↔ ∀ f ∈ flows, f.key ≠ flow.key := by
  simp [findFlow, findIdx?_eq_none_iff, ← flowMatch_iff]

theorem findFlow_eq_some (h : findFlow flows flow = some idx) :
    ∃ old, flows[idx]? = some old ∧ old.key = flow.key := by
  obtain ⟨hlt, hmatch, -⟩ := findIdx?_eq_some_iff_getElem.mp h
  exact ⟨flows[idx], getElem?_eq_getElem hlt, flowMatch_iff.mp hmatch⟩

@[simp] theorem replacement_key (mod : FlowMod) (flow old : FlowStats D) :
    (replacement mod flow old).key = flow.key := by
  unfold replacement
  split <;> rfl

@[simp] theorem replacement_id (mod : FlowMod) (flow old : FlowStats D) :
    (replacement mod flow old).id = flow.id := by
  unfold replacement
  split <;> rfl

/-- The identities stay in place when the entry that was found is replaced. -/
theorem map_key_modify (h : findFlow flows (flowStatsEntryFromFlowModMessage D mod) = some idx) :
    (flows.modify idx (replacement mod (flowStatsEntryFromFlowModMessage D mod))).map
      key = flows.map key := by
  obtain ⟨old, hold, hkey⟩ := findFlow_eq_some h
  apply ext_getElem?
  intro i
  rw [getElem?_map, getElem?_map, getElem?_modify]
  by_cases hi : idx = i
  · subst hi
    simp [hold, hkey]
  · simp [hi]

/-- The ids are in the identities. -/
theorem TableInv.map_id (h : TableInv flows) :
    flows.map FlowStats.id = (flows.map FlowStats.key).map (hashFlowStats D) := by
  rw [map_map]
  exact map_congr_left h.hashed

theorem Hashed.modify (h : Hashed flows) (mod : FlowMod) (idx : ℕ) :
    Hashed (flows.modify idx (replacement mod (flowStatsEntryFromFlowModMessage D mod))) := by
  intro f hf
  obtain ⟨i, hi⟩ := getElem?_of_mem hf
  rw [getElem?_modify] at hi
  obtain ⟨g, hg, rfl⟩ := Option.map_eq_some_iff.mp hi
  split
  · rw [replacement_id, replacement_key, entry_id, entry_key]
  · exact h g (mem_of_getElem? hg)

/-- The entry that was found may be replaced. -/
theorem TableInv.modify (h : TableInv flows)
    (hidx : findFlow flows (flowStatsEntryFromFlowModMessage D mod) = some idx) :
    TableInv (flows.modify idx (replacement mod (flowStatsEntryFromFlowModMessage D mod))) := by
  refine ⟨Hashed.modify h.hashed mod idx, ?_⟩
  rw [map_key_modify hidx]
  exact h.nodup

/-- The deletion of the entry that was found leaves no other entry of its identity. -/
theorem TableInv.eraseIdx (h : TableInv flows) (hidx : findFlow flows flow = some idx) :
    ∀ f ∈ flows.eraseIdx idx, f.key ≠ flow.key := by
  obtain ⟨old, hold, hkey⟩ := findFlow_eq_some hidx
  obtain ⟨hlt, rfl⟩ := List.getElem?_eq_some_iff.mp hold
  intro f hf heq
  have hmem : flow.key ∈ (flows.map key).eraseIdx idx := by
    rw [eraseIdx_map]
    exact mem_map.mpr ⟨f, hf, heq⟩
  have hlt' : idx < (flows.map key).length := by rwa [length_map]
  rw [← h.nodup.erase_getElem idx hlt', getElem_map, hkey, h.nodup.mem_erase_iff] at hmem
  exact hmem.1 rfl

/-! ## Requests -/

/-- The request is not an `ADD` with overlap check of a flow that is there. -/
def Fresh (s : Agent D) : Request → Prop
  | .flow mod => mod.command = .add → mod.cookieMask = 0 → mod.flags &&& ofpffCheckOverlap ≠ 0 →
      findFlow s.flows (flowStatsEntryFromFlowModMessage D mod) = none
  | .group _ => True

instance (s : Agent D) : ∀ r, Decidable (Fresh s r)
  | .flow mod => inferInstanceAs (Decidable (mod.command = .add → mod.cookieMask = 0 →
      mod.flags &&& ofpffCheckOverlap ≠ 0 →
      findFlow s.flows (flowStatsEntryFromFlowModMessage D mod) = none))
  | .group _ => isTrue trivial

/-- A flow that is not there is appended, checked or not. -/
theorem addToFlows_of_none (h : findFlow flows (flowStatsEntryFromFlowModMessage D mod) = none) :
    Core.addToFlows flows mod = some (flows ++ [flowStatsEntryFromFlowModMessage D mod]) := by
  unfold Core.addToFlows
  split
  · rfl
  · dsimp only
    rw [h]

/-- A flow that is there is replaced, without an overlap check. -/
theorem addToFlows_of_some (hflag : mod.flags &&& ofpffCheckOverlap = 0)
    (h : findFlow flows (flowStatsEntryFromFlowModMessage D mod) = some idx) :
    Core.addToFlows flows mod =
      some (flows.modify idx (replacement mod (flowStatsEntryFromFlowModMessage D mod))) := by
  unfold Core.addToFlows
  rw [if_neg (not_not.mpr hflag), h]

/-- The table that `ADD` writes is well formed, unless it is an unchecked append. -/
theorem TableInv.addToFlows {items : List (FlowStats D)} (h : TableInv flows)
    (hfresh : mod.flags &&& ofpffCheckOverlap ≠ 0 →
      findFlow flows (flowStatsEntryFromFlowModMessage D mod) = none)
    (hitems : Core.addToFlows flows mod = some items) : TableInv items := by
  unfold Core.addToFlows at hitems
  split at hitems
  · next hflag =>
    cases hitems
    exact h.append (findFlow_eq_none.mp (hfresh hflag))
  · dsimp only at hitems
    split at hitems
    · next idx hidx =>
      cases hitems
      exact h.modify hidx
    · next hnone =>
      cases hitems
      exact h.append (findFlow_eq_none.mp hnone)

/-- The flows to keep are those that the test is false of. -/
theorem partitionFlows_spec {test : FlowStats D → Except Err Bool}
    {p : List (FlowStats D) × List (FlowStats D)} (h : partitionFlows test flows = .ok p) :
    p.1 = flows.filter (fun f => test f = .ok true) ∧
      p.2 = flows.filter (fun f => test f = .ok false) := by
  induction flows generalizing p with
  | nil =>
    cases h
    exact ⟨rfl, rfl⟩
  | cons f flows ih =>
    unfold partitionFlows at h
    rcases htest : test f with e | b
    · rw [htest] at h
      cases h
    · rcases hrest : partitionFlows test flows with e | q
      · rw [htest, hrest] at h
        cases h
      · rw [htest, hrest] at h
        obtain ⟨h1, h2⟩ := ih hrest
        cases h
        rw [filter_cons, filter_cons, htest]
        cases b <;> simp [h1, h2]

theorem announceFlowsDeleted_snd (flows : List (FlowStats D)) (s : Agent D) :
    (announceFlowsDeleted flows s).2 = s := by
  unfold announceFlowsDeleted
  split <;> rfl

theorem updateGroups_fst (items : List GroupEntry) (s : Agent D) :
    (updateGroups T items s).1 = .ok () := by
  unfold updateGroups
  split <;> rfl

/-! ## What requests write -/

/-- The group table after a request. -/
def groupsAfter (groups : List GroupEntry) (mod : GroupMod) : List GroupEntry :=
  let added := (OrderedDict.insert mod.groupId (groupEntryFromGroupMod mod)
    (groupMapOf groups)).map Prod.snd
  let there := decide (mod.groupId ∈ (groupMapOf groups).map Prod.fst)
  match mod.command with
  | .add => if there then groups else added
  | .modify => if there then added else groups
  | .delete =>
    if mod.groupId = ofpgAll then []
    else if there then ((groupMapOf groups).filter fun g => g.1 ≠ mod.groupId).map Prod.snd
    else groups

/-- A request writes nothing, one of the two tables, or the groups and then the flows that do not
use the deleted group. -/
inductive Writes (T : Topology D) (s : Agent D) : Request → Agent D → Prop where
  | nothing {r : Request} : Writes T s r s
  | add {mod : FlowMod} {items : List (FlowStats D)} (hcmd : mod.command = .add)
    (hmask : mod.cookieMask = 0) (hitems : addToFlows s.flows mod = some items) :
    Writes T s (.flow mod) (updateFlows T items s).2
  | delete {mod : FlowMod} {items : List (FlowStats D)} {f : FlowStats D}
    (hsub : items.Sublist s.flows) (hf : f ∈ s.flows)
    (hgone : TableInv s.flows → ∀ g ∈ items, g.key ≠ f.key) :
    Writes T s (.flow mod) (updateFlows T items s).2
  | groups {mod : GroupMod} :
    Writes T s (.group mod) (updateGroups T (groupsAfter s.groups mod) s).2
  | both {mod : GroupMod} {uses : FlowStats D → Bool} {f : FlowStats D} (hf : f ∈ s.flows)
    (huses : uses f = true) : Writes T s (.group mod) (updateFlows T
      (s.flows.filter fun f => !uses f) (updateGroups T (groupsAfter s.groups mod) s).2).2

theorem flowAdd_writes (hcmd : mod.command = .add) :
    wp (flowAdd T mod) s fun _ s' => Writes T s (.flow mod) s' := by
  rw [flowAdd, wp_bind, wp_ofExcept]
  by_cases hmask : mod.cookieMask = 0
  · rw [pyAssert_of hmask, seqPost_ok, wp_bind, wp_read, seqPost_ok]
    split
    · next items hitems => exact .add hcmd hmask hitems
    · exact .nothing
  · rw [pyAssert, if_neg (by simpa using hmask)]
    exact .nothing

theorem flowDelete_writes (mod : FlowMod) :
    wp (flowDelete T mod) s fun _ s' => Writes T s (.flow mod) s' := by
  rw [flowDelete, wp_bind, wp_read, seqPost_ok, wp_bind, wp_ofExcept]
  rcases hp : partitionFlows (flowMatchesSpec · mod) s.flows with e | ⟨toDelete, toKeep⟩
  · exact .nothing
  · obtain ⟨rfl, rfl⟩ : toDelete = _ ∧ toKeep = _ := partitionFlows_spec hp
    rw [seqPost_ok]
    refine wp_bind_keep ?_ fun _ s' hs' => ?_
    · rcases hd : s.flows.filter (fun f => flowMatchesSpec f mod = .ok true) with _ | ⟨f, rest⟩
      · exact .nothing
      · obtain ⟨hf, htrue⟩ := mem_filter.mp (hd ▸ mem_cons_self (a := f) (l := rest))
        refine .delete filter_sublist hf fun h g hg hkey => ?_
        -- a flow of the identity of a deleted one is that flow
        obtain ⟨hg, hfalse⟩ := mem_filter.mp hg
        rw [inj_on_of_nodup_map h.nodup hg hf hkey] at hfalse
        simp_all
    · rw [wp_def, announceFlowsDeleted_snd]
      exact hs'

theorem flowDeleteStrict_writes (mod : FlowMod) :
    wp (flowDeleteStrict T mod) s fun _ s' => Writes T s (.flow mod) s' := by
  rw [flowDeleteStrict, wp_bind, wp_read, seqPost_ok]
  dsimp only
  split
  · next idx hidx =>
    obtain ⟨old, hold, hkey⟩ := findFlow_eq_some hidx
    refine .delete (eraseIdx_sublist _ _) (mem_of_getElem? hold) fun h => ?_
    rw [hkey]
    exact h.eraseIdx hidx
  · exact .nothing

theorem groupDelete_writes {mod : GroupMod} (hcmd : mod.command = .delete) :
    wp (groupDelete T mod) s fun _ s' => Writes T s (.group mod) s' := by
  have hgroups : Writes T s (.group mod) (updateGroups T (groupsAfter s.groups mod) s).2 := .groups
  have hboth : ∀ f ∈ s.flows, flowHasOutGroup f mod.groupId = true → Writes T s (.group mod)
      (updateFlows T (s.flows.filter fun f => !flowHasOutGroup f mod.groupId)
        (updateGroups T (groupsAfter s.groups mod) s).2).2 := fun _ hf huses => .both hf huses
  rw [groupsAfter, hcmd] at hgroups hboth
  rw [groupDelete, wp_bind, wp_read, seqPost_ok]
  dsimp only at hgroups hboth ⊢
  split
  · next hall =>
    rw [if_pos hall] at hgroups
    exact hgroups
  next hall =>
  rw [if_neg hall] at hgroups hboth
  split
  · next hthere =>
    rw [if_pos (decide_eq_true hthere)] at hgroups hboth
    rw [wp_bind, wp_read, seqPost_ok, wp_bind, wp_def, announceFlowsDeleted_snd]
    rcases (announceFlowsDeleted (s.flows.filter fun f => flowHasOutGroup f mod.groupId) s).1
      with e | _
    · exact .nothing
    · rw [seqPost_ok, wp_bind, wp_def, updateGroups_fst, seqPost_ok]
      by_cases hnone : s.flows.filter (fun f => flowHasOutGroup f mod.groupId) = []
      · rw [decide_eq_false (not_not.mpr hnone)]
        exact hgroups
      · rw [decide_eq_true hnone]
        obtain ⟨f, hf⟩ := exists_mem_of_ne_nil _ hnone
        obtain ⟨hf, huses⟩ := mem_filter.mp hf
        exact hboth f hf huses
  · exact .nothing

/-- A group is put in, or nothing written. -/
theorem putGroup_writes {mod : GroupMod} {b : Bool} (h : b = true → groupsAfter s.groups mod =
      (OrderedDict.insert mod.groupId (groupEntryFromGroupMod mod) (groupMapOf s.groups)).map
        Prod.snd) :
    wp (doIf b (updateGroups T ((OrderedDict.insert mod.groupId (groupEntryFromGroupMod mod)
      (groupMapOf s.groups)).map Prod.snd))) s fun _ s' => Writes T s (.group mod) s' := by
  cases b
  · exact .nothing
  · rw [← h rfl]
    exact .groups

/-- **What a request writes.** -/
theorem request_writes (T : Topology D) (s : Agent D) (r : Request) :
    Writes T s r (afterRequest T s r) := by
  rcases r with mod | mod
  · change wp (updateFlowTable T mod) s fun _ s' => Writes T s (.flow mod) s'
    unfold updateFlowTable
    split
    · next hcmd => exact flowAdd_writes hcmd
    · exact flowDelete_writes mod
    · exact flowDeleteStrict_writes mod
    · exact .nothing
    · exact .nothing
  · change wp (updateGroupTable T mod) s fun _ s' => Writes T s (.group mod) s'
    unfold updateGroupTable
    split
    · next hcmd => exact groupDelete_writes hcmd
    · next hcmd =>
      rw [groupAdd, wp_bind, wp_read, seqPost_ok]
      refine putGroup_writes fun hnew => ?_
      rw [groupsAfter, hcmd]
      exact if_neg fun hthere => of_decide_eq_true hnew (of_decide_eq_true hthere)
    · next hcmd =>
      rw [groupModify, wp_bind, wp_read, seqPost_ok]
      refine putGroup_writes fun hthere => ?_
      rw [groupsAfter, hcmd]
      exact if_pos hthere

/-- **A request keeps the invariant, unless it is an `ADD` with overlap check of a flow that is
there.** -/
theorem TableInv.request (h : TableInv s.flows) {r : Request} (hfresh : Fresh s r) :
    TableInv (afterRequest T s r).flows := by
  have hwrites := request_writes T s r
  generalize afterRequest T s r = s' at hwrites ⊢
  cases hwrites with
  | nothing => exact h
  | add hcmd hmask hitems =>
    exact (h.addToFlows (hfresh hcmd hmask) hitems).sublist (updateFlows_loses T _ s).flows
  | delete hsub _ _ => exact h.sublist ((updateFlows_loses T _ s).flows.trans hsub)
  | groups => exact h.sublist (updateGroups_loses T _ s).flows
  | both _ _ => exact h.sublist ((updateFlows_loses T _ _).flows.trans filter_sublist)

/-- **An `ADD` with overlap check of a flow that is there appends it.**  The set of ids does not
change, so that nothing nests below the write. -/
theorem not_nodup_of_not_fresh (h : TableInv s.flows) {r : Request} (hnot : ¬ Fresh s r) :
    ¬ ((afterRequest T s r).flows.map key).Nodup := by
  rcases r with mod | mod
  · unfold Fresh at hnot
    push Not at hnot
    obtain ⟨hcmd, hmask, hflag, hfound⟩ := hnot
    obtain ⟨idx, hidx⟩ := Option.ne_none_iff_exists'.mp hfound
    obtain ⟨old, hold, hkey⟩ := findFlow_eq_some hidx
    have hmem : old ∈ s.flows := mem_of_getElem? hold
    have hitems : addToFlows s.flows mod =
        some (s.flows ++ [flowStatsEntryFromFlowModMessage D mod]) := if_pos hflag
    have hids : ∀ i, i ∈ (s.flows ++ [flowStatsEntryFromFlowModMessage D mod]).map FlowStats.id ↔
        i ∈ s.flows.map FlowStats.id := by
      intro i
      rw [map_append, mem_append, map_singleton, mem_singleton, entry_id,
        or_iff_left_iff_imp]
      rintro rfl
      exact mem_map.mpr ⟨old, hmem, by rw [h.hashed old hmem, hkey, entry_key]⟩
    have hflows : (afterRequest T s (.flow mod)).flows =
        s.flows ++ [flowStatsEntryFromFlowModMessage D mod] := by
      change wp (updateFlowTable T mod) s fun _ s' =>
        s'.flows = s.flows ++ [flowStatsEntryFromFlowModMessage D mod]
      rw [updateFlowTable, hcmd]
      rw [flowAdd, wp_bind, wp_ofExcept, pyAssert_of hmask,
        seqPost_ok, wp_bind, wp_read, seqPost_ok, hitems, wp_def,
        updateFlows_of_sameIds T hids]
    rw [hflows, map_append, map_singleton, entry_key, nodup_append]
    intro hdup
    exact hdup.2.2 _ (mem_map_of_mem hmem) _ (mem_singleton_self _) hkey
  · exact absurd trivial hnot

/-- The table has no two entries for one flow, and `DELETE_STRICT` leaves no entry that matches. -/
def FlowTableHolds (T : Topology D) (s : Agent D) : Prop :=
  s.flows.Pairwise (fun f g => ¬ flowMatch f g) ∧
    ∀ mod : FlowMod, mod.command = .deleteStrict →
      ∀ f ∈ (afterRequest T s (.flow mod)).flows,
        ¬ flowMatch f (flowStatsEntryFromFlowModMessage D mod)

theorem nodup_iff_pairwise :
    (flows.map key).Nodup ↔ flows.Pairwise (fun f g => ¬ flowMatch f g) := by
  rw [Nodup, pairwise_map]
  simp [flowMatch_iff]

theorem TableInv.holds (h : TableInv s.flows) : FlowTableHolds T s := by
  refine ⟨nodup_iff_pairwise.mp h.nodup, fun mod hcmd f hf => ?_⟩
  have hwp : wp (flowDeleteStrict T mod) s fun _ s' => ∀ f ∈ s'.flows, f.key ≠ mod.key := by
    rw [flowDeleteStrict, wp_bind, wp_read, seqPost_ok]
    dsimp only
    split
    · next idx hidx =>
      exact fun g hg => h.eraseIdx hidx g ((updateFlows_loses T _ s).flows.subset hg)
    · next hnone => exact findFlow_eq_none.mp hnone
  rw [flowMatch_iff]
  change f ∈ (updateFlowTable T mod s).2.flows at hf
  rw [updateFlowTable, hcmd] at hf
  exact hwp f hf

/-- **The flow table never holds two entries for the same flow**, exactly in the runs in which no
`ADD` with overlap check is for a flow that is there. -/
theorem flow_table_holds_iff {s : Agent D} (h : s.flows = []) (l : List Request) :
    AllAlong (afterRequest T) Fresh s l ↔
      ∀ l', l' <+: l → FlowTableHolds T (l'.foldl (afterRequest T) s) :=
  allAlong_iff (I := fun s : Agent D => TableInv s.flows) (fun _ hI => hI.holds)
    (fun _ _ hI hc => hI.request hc)
    (fun _ _ hI hc hJ => not_nodup_of_not_fresh hI hc (nodup_iff_pairwise.mpr hJ.1))
    (by rw [h]; exact TableInv.nil)

open Sample

/-- Two flows, the first of them added twice and deleted. -/
def Sample.additions : List Request :=
  [.flow (upstream 0 0x1000), .flow (upstream ofpffCheckOverlap 0x1005),
    .flow (upstream 0 0x1000),
    .flow { upstream 0 0x1000 with command := .deleteStrict }]

theorem flow_table_holds_iff_sample :
    FlowTableHolds network (additions.foldl (afterRequest network) {}) :=
  (flow_table_holds_iff rfl additions).mp (by decide +kernel) _ prefix_rfl

/-- The same flow, added twice with overlap check. -/
def Sample.overlapping : List Request :=
  [.flow (upstream ofpffCheckOverlap 0x1000),
    .flow (upstream ofpffCheckOverlap 0x1000)]

/-- It is in the table twice, and one of the two survives `DELETE_STRICT`. -/
theorem overlapping_add_duplicates :
    (overlapping.foldl (afterRequest network) {}).flows.length = 2 ∧
      ((afterRequest network (overlapping.foldl (afterRequest network) {})
        (.flow { upstream ofpffCheckOverlap 0x1000 with
          command := .deleteStrict })).flows.map key =
        [(upstream ofpffCheckOverlap 0x1000).key]) ∧
      ¬ FlowTableHolds network
        (overlapping.foldl (afterRequest network) {}) := by
  refine ⟨by decide +kernel, by decide +kernel, fun h => ?_⟩
  have hdup : ¬ ((overlapping.foldl (afterRequest network) {}).flows.map
      key).Nodup := by decide +kernel
  exact hdup (nodup_iff_pairwise.mpr h.1)

end Voltha.Core
