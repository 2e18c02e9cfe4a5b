import Voltha.Core.DeviceTables

/-!
# Deleting groups

`group_delete` writes the groups without the deleted ones, and then, if some flows send to the
deleted group, the flows without these.  In between, the callback of the first write decomposes the
old flows with the new groups, and drops those without a route.  For `OFPG_ALL` there is no second
write: the flows that send to the deleted groups stay, unless they are dropped.

* `Stored`: what holds of the tables in every reachable state.
* `GroupsDeleted`: the groups are deleted with the flows that use them, and no flows if there are
  none.
* `group_deletion_iff`: when that is so.
-/

namespace Voltha.Core

open List OrderedDict Act

variable {D : Digest} {T : Topology D}

/-! ## Reachable tables -/

/-- Ids of flows are the digests of their identities, and no two groups have one id. -/
structure Stored (s : Agent D) : Prop where
  hashed : Hashed s.flows
  groupIds : (s.groups.map GroupEntry.groupId).Nodup

theorem Hashed.addToFlows {flows items : List (FlowStats D)} (h : Hashed flows) {mod : FlowMod}
    (hitems : Core.addToFlows flows mod = some items) : Hashed items := by
  unfold Core.addToFlows at hitems
  split at hitems
  · cases hitems
    exact h.append mod
  · dsimp only at hitems
    split at hitems
    · cases hitems
      exact h.modify mod _
    · cases hitems
      exact h.append mod

namespace Stored

variable {s : Agent D}

variable (h : Stored s)
include h

theorem updateFlows {items : List (FlowStats D)} (hitems : Hashed items) :
    Stored (updateFlows T items s).2 := by
  refine ⟨hitems.sublist (updateFlows_loses T items s).flows, ?_⟩
  rw [(updateFlows_loses T items s).groups]
  exact h.groupIds

theorem updateGroups {items : List GroupEntry}
    (hitems : (items.map GroupEntry.groupId).Nodup) : Stored (updateGroups T items s).2 := by
  refine ⟨h.hashed.sublist (updateGroups_loses T items s).flows, ?_⟩
  rw [(updateGroups_loses T items s).groups]
  exact hitems

end Stored

variable {groups : List GroupEntry}

section

variable (h : (groups.map GroupEntry.groupId).Nodup)
include h

/-- The groups by their ids. -/
theorem groupMapOf_eq : groupMapOf groups = groups.map fun g => (g.groupId, g) := by
  refine ofList_of_nodup ?_
  rw [map_map]
  exact h

theorem keys_groupMapOf : (groupMapOf groups).map Prod.fst = groups.map GroupEntry.groupId := by
  rw [groupMapOf_eq h, map_map]
  rfl

/-- The groups that are left when one is taken out. -/
theorem values_groupMapOf_filter (id : ℕ) :
    ((groupMapOf groups).filter fun g => g.1 ≠ id).map Prod.snd =
      groups.filter fun g => g.groupId ≠ id := by
  rw [groupMapOf_eq h, filter_map, map_map]
  exact List.map_id _

/-- A group that is put in keeps the ids distinct. -/
theorem nodup_insert_group (mod : GroupMod) :
    (((insert mod.groupId (groupEntryFromGroupMod mod) (groupMapOf groups)).map
      Prod.snd).map GroupEntry.groupId).Nodup := by
  have hkeys : ∀ p ∈ insert mod.groupId (groupEntryFromGroupMod mod)
      (groupMapOf groups), p.2.groupId = p.1 := by
    intro p hp
    rcases mem_insert hp with rfl | hp
    · rfl
    · rw [groupMapOf_eq h] at hp
      obtain ⟨g, -, rfl⟩ := mem_map.mp hp
      rfl
  have hids := map_congr_left (f := GroupEntry.groupId ∘ Prod.snd) (g := Prod.fst) hkeys
  rw [map_map, hids]
  refine nodup_keys_insert ?_
  rw [keys_groupMapOf h]
  exact h

theorem nodup_groupsAfter (mod : GroupMod) :
    ((groupsAfter groups mod).map GroupEntry.groupId).Nodup := by
  unfold groupsAfter
  dsimp only
  split
  · split
    · exact h
    · exact nodup_insert_group h mod
  · split
    · exact nodup_insert_group h mod
    · exact h
  · split
    · exact nodup_nil
    split
    · rw [values_groupMapOf_filter h]
      exact h.sublist (filter_sublist.map _)
    · exact h

end

/-! ## What `group_delete` writes -/

section

variable {s : Agent D} {mod : GroupMod}

theorem groupDelete_all (hall : mod.groupId = ofpgAll) :
    groupDelete T mod s = updateGroups T [] s := by
  rw [groupDelete, read_bind]
  rw [if_pos hall]

section

variable (hids : (s.groups.map GroupEntry.groupId).Nodup) (hall : mod.groupId ≠ ofpgAll)
include hids hall

theorem groupDelete_of_notMem (hmem : mod.groupId ∉ s.groups.map GroupEntry.groupId) :
    groupDelete T mod s = (.ok (), s) := by
  rw [groupDelete, read_bind]
  rw [if_neg hall, keys_groupMapOf hids, if_neg hmem]
  rfl

/-- The two writes for one group: the groups, and then the flows that do not use the group. -/
theorem groupDelete_of_mem (hmem : mod.groupId ∈ s.groups.map GroupEntry.groupId) :
    groupDelete T mod s =
      match (announceFlowsDeleted (s.flows.filter fun f => flowHasOutGroup f mod.groupId) s).1 with
      | .error e => (.error e, s)
      | .ok _ =>
        doIf (s.flows.filter (fun f => flowHasOutGroup f mod.groupId) ≠ [])
          (updateFlows T (s.flows.filter fun f => !flowHasOutGroup f mod.groupId))
          (updateGroups T (s.groups.filter fun g => g.groupId ≠ mod.groupId) s).2 := by
  have hstate := announceFlowsDeleted_snd (s.flows.filter fun f => flowHasOutGroup f mod.groupId) s
  rw [groupDelete, read_bind]
  rw [if_neg hall, keys_groupMapOf hids, if_pos hmem, values_groupMapOf_filter hids, read_bind,
    bind_apply]
  rcases hannounce : announceFlowsDeleted
    (s.flows.filter fun f => flowHasOutGroup f mod.groupId) s with ⟨e | _, s'⟩
  · rw [hannounce] at hstate
    exact congrArg (Prod.mk _) hstate
  · rw [hannounce] at hstate
    obtain rfl : s' = s := hstate
    exact bind_of_ok (Prod.ext (updateGroups_fst _ s') rfl)

end

end

theorem Stored.request {s : Agent D} (h : Stored s) (r : Request) :
    Stored (afterRequest T s r) := by
  have hwrites := request_writes T s r
  generalize afterRequest T s r = s' at hwrites ⊢
  cases hwrites with
  | nothing => exact h
  | add _ _ hitems => exact h.updateFlows (h.hashed.addToFlows hitems)
  | delete hsub _ _ => exact h.updateFlows (h.hashed.sublist hsub)
  | groups => exact h.updateGroups (nodup_groupsAfter h.groupIds _)
  | both _ _ =>
    exact (h.updateGroups (nodup_groupsAfter h.groupIds _)).updateFlows
      (h.hashed.sublist filter_sublist)

/-- The agent after requests, each with the routes that there are at its time. -/
def afterRequests (requests : List (Topology D × Request)) : Agent D :=
  requests.foldl (fun s r => afterRequest r.1 s r.2) {}

theorem afterRequests_stored (requests : List (Topology D × Request)) :
    Stored (afterRequests requests) := by
  refine List.foldlRecOn requests _ ⟨nofun, nodup_nil⟩ ?_
  exact fun s h r _ => h.request r.2

/-- **No two groups have one id**, after any requests. -/
theorem group_ids_distinct (requests : List (Topology D × Request)) :
    ((afterRequests requests).groups.map GroupEntry.groupId).Nodup :=
  (afterRequests_stored requests).groupIds

/-! ## The deletion -/

/-- The ids of the groups that a message deletes. -/
def deletedGroups (groups : List GroupEntry) (mod : GroupMod) : List ℕ :=
  (groups.map GroupEntry.groupId).filter fun g => mod.groupId = ofpgAll ∨ g = mod.groupId

/-- The groups that a message leaves. -/
def remainingGroups (groups : List GroupEntry) (mod : GroupMod) : List GroupEntry :=
  groups.filter fun g => g.groupId ∉ deletedGroups groups mod

/-- The flow sends to one of the groups. -/
def usesGroup (ids : List ℕ) (f : FlowStats D) : Bool := ids.any (flowHasOutGroup f)

/-- The groups are deleted, no flow uses a deleted group, and if none has done so, the flows are as
before. -/
structure GroupsDeleted (mod : GroupMod) (s s' : Agent D) : Prop where
  groups : s'.groups = remainingGroups s.groups mod
  unused : ∀ f ∈ s'.flows, usesGroup (deletedGroups s.groups mod) f = false
  unchanged : (∀ f ∈ s.flows, usesGroup (deletedGroups s.groups mod) f = false) →
    s'.flows = s.flows

/-- The condition for that: there is nothing to delete; or, for `OFPG_ALL`, the flows that use a
deleted group have lost their routes, and if no flow uses a deleted group, none has lost its
route. -/
def DeletesCleanly (T : Topology D) (mod : GroupMod) (s : Agent D) : Prop :=
  deletedGroups s.groups mod = [] ∨
    (mod.groupId = ofpgAll → ∀ f ∈ s.flows, usesGroup (deletedGroups s.groups mod) f = true →
      T.Swept (remainingGroups s.groups mod) s.flows f.key) ∧
    ((∃ f ∈ s.flows, usesGroup (deletedGroups s.groups mod) f = true) ∨
      ∀ f ∈ s.flows, ¬ T.Swept (remainingGroups s.groups mod) s.flows f.key)

section

variable {s : Agent D} {mod : GroupMod}

section

variable (hall : mod.groupId = ofpgAll) (groups : List GroupEntry)
include hall

theorem deletedGroups_all : deletedGroups groups mod = groups.map GroupEntry.groupId := by
  simp [deletedGroups, hall]

theorem remainingGroups_all : remainingGroups groups mod = [] := by
  rw [remainingGroups, deletedGroups_all hall, filter_eq_nil_iff]
  intro g hg
  simpa using mem_map_of_mem hg

end

theorem mem_deletedGroups (hall : mod.groupId ≠ ofpgAll) {g : ℕ} :
    g ∈ deletedGroups groups mod ↔
      g = mod.groupId ∧ mod.groupId ∈ groups.map GroupEntry.groupId := by
  rw [deletedGroups, mem_filter]
  simp only [hall, false_or, decide_eq_true_eq]
  constructor
  · rintro ⟨hg, rfl⟩
    exact ⟨rfl, hg⟩
  · rintro ⟨rfl, hg⟩
    exact ⟨hg, rfl⟩

theorem mem_of_deletedGroups_ne_nil (hall : mod.groupId ≠ ofpgAll)
    (hsome : deletedGroups s.groups mod ≠ []) : mod.groupId ∈ s.groups.map GroupEntry.groupId := by
  obtain ⟨g, hg⟩ := exists_mem_of_ne_nil _ hsome
  exact ((mem_deletedGroups hall).mp hg).2

/-- If there is nothing to delete, nothing changes. -/
theorem groupsDeleted_of_none (h : Stored s) (hnone : deletedGroups s.groups mod = []) :
    GroupsDeleted mod s (groupDelete T mod s).2 := by
  have hstate : (groupDelete T mod s).2 = s := by
    by_cases hall : mod.groupId = ofpgAll
    · rw [deletedGroups_all hall, map_eq_nil_iff] at hnone
      rw [groupDelete_all hall, updateGroups, if_pos hnone]
    · have hmem : mod.groupId ∉ s.groups.map GroupEntry.groupId := fun hmem => by
        have hin := (mem_deletedGroups hall).mpr ⟨rfl, hmem⟩
        rw [hnone] at hin
        exact absurd hin not_mem_nil
      rw [groupDelete_of_notMem h.groupIds hall hmem]
  rw [hstate]
  refine ⟨?_, fun f _ => ?_, fun _ => rfl⟩
  · rw [remainingGroups, hnone]
    exact (filter_eq_self.mpr fun g _ => by simp).symm
  · rw [hnone]
    rfl

/-- `OFPG_ALL`: the flows that are not swept stay, whether they use a group or not. -/
theorem groupsDeleted_all_iff (hD : D.CollisionFree) (h : Stored s) (hall : mod.groupId = ofpgAll)
    (hsome : deletedGroups s.groups mod ≠ []) :
    GroupsDeleted mod s (groupDelete T mod s).2 ↔ DeletesCleanly T mod s := by
  have hne : s.groups ≠ [] := by
    rintro heq
    rw [deletedGroups_all hall, heq] at hsome
    exact hsome rfl
  obtain ⟨hflows, hgroups⟩ := updateGroups_sweeps (T := T) hD h.hashed hne
  rw [groupDelete_all hall, DeletesCleanly, or_iff_right hsome, remainingGroups_all hall]
  constructor
  · rintro ⟨-, hunused, hunchanged⟩
    rw [hflows] at hunused hunchanged
    refine ⟨fun _ f hf huses => ?_, ?_⟩
    · by_contra hswept
      have hnot := hunused f (Sweep.mem_unswept.mpr ⟨hf, hswept⟩)
      rw [huses] at hnot
      cases hnot
    · by_cases hused : ∃ f ∈ s.flows, usesGroup (deletedGroups s.groups mod) f = true
      · exact .inl hused
      · push Not at hused
        exact .inr (Sweep.unswept_eq_self_iff.mp
          (hunchanged fun f hf => Bool.not_eq_true _ ▸ hused f hf))
  · rintro ⟨hdropped, hcases⟩
    refine ⟨hgroups.trans (remainingGroups_all hall _).symm, ?_, ?_⟩
    · intro f hf
      rw [hflows] at hf
      obtain ⟨hf, hnot⟩ := Sweep.mem_unswept.mp hf
      rw [← Bool.not_eq_true]
      exact fun huses => hnot (hdropped hall f hf huses)
    · intro hunused
      rw [hflows]
      refine Sweep.unswept_eq_self_iff.mpr (hcases.resolve_left ?_)
      rintro ⟨f, hf, huses⟩
      rw [hunused f hf] at huses
      cases huses

/-- One group: the flows that use it are deleted, and if there are none, those that are swept. -/
theorem groupsDeleted_one_iff (hD : D.CollisionFree) (h : Stored s) (hall : mod.groupId ≠ ofpgAll)
    (hsome : deletedGroups s.groups mod ≠ []) (hok : (groupDelete T mod s).1 = .ok ()) :
    GroupsDeleted mod s (groupDelete T mod s).2 ↔ DeletesCleanly T mod s := by
  have hmem := mem_of_deletedGroups_ne_nil hall hsome
  have huses : ∀ f : FlowStats D, usesGroup (deletedGroups s.groups mod) f =
      flowHasOutGroup f mod.groupId := by
    intro f
    rw [Bool.eq_iff_iff, usesGroup, any_eq_true]
    simp only [mem_deletedGroups hall, hmem, and_true, exists_eq_left]
  have hrest : remainingGroups s.groups mod =
      s.groups.filter fun g => g.groupId ≠ mod.groupId := by
    refine filter_congr fun g _ => ?_
    simp only [mem_deletedGroups hall, hmem, and_true]
  have hne : s.groups ≠ remainingGroups s.groups mod := by
    intro heq
    rw [hrest] at heq
    obtain ⟨g, hg, hid⟩ := mem_map.mp hmem
    rw [heq] at hg
    exact absurd hid (by simpa using (mem_filter.mp hg).2)
  obtain ⟨hflows, hgroups⟩ := updateGroups_sweeps (T := T) hD h.hashed hne
  rw [groupDelete_of_mem h.groupIds hall hmem, ← hrest] at hok ⊢
  rcases hannounce : (announceFlowsDeleted
    (s.flows.filter fun f => flowHasOutGroup f mod.groupId) s).1 with e | _
  · rw [hannounce] at hok
    cases hok
  rw [DeletesCleanly, or_iff_right hsome]
  generalize (updateGroups T (remainingGroups s.groups mod) s).2 = s₁ at hflows hgroups
  by_cases hnone : s.flows.filter (fun f => flowHasOutGroup f mod.groupId) = []
  · -- no flow uses the group, and the flows are written once
    rw [decide_eq_false (not_not.mpr hnone)]
    have hunused : ∀ f ∈ s.flows, usesGroup (deletedGroups s.groups mod) f = false := by
      intro f hf
      rw [huses]
      simpa using filter_eq_nil_iff.mp hnone f hf
    show GroupsDeleted mod s s₁ ↔ _
    constructor
    · rintro ⟨-, -, hunchanged⟩
      exact ⟨fun h => absurd h hall,
        .inr (Sweep.unswept_eq_self_iff.mp (hflows.symm.trans (hunchanged hunused)))⟩
    · rintro ⟨-, hcases⟩
      have hkeep := hcases.resolve_left fun ⟨f, hf, hused⟩ => by
        rw [hunused f hf] at hused
        cases hused
      have hsame : s₁.flows = s.flows := hflows.trans (Sweep.unswept_eq_self_iff.mpr hkeep)
      exact ⟨hgroups, fun f hf => hunused f (hsame ▸ hf), fun _ => hsame⟩
  · -- the second write leaves no flow that uses the group
    rw [decide_eq_true hnone]
    obtain ⟨f, hf⟩ := exists_mem_of_ne_nil _ hnone
    obtain ⟨hf, hused⟩ := mem_filter.mp hf
    rw [← huses] at hused
    refine iff_of_true ⟨(updateFlows_loses T _ s₁).groups.trans hgroups, fun g hg => ?_,
      fun hunused => ?_⟩ ⟨fun h => absurd h hall, .inl ⟨f, hf, hused⟩⟩
    · have hkept := (mem_filter.mp ((updateFlows_loses T _ s₁).flows.subset hg)).2
      rw [huses]
      simpa using hkept
    · rw [hunused f hf] at hused
      cases hused

end

/-- **When the deletion of groups deletes the flows that use them.**  In every state that requests
lead to, whatever the routes were at the time of each, a deletion of groups that returns normally
deletes the groups and the flows that use them, and no flows if there are none, if and only if:
there is no group to delete; or, for `OFPG_ALL`, each flow that uses a deleted group is dropped for
lack of a route; and some flow uses a deleted group, or no flow is dropped. -/
theorem group_deletion_iff (hD : D.CollisionFree) (requests : List (Topology D × Request))
    (T : Topology D) (mod : GroupMod)
    (hok : (groupDelete T mod (afterRequests requests)).1 = .ok ()) :
    GroupsDeleted mod (afterRequests requests) (groupDelete T mod (afterRequests requests)).2 ↔
      DeletesCleanly T mod (afterRequests requests) := by
  have h := afterRequests_stored requests
  by_cases hnone : deletedGroups (afterRequests requests).groups mod = []
  · exact iff_of_true (groupsDeleted_of_none h hnone) (.inl hnone)
  · by_cases hall : mod.groupId = ofpgAll
    · exact groupsDeleted_all_iff hD h hall hnone
    · exact groupsDeleted_one_iff hD h hall hnone hok

namespace Sample

/-- A message to delete groups. -/
def deleteGroup (id : ℕ) : GroupMod := { command := .delete, groupId := id }

/-- A group is added, and a flow that uses it. -/
def multicastRequests : List (Topology digest × Request) :=
  [(network, .group { groupId := 7, buckets := [{ actions := [output 101] }] }),
    (network, .flow
      { priority := 1000
        «match» := { type := .oxm, oxmFields := [basicField (inPort 0)] }
        instructions :=
          [{ type := .applyActions
             data := .actions [{ type := .group, action := .group 7 }] }] })]

/-- A group is added, and a flow that does not use it. -/
def unicastRequests : List (Topology digest × Request) :=
  [(network, .group { groupId := 7, buckets := [{ actions := [output 101] }] }),
    (network, .flow (upstream 0 0x1000))]

end Sample

open Sample

theorem group_deletion_one :
    GroupsDeleted (deleteGroup 7) (afterRequests multicastRequests)
      (groupDelete network (deleteGroup 7)
        (afterRequests multicastRequests)).2 :=
  (group_deletion_iff digest_collisionFree multicastRequests network
    (deleteGroup 7) (by decide +kernel)).mpr
    (.inr ⟨fun h => absurd h (by decide), .inl (by decide +kernel)⟩)

/-- When all groups are deleted, the flow that uses one of them stays; and when a group that no flow
uses is deleted, a flow goes that has lost its route. -/
theorem flows_of_deleted_groups_wrong :
    (let s := afterRequests multicastRequests
      let result := groupDelete network (deleteGroup ofpgAll) s
      result.1 = .ok () ∧ result.2.groups = [] ∧ result.2.flows = s.flows ∧
        s.flows.map (fun f => flowHasOutGroup f 7) = [true] ∧
        ¬ GroupsDeleted (deleteGroup ofpgAll) s result.2) ∧
      let s := afterRequests unicastRequests
      let result := groupDelete { network with routes := [] } (deleteGroup 7) s
      result.1 = .ok () ∧ result.2.flows = [] ∧
        s.flows.map (fun f => flowHasOutGroup f 7) = [false] ∧
        ¬ GroupsDeleted (deleteGroup 7) s result.2 := by
  refine ⟨⟨by decide +kernel, by decide +kernel, by decide +kernel, by decide +kernel, ?_⟩,
    by decide +kernel, by decide +kernel, by decide +kernel, ?_⟩
  · have huses : ¬ ∀ f ∈ (groupDelete network (deleteGroup ofpgAll)
        (afterRequests multicastRequests)).2.flows, usesGroup (deletedGroups
          (afterRequests multicastRequests).groups (deleteGroup ofpgAll)) f =
            false := by
      decide +kernel
    exact fun h => huses h.unused
  · have hunused : ∀ f ∈ (afterRequests unicastRequests).flows, usesGroup (deletedGroups
        (afterRequests unicastRequests).groups (deleteGroup 7)) f = false := by
      decide +kernel
    have hchanged : (groupDelete { network with routes := [] } (deleteGroup 7)
        (afterRequests unicastRequests)).2.flows ≠
          (afterRequests unicastRequests).flows := by
      decide +kernel
    exact fun h => hchanged (h.unchanged hunused)

end Voltha.Core
