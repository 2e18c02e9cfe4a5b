import Voltha.Xpon.Chains

/-!
# Requests for T-CONTs and GEM ports

* `PoolsOk`: the channel groups have pools with the numbers of new pools.
* `Renumbered`: a request for a message with an id keeps the ids of its collection in order, and
  leaves the other collections and pools alone.
* `Renumbered.create`, `Renumbered.update`, `Renumbered.delete`: the handlers do this; an update if
  it does not change the channel group.
-/

namespace Voltha.Xpon

open OrderedDict

open Common (IndexPool)

section Allocation

variable {α : Type} [Message α] {coll : Numbered α} {k : Kind}
  {In : FiberConfig → α → String → Prop} {s s' : XponHandler}

/-! ## Pools of the channel groups -/

/-- The channel groups have pools, and these have the numbers of new pools. -/
structure PoolsOk (s : XponHandler) : Prop where
  found : ∀ group ∈ s.config.channelGroups.map (·.name),
    ∃ pools, get s.cgDict group = some pools
  ranged : ∀ group pools, get s.cgDict group = some pools → Ranged pools

theorem get_setPools (s : XponHandler) (group g : String) (pools : Pools) :
    get (s.setPools group pools).cgDict g =
      if g = group then some pools else get s.cgDict g :=
  get_insert ..

variable {pools : Pools} {group : String}

theorem PoolsOk.setPools (h : PoolsOk s) (group : String) (hpools : Ranged pools) :
    PoolsOk (s.setPools group pools) where
  found := fun g hg => by
    rw [get_setPools]
    split
    · exact ⟨pools, rfl⟩
    · exact h.found g hg
  ranged := fun g pools' hget => by
    rw [get_setPools] at hget
    split at hget
    · cases hget
      exact hpools
    · exact h.ranged g pools' hget

theorem PoolsOk.put (h : PoolsOk s) (hchain : Chain coll k In) (l : List α) :
    PoolsOk (s.put coll.toCollection l) where
  found := fun g hg => by
    rw [show (s.put coll.toCollection l).config.channelGroups = s.config.channelGroups from
      hchain.groups_put s.config l] at hg
    exact h.found g hg
  ranged := h.ranged

omit [Message α] in
/-- The marks of a group are those of its pool. -/
theorem marks_of_get (hget : get s.cgDict group = some pools) (id : ℕ) :
    Marks coll s group id ↔ (coll.pool pools).IsAllocated id := by
  constructor
  · rintro ⟨pools', hget', hmark⟩
    rw [hget] at hget'
    cases hget'
    exact hmark
  · exact fun hmark => ⟨pools, hget, hmark⟩

/-- The marks after the pool of a group was changed. -/
theorem marks_setPool (hchain : Chain coll k In) {pool : IndexPool} (g : String) (id : ℕ) :
    Marks coll (s.setPools group (coll.setPool pools pool)) g id ↔
      if g = group then pool.IsAllocated id else Marks coll s g id := by
  rw [Marks, get_setPools]
  split
  · constructor
    · rintro ⟨pools', heq, hmark⟩
      cases heq
      rwa [hchain.pool_setPool] at hmark
    · intro hmark
      exact ⟨_, rfl, (hchain.pool_setPool pools pool).symm ▸ hmark⟩
  · rfl

omit [Message α] in
/-- The pools of another collection are not changed. -/
theorem marks_setPool_other {β : Type} {other : Numbered β}
    (hother : ∀ pools pool, other.pool (coll.setPool pools pool) = other.pool pools)
    (hget : get s.cgDict group = some pools) (pool : IndexPool) (g : String) (id : ℕ) :
    Marks other (s.setPools group (coll.setPool pools pool)) g id ↔ Marks other s g id := by
  rw [Marks, Marks, get_setPools]
  split
  · next hg =>
    constructor
    · rintro ⟨pools', heq, hmark⟩
      cases heq
      exact ⟨pools, hg ▸ hget, hother pools pool ▸ hmark⟩
    · rintro ⟨pools', heq, hmark⟩
      rw [hg, hget] at heq
      cases heq
      exact ⟨_, rfl, (hother pools pool).symm ▸ hmark⟩
  · rfl

/-! ## The handlers for messages with ids -/

/-- A request for a message with an id changes messages of its collection and pools of its kind, and
the ids stay in order. -/
structure Renumbered (coll : Numbered α) (In : FiberConfig → α → String → Prop)
    (s s' : XponHandler) : Prop where
  allocated : Allocated coll In s'
  pools : PoolsOk s'
  cgPool : s'.cgPool = s.cgPool
  config : ∃ l, s'.config = coll.put s.config l
  others : ∀ {β : Type} (other : Numbered β),
    (∀ pools pool, other.pool (coll.setPool pools pool) = other.pool pools) →
      ∀ g id, Marks other s' g id ↔ Marks other s g id

theorem Renumbered.refl (hchain : Chain coll k In) (hpools : PoolsOk s)
    (h : Allocated coll In s) : Renumbered coll In s s :=
  ⟨h, hpools, rfl, ⟨coll.items s.config, (hchain.put_items s.config).symm⟩,
    fun _ _ _ _ => Iff.rfl⟩

theorem pools_eq_ok {g : String} (h : s.pools (.name g) = .ok (group, pools)) :
    group = g ∧ get s.cgDict g = some pools := by
  rw [XponHandler.pools] at h
  split at h
  · next pools' hget =>
    cases h
    exact ⟨rfl, hget⟩
  · cases h

variable {r : α} {id : ℕ} {q p : IndexPool}

omit [Message α] in
theorem takeId_spec {pool pool' : IndexPool} (h : takeId coll r pool = some (id, pool')) :
    IndexPool.Taken pool id pool' := by
  rw [takeId] at h
  split at h
  · exact IndexPool.getNext_spec h
  · obtain ⟨rfl, htaken⟩ := IndexPool.allocate_spec h
    exact htaken

theorem inRange_of_sameSize (h : SameSize p q) : p.InRange id ↔ q.InRange id := by
  rw [IndexPool.InRange, IndexPool.InRange, h.1, h.2]

/-- A number that was taken and released again. -/
theorem isAllocated_release_taken (h : IndexPool.Taken p id q) (j : ℕ) :
    (q.release id).IsAllocated j ↔ p.IsAllocated j := by
  have hrange : q.InRange id := (inRange_of_sameSize ⟨h.maxEntries, h.offset⟩).mpr h.inRange
  rw [IndexPool.isAllocated_release hrange, h.isAllocated]
  constructor
  · rintro ⟨hj | hj, hne⟩
    · exact hj
    · exact absurd hj hne
  · intro hj
    exact ⟨Or.inl hj, fun heq => h.free (heq ▸ hj)⟩

theorem sameSize_release (h : SameSize p q) (id : ℕ) : SameSize (p.release id) q :=
  ⟨(p.release_range id).1.trans h.1, (p.release_range id).2.trans h.2⟩

section

variable (hchain : Chain coll k In) (hgood : Good s.config) (hpools : PoolsOk s)
  (h : Allocated coll In s)
include hchain hgood hpools h

theorem Renumbered.create (hplain : (coll.interface r).PlainRefs) :
    Renumbered coll In s (createNumbered coll s r).2 := by
  rcases createNumbered_cases coll s r with
    heq | ⟨hvalid, group, pools, id, pool, hget, htake, hresult⟩
  · rw [heq]
    exact Renumbered.refl hchain hpools h
  obtain ⟨g, hg⟩ := hchain.exists_in hgood (valid_of_validateInterface hplain hvalid).refs
  rw [hchain.extract hgood hplain hg] at hget
  obtain ⟨rfl, hget⟩ := pools_eq_ok hget
  have htaken := takeId_spec htake
  have hranged := hpools.ranged group pools hget
  have hsize : SameSize pool (coll.pool .new) :=
    ⟨htaken.maxEntries.trans (hchain.ranged_pool hranged).1,
      htaken.offset.trans (hchain.ranged_pool hranged).2⟩
  have hmarks : ∀ j, Marks coll s group j ↔ (coll.pool pools).IsAllocated j := marks_of_get hget
  rcases hresult with heq | ⟨hnew, heq⟩
  · -- the name is in use, and the id is released again
    have hsame : ∀ g' j, Marks coll (s.setPools group (coll.setPool pools (pool.release id))) g' j ↔
        Marks coll s g' j := by
      intro g' j
      rw [marks_setPool hchain]
      split
      · next hg' => rw [hg', hmarks, isAllocated_release_taken htaken]
      · rfl
    rw [heq]
    refine ⟨h.frame hchain rfl (fun _ _ _ => Iff.rfl) fun g' hg' j => ?_,
      hpools.setPools group (hchain.ranged_setPool hranged (sameSize_release hsize id)), rfl,
      ⟨coll.items s.config, (hchain.put_items s.config).symm⟩,
      fun other hother => marks_setPool_other hother hget _⟩
    rw [hsame]
    exact ⟨fun hm => ⟨hg', hm⟩, fun hm => hm.2⟩
  · rw [heq]
    have hin : ∀ g', In s.config (coll.setId r id) g' ↔ g' = group := by
      intro g'
      rw [hchain.setId]
      exact ⟨fun hg' => hchain.unique hgood hg' hg, fun heq => heq ▸ hg⟩
    refine ⟨?_, ?_, rfl, ⟨_, rfl⟩, fun other hother => marks_setPool_other hother hget _⟩
    · refine h.created (hchain.items_put _ _) (fun x g' => hchain.put)
        (hchain.groups_put _ _) (hchain.mem_groups hg) hin ?_ ?_ fun g' j => ?_
      · rw [hchain.id_setId, hmarks]
        exact htaken.free
      · rw [hchain.id_setId]
        exact (inRange_of_sameSize (hchain.ranged_pool hranged)).mp htaken.inRange
      · rw [hchain.id_setId]
        show Marks coll (s.setPools group (coll.setPool pools pool)) g' j ↔ _
        rw [marks_setPool hchain]
        split
        · next hg' => rw [hg', htaken.isAllocated, hmarks]; tauto
        · next hg' => tauto
    · exact (hpools.setPools group (hchain.ranged_setPool hranged hsize)).put hchain _

theorem Renumbered.update (hkeep : validateInterface s.config (coll.interface r) = none →
      ∀ x ∈ coll.items s.config, Message.name x = Message.name r →
        ∀ g, In s.config x g → In s.config r g) :
    Renumbered coll In s (updateNumbered coll s r).2 := by
  rcases updateNumbered_cases coll s r with heq | ⟨hvalid, hslash, item, hget, hmem, heq⟩
  · rw [heq]
    exact Renumbered.refl hchain hpools h
  obtain ⟨hitem, hname⟩ := KeyedList.find_spec (Root.get_eq_some hslash hget)
  obtain ⟨g, hg⟩ := hchain.exists_in hgood (hchain.refers hgood hitem)
  have hrg := hkeep hvalid item hitem hname g hg
  have hin : ∀ g', In s.config (coll.setId r (coll.id item)) g' ↔ In s.config item g' := by
    intro g'
    rw [hchain.setId]
    constructor
    · exact fun hg' => hchain.unique hgood hrg hg' ▸ hg
    · exact fun hg' => hchain.unique hgood hg hg' ▸ hrg
  have hkey : Message.name (coll.setId r (coll.id item)) = Message.name item :=
    (hchain.idOnly r _).2.trans hname.symm
  have hnodup := hgood.nodup hchain.lawful
  rw [heq]
  refine ⟨?_, hpools.put hchain _, rfl, ⟨_, rfl⟩, fun _ _ _ _ => Iff.rfl⟩
  refine h.updated hitem (fun x => ?_) (fun x g' => hchain.put) (hchain.groups_put _ _) hin
    (hchain.id_setId _ _) (fun _ _ => Iff.rfl)
  rw [show coll.items (s.put coll.toCollection (KeyedList.replace Message.name
      (coll.setId r (coll.id item)) (coll.items s.config))).config = _ from hchain.items_put _ _]
  exact KeyedList.mem_replace_iff hnodup hitem hkey

theorem Renumbered.delete {referenced : FiberConfig → String → Option String} :
    Renumbered coll In s (deleteNumbered coll s r referenced).2 := by
  rcases deleteNumbered_cases coll s r referenced with
    heq | ⟨-, -, item, hget, hslash, hresult⟩
  · rw [heq]
    exact Renumbered.refl hchain hpools h
  obtain ⟨hitem, hname⟩ := KeyedList.find_spec (Root.get_eq_some hslash hget)
  obtain ⟨g, hg⟩ := hchain.exists_in hgood (hchain.refers hgood hitem)
  have hplain : (coll.interface item).PlainRefs := by
    refine hgood.plain k _ ?_
    rw [hchain.lawful.items]
    exact List.mem_map_of_mem hitem
  rw [hchain.extract hgood hplain hg] at hresult
  have hnodup := hgood.nodup hchain.lawful
  rcases hresult with ⟨-, e, herror⟩ | ⟨group, pools, hok, heq⟩
  · -- the group has pools
    obtain ⟨pools, hfound⟩ := hpools.found g (hchain.mem_groups hg)
    rw [XponHandler.pools, hfound] at herror
    exact nomatch herror
  obtain ⟨rfl, hfound⟩ := pools_eq_ok hok
  have hranged := hpools.ranged group pools hfound
  have hsize := hchain.ranged_pool hranged
  have hrange : (coll.pool pools).InRange (coll.id item) :=
    (inRange_of_sameSize hsize).mpr (h.range item hitem)
  rw [heq]
  have hin : ∀ g', In s.config item g' ↔ g' = group :=
    fun g' => ⟨fun hg' => hchain.unique hgood hg' hg, fun heq => heq ▸ hg⟩
  refine ⟨?_, ?_, rfl, ⟨_, rfl⟩, fun other hother => marks_setPool_other hother hfound _⟩
  · refine h.deleted hitem (fun x => ?_) (fun x g' => hchain.put) (hchain.groups_put _ _) hin
      fun g' j => ?_
    · show x ∈ coll.items (coll.put s.config _) ↔ _
      rw [hchain.items_put, ← hname]
      exact KeyedList.mem_erase_iff hnodup hitem
    · show Marks coll (s.setPools group _) g' j ↔ _
      rw [marks_setPool hchain]
      split
      · next hg' =>
        rw [hg', IndexPool.isAllocated_release hrange, marks_of_get hfound]
        simp only [true_and]
      · next hg' => exact ⟨fun hm => ⟨hm, fun heq => hg' heq.1⟩, fun hm => hm.1⟩
  · exact (hpools.put hchain _).setPools group
      (hchain.ranged_setPool hranged (sameSize_release hsize _))

end

end Allocation

end Voltha.Xpon
