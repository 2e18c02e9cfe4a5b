import Voltha.Xpon.Renumbering

/-!
# Ids within channel groups

T-CONTs and GEM ports get their ids from pools of the channel group that their chain of references
ends in.  The group is looked up again when an id is released, and nothing is done about the ids
when an update leads a chain to another group.

* `IdsUnique`: ids are unique within channel groups, and the pools have marked the ids in use.
* `IdsInv`: the invariant; `idsInv_create`, `idsInv_update`, `idsInv_delete` and `idsInv_restart`
  keep it.
* `ids_unique_of_keeps`: `IdsUnique` holds in all states of a run in which no reference has a slash
  and no update changes the channel group of a stored T-CONT or GEM port.
-/

namespace Voltha.Xpon

open List hiding get
open Message (name)
open OrderedDict
open Common (IndexPool)

/-- Ids are unique within channel groups, and the pools of the groups have marked the ids in use. -/
structure IdsUnique (s : XponHandler) : Prop where
  tcont : ∀ x ∈ s.config.tconts, ∀ y ∈ s.config.tconts, ∀ group,
    TcontIn s.config x group → TcontIn s.config y group → x.allocId = y.allocId → x = y
  gemport : ∀ x ∈ s.config.gemports, ∀ y ∈ s.config.gemports, ∀ group,
    GemportIn s.config x group → GemportIn s.config y group → x.gemportId = y.gemportId → x = y
  index : ∀ x ∈ s.config.channelGroups, ∀ y ∈ s.config.channelGroups,
    x.cgIndex = y.cgIndex → x = y
  pools : ∀ x ∈ s.config.channelGroups, ∃ pools, get s.cgDict x.name = some pools ∧
    (∀ id, pools.allocId.IsAllocated id ↔
      ∃ y ∈ s.config.tconts, TcontIn s.config y x.name ∧ y.allocId = id) ∧
    ∀ id, pools.gemportId.IsAllocated id ↔
      ∃ y ∈ s.config.gemports, GemportIn s.config y x.name ∧ y.gemportId = id

/-! ## The invariant -/

/-- The indices of the channel groups differ, and the pool has marked them. -/
structure CgOk (s : XponHandler) : Prop where
  numbered : Numbering (· ∈ s.config.channelGroups) ChannelgroupConfig.cgIndex s.cgPool.IsAllocated
  range : ∀ x ∈ s.config.channelGroups, s.cgPool.InRange x.cgIndex
  size : SameSize s.cgPool (.new (2 ^ 11 - 1) 1)

variable {s s' : XponHandler} {r : ChannelgroupConfig}

theorem CgOk.congr (h : CgOk s) (hgroups : s'.config.channelGroups = s.config.channelGroups)
    (hpool : s'.cgPool = s.cgPool) : CgOk s' := by
  obtain ⟨hnumbered, hrange, hsize⟩ := h
  rw [← hgroups] at hnumbered hrange
  rw [← hpool] at hnumbered hrange hsize
  exact ⟨hnumbered, hrange, hsize⟩

/-- All ids are in order. -/
structure IdsInv (s : XponHandler) : Prop where
  good : Good s.config
  pools : PoolsOk s
  cg : CgOk s
  tconts : Allocated tconts TcontIn s
  gemports : Allocated gemports GemportIn s

theorem IdsInv.idsUnique (h : IdsInv s) : IdsUnique s where
  tcont := fun _ hx _ hy g hxin hyin =>
    (h.tconts.numbered g (tcontIn_chain.mem_groups hxin)).inj ⟨hx, hxin⟩ ⟨hy, hyin⟩
  gemport := fun _ hx _ hy g hxin hyin =>
    (h.gemports.numbered g (gemportIn_chain.mem_groups hxin)).inj ⟨hx, hxin⟩ ⟨hy, hyin⟩
  index := fun _ hx _ hy => h.cg.numbered.inj hx hy
  pools := fun x hx => by
    have hmem : x.name ∈ s.config.channelGroups.map (·.name) := mem_map_of_mem hx
    obtain ⟨pools, hget⟩ := h.pools.found x.name hmem
    refine ⟨pools, hget, fun id => ?_, fun id => ?_⟩
    · exact (marks_of_get hget id).symm.trans (h.tconts.marked hmem id)
    · exact (marks_of_get hget id).symm.trans (h.gemports.marked hmem id)

theorem IdsInv.init (deviceIds : List String) : IdsInv (initial deviceIds) where
  good := Good.init deviceIds
  pools := ⟨nofun, nofun⟩
  cg := ⟨⟨nofun, fun _ => iff_of_false IndexPool.not_isAllocated_new nofun⟩, nofun, ⟨rfl, rfl⟩⟩
  tconts := ⟨nofun, nofun⟩
  gemports := ⟨nofun, nofun⟩

/-! ## Requests for messages without ids -/

/-- The messages with ids, the channel groups and the pools stay. -/
structure Frame (s s' : XponHandler) : Prop where
  tconts : s'.config.tconts = s.config.tconts
  gemports : s'.config.gemports = s.config.gemports
  channelGroups : s'.config.channelGroups = s.config.channelGroups
  cgDict : s'.cgDict = s.cgDict
  cgPool : s'.cgPool = s.cgPool

theorem Frame.marks (h : Frame s s') {α : Type} (coll : Numbered α) (group : String)
    (hgroup : group ∈ s'.config.channelGroups.map (·.name)) (id : ℕ) :
    Marks coll s' group id ↔
      group ∈ s.config.channelGroups.map (·.name) ∧ Marks coll s group id := by
  rw [h.channelGroups] at hgroup
  rw [Marks, Marks, h.cgDict]
  exact ⟨fun hm => ⟨hgroup, hm⟩, fun hm => hm.2⟩

theorem Frame.poolsOk (h : Frame s s') (hpools : PoolsOk s) : PoolsOk s' where
  found g hg := by
    rw [h.cgDict]
    exact hpools.found g (h.channelGroups ▸ hg)
  ranged g pools hget := hpools.ranged g pools (h.cgDict ▸ hget)

section

variable (h : IdsInv s) (hgood : Good s'.config)
include h hgood

theorem IdsInv.frame (hframe : Frame s s')
    (htconts : ∀ x ∈ s.config.tconts, ∀ group, TcontIn s.config x group ↔ TcontIn s'.config x group)
    (hgemports : ∀ x ∈ s.config.gemports, ∀ group,
      GemportIn s.config x group ↔ GemportIn s'.config x group) :
    IdsInv s' where
  good := hgood
  pools := hframe.poolsOk h.pools
  cg := h.cg.congr hframe.channelGroups hframe.cgPool
  tconts := h.tconts.frame tcontIn_chain hframe.tconts htconts (hframe.marks _)
  gemports := h.gemports.frame gemportIn_chain hframe.gemports hgemports (hframe.marks _)

/-- The messages with ids stay, and chains of stored messages stay complete. -/
theorem IdsInv.of_sub (htconts : s'.config.tconts = s.config.tconts)
    (hgemports : s'.config.gemports = s.config.gemports)
    (hsub : Sub s.config s'.config ∨ Sub s'.config s.config) (hpools : PoolsOk s') (hcg : CgOk s')
    (hmarks : ∀ {α : Type} (coll : Numbered α), (∀ id, ¬ (coll.pool .new).IsAllocated id) →
      ∀ group ∈ s'.config.channelGroups.map (·.name), ∀ id, Marks coll s' group id ↔
        group ∈ s.config.channelGroups.map (·.name) ∧ Marks coll s group id) :
    IdsInv s' := by
  refine ⟨hgood, hpools, hcg, h.tconts.frame tcontIn_chain htconts (fun x hx => ?_)
    (hmarks _ tcontIn_chain.pool_new), h.gemports.frame gemportIn_chain hgemports (fun x hx => ?_)
    (hmarks _ gemportIn_chain.pool_new)⟩
  · refine tcontIn_chain.agree h.good hgood hsub (tcontIn_chain.refers h.good hx) ?_
    exact tcontIn_chain.refers hgood (show x ∈ s'.config.tconts from htconts ▸ hx)
  · refine gemportIn_chain.agree h.good hgood hsub (gemportIn_chain.refers h.good hx) ?_
    exact gemportIn_chain.refers hgood (show x ∈ s'.config.gemports from hgemports ▸ hx)

/-- Chains of stored messages stay complete while messages are only added or only taken away. -/
theorem IdsInv.frame_of_sub (hframe : Frame s s')
    (hsub : Sub s.config s'.config ∨ Sub s'.config s.config) : IdsInv s' :=
  h.of_sub hgood hframe.tconts hframe.gemports hsub (hframe.poolsOk h.pools)
    (h.cg.congr hframe.channelGroups hframe.cgPool) fun coll _ => hframe.marks coll

end

variable {c : FiberConfig} {x : Interface}

/-- Messages that stay stored leave the chains complete. -/
theorem Sub.of_messages {c' : FiberConfig} (h : ∀ k, messages c k ⊆ messages c' k) : Sub c c' := by
  have hmem : ∀ {α : Type} {f : α → Interface} (_ : Function.Injective f) {l l' : List α},
      l.map f ⊆ l'.map f → l ⊆ l' := by
    intro α f hf l l' hsub x hx
    obtain ⟨y, hy, heq⟩ := mem_map.mp (hsub (mem_map_of_mem hx))
    exact hf heq ▸ hy
  refine ⟨hmem (fun _ _ heq => Interface.vEnet.inj heq) (h .vEnet),
    hmem (fun _ _ heq => Interface.vOntAni.inj heq) (h .vOntAni),
    hmem (fun _ _ heq => Interface.channelPartition.inj heq) (h .channelPartition), ?_⟩
  have hgroups := hmem (fun _ _ heq => Interface.channelGroup.inj heq) (h .channelGroup)
  exact map_subset _ hgroups

/-- A collection of messages that are neither channel groups nor messages with ids. -/
structure Plain {α : Type} [Message α] (coll : Collection α) (k : Kind) : Prop where
  lawful : Lawful coll k
  frame : ∀ (s : XponHandler) (l : List α), Frame s (s.put coll l)

section PlainBodies

variable {α : Type} [Message α] {coll : Collection α} {k : Kind} {s : XponHandler} {r : α}

theorem IdsInv.create (h : IdsInv s) (hplain : Plain coll k)
    (hgood : Good (Xpon.create coll s r).2.config) : IdsInv (Xpon.create coll s r).2 := by
  rcases create_cases coll s r with heq | ⟨-, -, heq⟩
  · rw [heq]
    exact h
  · rw [heq] at hgood ⊢
    refine h.frame_of_sub hgood (hplain.frame s _) (.inl (Sub.of_messages fun k' o ho => ?_))
    show o ∈ messages (coll.put s.config _) k'
    rw [hplain.lawful.put]
    split
    · next hk =>
      rw [hk, hplain.lawful.items] at ho
      rw [map_append]
      exact mem_append_left _ ho
    · exact ho

open KeyedList

theorem IdsInv.delete (h : IdsInv s) (hplain : Plain coll k)
    {referenced : FiberConfig → String → Option String}
    (hgood : Good (Xpon.delete coll s r referenced).2.config) :
    IdsInv (Xpon.delete coll s r referenced).2 := by
  rcases delete_cases coll s r referenced with heq | ⟨-, -, heq⟩
  · rw [heq]
    exact h
  · rw [heq] at hgood ⊢
    refine h.frame_of_sub hgood (hplain.frame s _) (.inr (Sub.of_messages fun k' o ho => ?_))
    change o ∈ messages (coll.put s.config _) k' at ho
    rw [hplain.lawful.put] at ho
    split at ho
    · next hk =>
      rw [hk, hplain.lawful.items]
      exact map_subset _ (erase_sublist _ _).subset ho
    · exact ho

/-- The stored T-CONTs and GEM ports of `c` belong in `c'` to the channel groups of `c`. -/
def KeepsGroups (c c' : FiberConfig) : Prop :=
  (∀ x ∈ c.tconts, ∀ x' ∈ c'.tconts, x'.name = x.name →
    ∀ group ∈ c.channelGroups.map (·.name), TcontIn c x group → TcontIn c' x' group) ∧
  ∀ x ∈ c.gemports, ∀ x' ∈ c'.gemports, x'.name = x.name →
    ∀ group ∈ c.channelGroups.map (·.name), GemportIn c x group → GemportIn c' x' group

instance (c c' : FiberConfig) : Decidable (KeepsGroups c c') :=
  inferInstanceAs (Decidable (_ ∧ _))

/-- Groups that are kept are the only ones. -/
theorem Chain.agree_of_keeps {β : Type} [Message β] {coll : Numbered β}
    {In : FiberConfig → β → String → Prop} (h : Chain coll k In) {c' : FiberConfig} (hc : Good c)
    (hc' : Good c') {x : β} (hx : x ∈ coll.items c)
    (hkeep : ∀ group ∈ c.channelGroups.map (·.name), In c x group → In c' x group)
    (group : String) :
    In c x group ↔ In c' x group := by
  refine ⟨fun hin => hkeep group (h.mem_groups hin) hin, fun hin => ?_⟩
  obtain ⟨g, hg⟩ := h.exists_in hc (h.refers hc hx)
  exact h.unique hc' (hkeep g (h.mem_groups hg) hg) hin ▸ hg

theorem IdsInv.update (h : IdsInv s) (hplain : Plain coll k)
    (hkeep : validateInterface s.config (coll.interface r) = none → KeepsGroups s.config
      (coll.put s.config (replace name r (coll.items s.config))))
    (hgood : Good (Xpon.update coll s r).2.config) : IdsInv (Xpon.update coll s r).2 := by
  rcases update_cases coll s r with heq | ⟨hvalid, -, heq⟩
  · rw [heq]
    exact h
  · rw [heq] at hgood ⊢
    obtain ⟨htconts, hgemports⟩ := hkeep hvalid
    have hframe := hplain.frame s (replace name r (coll.items s.config))
    refine h.frame hgood hframe (fun x hx => ?_) fun x hx => ?_
    · refine tcontIn_chain.agree_of_keeps h.good hgood hx (htconts x hx x ?_ rfl)
      exact (show x ∈ (s.put coll _).config.tconts from hframe.tconts ▸ hx)
    · refine gemportIn_chain.agree_of_keeps h.good hgood hx (hgemports x hx x ?_ rfl)
      exact (show x ∈ (s.put coll _).config.gemports from hframe.gemports ▸ hx)

end PlainBodies

/-! ## Requests for channel groups -/

theorem CgOk.created (h : CgOk s) {id : ℕ} {pool : IndexPool}
    (htaken : IndexPool.Taken s.cgPool id pool) (r : ChannelgroupConfig) (cgDict) :
    CgOk ⟨channelGroups.put s.config (s.config.channelGroups ++ [{ r with cgIndex := id }]), pool,
      cgDict⟩ := by
  refine ⟨h.numbered.add (y := { r with cgIndex := id }) (Q := True) (fun x => ?_)
    (fun _ => htaken.free) fun j => ?_, fun x hx => ?_, ?_⟩
  · rw [and_true]
    exact mem_append.trans (or_congr_right mem_singleton)
  · rw [and_true]
    exact htaken.isAllocated j
  · refine (inRange_of_sameSize ⟨htaken.maxEntries, htaken.offset⟩).mpr ?_
    rcases mem_append.mp hx with hx | hx
    · exact h.range x hx
    · rw [mem_singleton.mp hx]
      exact htaken.inRange
  · exact ⟨htaken.maxEntries.trans h.size.1, htaken.offset.trans h.size.2⟩

theorem IdsInv.createChannelGroup (h : IdsInv s)
    (hgood : Good (Xpon.createChannelGroup s r).2.config) :
    IdsInv (Xpon.createChannelGroup s r).2 := by
  rcases createChannelGroup_cases s r with heq | ⟨-, id, pool, hnext, heq | ⟨hnew, heq⟩⟩
  · rw [heq]
    exact h
  · have htaken := IndexPool.getNext_spec hnext
    have hsize := sameSize_release ⟨htaken.maxEntries, htaken.offset⟩ id
    rw [heq]
    refine h.of_sub h.good rfl rfl (.inl ⟨fun _ h => h, fun _ h => h, fun _ h => h, fun _ h => h⟩)
      ⟨h.pools.found, h.pools.ranged⟩ ⟨h.cg.numbered.congr (fun _ => Iff.rfl)
        (isAllocated_release_taken htaken), fun x hx => ?_, ?_⟩
      fun coll _ g hg j => ⟨fun hm => ⟨hg, hm⟩, fun hm => hm.2⟩
    · exact (inRange_of_sameSize hsize).mpr (h.cg.range x hx)
    · exact ⟨hsize.1.trans h.cg.size.1, hsize.2.trans h.cg.size.2⟩
  · have htaken := IndexPool.getNext_spec hnext
    rw [heq] at hgood ⊢
    have hnames : ∀ g, g ∈ (s.config.channelGroups ++ [{ r with cgIndex := id }]).map
        ChannelgroupConfig.name ↔ g ∈ s.config.channelGroups.map (·.name) ∨ g = r.name := by
      intro g
      rw [map_append, mem_append, map_singleton, mem_singleton]
    refine h.of_sub hgood rfl rfl (.inl ⟨fun _ h => h, fun _ h => h, fun _ h => h,
      fun g hg => (hnames g).mpr (.inl hg)⟩) ⟨fun g hg => ?_, fun g pools hget => ?_⟩
      (h.cg.created htaken r _) fun coll hcoll g hg j => ?_
    · rw [get_setPools]
      split
      · exact ⟨_, rfl⟩
      · next hne => exact h.pools.found g (((hnames g).mp hg).resolve_right hne)
    · rw [get_setPools] at hget
      split at hget
      · cases hget
        exact ⟨⟨rfl, rfl⟩, rfl, rfl⟩
      · exact h.pools.ranged g pools hget
    · rw [Marks, get_setPools]
      split
      · next hgr =>
        constructor
        · rintro ⟨pools, hpools, hmark⟩
          cases hpools
          exact absurd hmark (hcoll j)
        · rintro ⟨hmem, -⟩
          exact absurd (hgr ▸ hmem) hnew
      · next hne => exact ⟨fun hm => ⟨((hnames g).mp hg).resolve_right hne, hm⟩, fun hm => hm.2⟩

theorem IdsInv.updateChannelGroup (h : IdsInv s)
    (hgood : Good (Xpon.updateChannelGroup s r).2.config) :
    IdsInv (Xpon.updateChannelGroup s r).2 := by
  rcases updateChannelGroup_cases s r with heq | ⟨-, item, hfind, heq⟩
  · rw [heq]
    exact h
  · rw [heq] at hgood ⊢
    obtain ⟨hitem, hname⟩ := KeyedList.find_spec hfind
    have hnodup := h.good.nodup channelGroups_lawful
    have hnames : (KeyedList.replace name { r with cgIndex := item.cgIndex }
        s.config.channelGroups).map (·.name) = s.config.channelGroups.map (·.name) :=
      KeyedList.map_key_replace _ _
    have hmem : ∀ x, x ∈ KeyedList.replace name { r with cgIndex := item.cgIndex }
        s.config.channelGroups ↔ x ∈ s.config.channelGroups ∧ x ≠ item ∨
          x = { r with cgIndex := item.cgIndex } := fun x =>
      KeyedList.mem_replace_iff hnodup hitem hname.symm
    refine h.of_sub hgood rfl rfl (.inl ⟨fun _ h => h, fun _ h => h, fun _ h => h, ?_⟩)
      ⟨fun g hg => ?_, h.pools.ranged⟩ ⟨h.cg.numbered.replace (y := item)
        (z := { r with cgIndex := item.cgIndex }) (fun x => ?_) rfl fun _ => Iff.rfl,
        fun x hx => ?_, h.cg.size⟩ fun coll _ g hg j => ?_
    · intro g hg
      exact hnames ▸ hg
    · exact h.pools.found g (hnames ▸ hg)
    · rw [and_iff_left hitem]
      exact hmem x
    · rcases (hmem x).mp hx with ⟨hx, -⟩ | rfl
      · exact h.cg.range x hx
      · exact h.cg.range item hitem
    · exact ⟨fun hm => ⟨hnames ▸ hg, hm⟩, fun hm => hm.2⟩

theorem IdsInv.deleteChannelGroup (h : IdsInv s)
    (hgood : Good (Xpon.deleteChannelGroup s r).2.config) :
    IdsInv (Xpon.deleteChannelGroup s r).2 := by
  rcases deleteChannelGroup_cases s r with heq | ⟨-, -, item, hfind, heq⟩
  · rw [heq]
    exact h
  · rw [heq] at hgood ⊢
    obtain ⟨hitem, hname⟩ := KeyedList.find_spec hfind
    have hnodup := h.good.nodup channelGroups_lawful
    have hmem : ∀ x, x ∈ KeyedList.erase name r.name s.config.channelGroups ↔
        x ∈ s.config.channelGroups ∧ x ≠ item := fun x =>
      hname ▸ KeyedList.mem_erase_iff hnodup hitem
    have hnames : ∀ g, g ∈ (KeyedList.erase name r.name s.config.channelGroups).map
        (·.name) → g ∈ s.config.channelGroups.map (·.name) := fun g hg =>
      map_subset _ (KeyedList.erase_sublist r.name _).subset hg
    have hrange := h.cg.range item hitem
    have hsize := sameSize_release h.cg.size item.cgIndex
    refine h.of_sub hgood rfl rfl (.inr ⟨fun _ h => h, fun _ h => h, fun _ h => h, hnames⟩)
      ⟨fun g hg => h.pools.found g (hnames g hg), h.pools.ranged⟩
      ⟨h.cg.numbered.remove hmem fun j => ?_, fun x hx => ?_, hsize⟩ fun coll _ g hg j => ?_
    · rw [and_iff_left hitem]
      exact IndexPool.isAllocated_release hrange j
    · exact (inRange_of_sameSize (sameSize_release ⟨rfl, rfl⟩ _)).mpr
        (h.cg.range x ((hmem x).mp hx).1)
    · exact ⟨fun hm => ⟨hnames g hg, hm⟩, fun hm => hm.2⟩

/-! ## Restarts -/

section Restart

variable {α : Type} [Message α] {coll : Numbered α} {k : Kind}
  {In : FiberConfig → α → String → Prop}

/-- What marking ids of stored messages does. -/
structure Marked (coll : Numbered α) (In : FiberConfig → α → String → Prop) (l : List α)
    (s s' : XponHandler) : Prop where
  config : s'.config = s.config
  cgPool : s'.cgPool = s.cgPool
  pools : PoolsOk s'
  marks : ∀ g id, Marks coll s' g id ↔
    Marks coll s g id ∨ ∃ x ∈ l, In s.config x g ∧ coll.id x = id
  others : ∀ {β : Type} (other : Numbered β),
    (∀ pools pool, other.pool (coll.setPool pools pool) = other.pool pools) →
      ∀ g id, Marks other s' g id ↔ Marks other s g id

theorem markId_spec (hchain : Chain coll k In) (hgood : Good s.config) (hpools : PoolsOk s) {x : α}
    (hx : x ∈ coll.items s.config) (hrange : (coll.pool .new).InRange (coll.id x)) :
    ∃ s', markId coll x s = (.ok (), s') ∧ Marked coll In [x] s s' := by
  obtain ⟨group, hgroup⟩ := hchain.exists_in hgood (hchain.refers hgood hx)
  have hplain : (coll.interface x).PlainRefs := by
    refine hgood.plain k _ ?_
    rw [hchain.lawful.items]
    exact mem_map_of_mem hx
  obtain ⟨pools, hfound⟩ := hpools.found group (hchain.mem_groups hgroup)
  have hranged := hpools.ranged group pools hfound
  have hsize := hchain.ranged_pool hranged
  have hin : ∀ i ∈ [coll.id x], (coll.pool pools).InRange i := fun i hi =>
    (inRange_of_sameSize hsize).mpr (mem_singleton.mp hi ▸ hrange)
  obtain ⟨pool, hpre, hall, hmax, hoff⟩ := IndexPool.preAllocate_spec hin
  refine ⟨s.setPools group (coll.setPool pools pool), ?_, rfl, rfl,
    hpools.setPools group (hchain.ranged_setPool hranged
      ⟨hmax.trans hsize.1, hoff.trans hsize.2⟩), fun g id => ?_,
    fun other hother => marks_setPool_other hother hfound _⟩
  · rw [markId, hchain.extract hgood hplain hgroup, XponHandler.pools, hfound]
    dsimp only
    rw [hpre]
  · rw [marks_setPool hchain]
    split
    · next hg =>
      rw [hall, mem_singleton, hg, marks_of_get hfound]
      constructor
      · rintro (hm | rfl)
        · exact .inl hm
        · exact .inr ⟨x, mem_singleton_self x, hgroup, rfl⟩
      · rintro (hm | ⟨y, hy, -, hid⟩)
        · exact .inl hm
        · exact .inr (mem_singleton.mp hy ▸ hid.symm)
    · next hg =>
      constructor
      · exact .inl
      · rintro (hm | ⟨y, hy, hyin, -⟩)
        · exact hm
        · rw [mem_singleton.mp hy] at hyin
          exact absurd (hchain.unique hgood hyin hgroup) hg

theorem markIds_spec (hchain : Chain coll k In) {l : List α} :
    ∀ {s : XponHandler}, Good s.config → PoolsOk s → (∀ x ∈ l, x ∈ coll.items s.config) →
      (∀ x ∈ l, (coll.pool .new).InRange (coll.id x)) →
      ∃ s', markIds coll l s = (.ok (), s') ∧ Marked coll In l s s' := by
  induction l with
  | nil =>
    intro s _ hpools _ _
    exact ⟨s, rfl, rfl, rfl, hpools, fun g id => by simp, fun _ _ _ _ => Iff.rfl⟩
  | cons x l ih =>
    intro s hgood hpools hitems hranges
    obtain ⟨s₁, hrun₁, h₁⟩ := markId_spec hchain hgood hpools
      (hitems x mem_cons_self) (hranges x mem_cons_self)
    obtain ⟨s₂, hrun₂, h₂⟩ := ih (s := s₁) (h₁.config ▸ hgood) h₁.pools
      (fun y hy => h₁.config ▸ hitems y (mem_cons_of_mem _ hy))
      (fun y hy => hranges y (mem_cons_of_mem _ hy))
    refine ⟨s₂, ?_, h₂.config.trans h₁.config, h₂.cgPool.trans h₁.cgPool, h₂.pools,
      fun g id => ?_, fun other hother g id => ?_⟩
    · rw [markIds, Act.bind_of_ok hrun₁, hrun₂]
    · rw [h₂.marks, h₁.marks, h₁.config]
      simp only [mem_cons, not_mem_nil, or_false, exists_eq_or_imp, exists_eq_left,
        or_assoc]
    · exact (h₂.others other hother g id).trans (h₁.others other hother g id)

end Restart

/-- New pools for the channel groups. -/
theorem get_newPools (l : List ChannelgroupConfig) (g : String) :
    ∀ s : XponHandler, get (s.newPools l).cgDict g =
      if g ∈ l.map (·.name) then some .new else get s.cgDict g := by
  induction l with
  | nil => exact fun s => (if_neg not_mem_nil).symm
  | cons cg l ih =>
    intro s
    have hcons : g ∈ (cg :: l).map (·.name) ↔ g = cg.name ∨ g ∈ l.map (·.name) := by
      rw [map_cons, mem_cons]
    have hstep := ih (s.setPools cg.name .new)
    rw [get_setPools] at hstep
    refine hstep.trans ?_
    by_cases hl : g ∈ l.map (·.name)
    · rw [if_pos hl, if_pos (hcons.mpr (.inr hl))]
    · rw [if_neg hl]
      by_cases hg : g = cg.name
      · rw [if_pos hg, if_pos (hcons.mpr (.inl hg))]
      · rw [if_neg hg, if_neg (hcons.not.mpr (not_or.mpr ⟨hg, hl⟩))]

theorem newPools_cgPool (l : List ChannelgroupConfig) :
    ∀ s : XponHandler, (s.newPools l).cgPool = s.cgPool := by
  induction l with
  | nil => exact fun _ => rfl
  | cons cg l ih => exact fun s => ih _

/-- A new handler marks the indices of the stored channel groups and gives them new pools. -/
theorem reinitializeCgIds_spec
    (hdistinct : ∀ x ∈ c.channelGroups, ∀ y ∈ c.channelGroups, x.cgIndex = y.cgIndex → x = y)
    (hrange : ∀ x ∈ c.channelGroups, (IndexPool.new (2 ^ 11 - 1) 1).InRange x.cgIndex) :
    ∃ s, reinitializeCgIds (.new c) = (.ok (), s) ∧ s.config = c ∧ PoolsOk s ∧ CgOk s ∧
      ∀ {α : Type} (coll : Numbered α), (∀ id, ¬ (coll.pool .new).IsAllocated id) →
        ∀ g id, ¬ Marks coll s g id := by
  have hin : ∀ i ∈ c.channelGroups.map (·.cgIndex), (IndexPool.new (2 ^ 11 - 1) 1).InRange i := by
    intro i hi
    obtain ⟨x, hx, rfl⟩ := mem_map.mp hi
    exact hrange x hx
  obtain ⟨pool, hpre, hall, hmax, hoff⟩ := IndexPool.preAllocate_spec hin
  have hget : ∀ g, get ((XponHandler.new c).newPools c.channelGroups).cgDict g =
      if g ∈ c.channelGroups.map (·.name) then some .new else none := fun g =>
    get_newPools c.channelGroups g _
  have hconfig := newPools_config c.channelGroups (.new c)
  have hpool := newPools_cgPool c.channelGroups (.new c)
  have hrun : reinitializeCgIds (.new c) =
      (.ok (), { (XponHandler.new c).newPools c.channelGroups with cgPool := pool }) := by
    rw [reinitializeCgIds, show (XponHandler.new c).config = c from rfl]
    dsimp only
    rw [hpool, show (XponHandler.new c).cgPool = .new (2 ^ 11 - 1) 1 from rfl, hpre]
  generalize (XponHandler.new c).newPools c.channelGroups = s' at hget hconfig hrun
  have hnew : ∀ g pools, get s'.cgDict g = some pools → pools = .new := by
    intro g pools hg
    rw [hget] at hg
    split at hg
    · exact (Option.some_inj.mp hg).symm
    · cases hg
  refine ⟨⟨c, pool, s'.cgDict⟩, ?_, rfl, ⟨fun g hg => ⟨.new, (hget g).trans (if_pos hg)⟩,
    fun g pools hg => ?_⟩, ⟨⟨fun hx hy => hdistinct _ hx _ hy, fun j => ?_⟩, fun x hx => ?_, hmax,
      hoff⟩,
    fun coll hcoll g id => ?_⟩
  · rw [hrun]
    dsimp only
    rw [hconfig]
    rfl
  · rw [hnew g pools hg]
    exact ⟨⟨rfl, rfl⟩, rfl, rfl⟩
  · rw [hall, or_iff_right IndexPool.not_isAllocated_new, mem_map]
  · exact (inRange_of_sameSize ⟨hmax, hoff⟩).mpr (hrange x hx)
  · rintro ⟨pools, hg, hmark⟩
    rw [hnew g pools hg] at hmark
    exact hcoll id hmark

/-- **A new handler finds the ids of the stored messages.** -/
theorem idsInv_restart (h : IdsInv s) : IdsInv (step s .restart) := by
  obtain ⟨s₁, hrun₁, hconfig₁, hpools₁, hcg₁, hmarks₁⟩ := reinitializeCgIds_spec
    (fun _ hx _ hy => h.cg.numbered.inj hx hy)
    fun x hx => (inRange_of_sameSize h.cg.size).mp (h.cg.range x hx)
  obtain ⟨s₂, hrun₂, h₂⟩ := markIds_spec tcontIn_chain (l := s₁.config.tconts)
    (hconfig₁ ▸ h.good) hpools₁ (fun x hx => hx) (hconfig₁ ▸ h.tconts.range)
  have hconfig₂ := h₂.config.trans hconfig₁
  obtain ⟨s₃, hrun₃, h₃⟩ := markIds_spec gemportIn_chain (l := s₁.config.gemports)
    (hconfig₂ ▸ h.good) h₂.pools (fun x hx => h₂.config ▸ hx) (hconfig₁ ▸ h.gemports.range)
  have hconfig₃ := h₃.config.trans hconfig₂
  have hstart : start (.new s.config) = (.ok (), s₃) := by
    have hread : reinitializeTcontAndGemportIds s₁ =
        (markIds tconts s₁.config.tconts >>= fun _ => markIds gemports s₁.config.gemports) s₁ := rfl
    rw [start, Act.bind_of_ok hrun₁, hread, Act.bind_of_ok hrun₂, hrun₃]
  have hstep : step s .restart = s₃ := by
    rw [step, handle, hstart]
  -- new pools have no marks, and marking the GEM ports does not touch the alloc ids
  have htconts : ∀ g id, Marks tconts s₃ g id ↔
      ∃ x ∈ s₁.config.tconts, TcontIn s₁.config x g ∧ tconts.id x = id := fun g id => by
    rw [h₃.others tconts (fun _ _ => rfl), h₂.marks]
    exact or_iff_right (hmarks₁ tconts tcontIn_chain.pool_new g id)
  have hgemports : ∀ g id, Marks gemports s₃ g id ↔
      ∃ x ∈ s₁.config.gemports, GemportIn s₁.config x g ∧ gemports.id x = id := fun g id => by
    rw [h₃.marks, h₂.others gemports (fun _ _ => rfl), h₂.config]
    exact or_iff_right (hmarks₁ gemports gemportIn_chain.pool_new g id)
  rw [hconfig₁] at htconts hgemports
  have hcg₃ : CgOk s₃ :=
    hcg₁.congr (by rw [hconfig₃, hconfig₁]) (h₃.cgPool.trans h₂.cgPool)
  rw [hstep]
  refine ⟨hconfig₃ ▸ h.good, h₃.pools, hcg₃, ⟨?_, ?_⟩, ⟨?_, ?_⟩⟩ <;> rw [hconfig₃]
  · exact fun g hg => (h.tconts.numbered g hg).congr (fun _ => Iff.rfl) fun id =>
      (htconts g id).trans (h.tconts.marked hg id).symm
  · exact h.tconts.range
  · exact fun g hg => (h.gemports.numbered g hg).congr (fun _ => Iff.rfl) fun id =>
      (hgemports g id).trans (h.gemports.marked hg id).symm
  · exact h.gemports.range

/-! ## Runs -/

/-- The configuration with a message in the place of the one of its collection that has its name. -/
def replaceIn {α : Type} [Message α] (coll : Collection α) (c : FiberConfig) (r : α) :
    FiberConfig := coll.put c (KeyedList.replace name r (coll.items c))

/-- The configuration with a message in the place of the one that has its name. -/
def replaceMessage (c : FiberConfig) : Interface → FiberConfig
  | .channelGroup r => replaceIn channelGroups c r
  | .channelPartition r => replaceIn channelPartitions c r
  | .channelPair r => replaceIn channelPairs c r
  -- no chain goes through a channel termination
  | .channelTermination _ => c
  | .ontAni r => replaceIn ontAnis c r
  | .vOntAni r => replaceIn vOntAnis c r
  | .vEnet r => replaceIn vEnets c r
  | .trafficDescriptorProfile r => replaceIn trafficDescriptorProfiles c r
  | .tcont r => replaceIn tconts.toCollection c r
  | .gemport r => replaceIn gemports.toCollection c r

/-- The references of a request are without slashes, and a valid update does not change the channel
group of a stored T-CONT or GEM port. -/
def Keeps (s : XponHandler) : Request → Prop
  | .create x => x.PlainRefs
  | .update x => x.PlainRefs ∧
    (validateInterface s.config x = none → KeepsGroups s.config (replaceMessage s.config x))
  | .delete _ => True
  | .restart => True

instance (s : XponHandler) : DecidablePred (Keeps s)
  | .create x => inferInstanceAs (Decidable x.PlainRefs)
  | .update _ => inferInstanceAs (Decidable (_ ∧ _))
  | .delete _ => isTrue trivial
  | .restart => isTrue trivial

theorem Keeps.plainRefs {request : Request} (h : Keeps s request) : request.PlainRefs := by
  cases request with
  | create x => exact h
  | update x => exact h.1
  | delete x => exact trivial
  | restart => exact trivial

theorem channelPartitions_plain : Plain channelPartitions .channelPartition :=
  ⟨channelPartitions_lawful, fun _ _ => ⟨rfl, rfl, rfl, rfl, rfl⟩⟩

theorem channelPairs_plain : Plain channelPairs .channelPair :=
  ⟨channelPairs_lawful, fun _ _ => ⟨rfl, rfl, rfl, rfl, rfl⟩⟩

theorem ontAnis_plain : Plain ontAnis .ontAni :=
  ⟨ontAnis_lawful, fun _ _ => ⟨rfl, rfl, rfl, rfl, rfl⟩⟩

theorem vOntAnis_plain : Plain vOntAnis .vOntAni :=
  ⟨vOntAnis_lawful, fun _ _ => ⟨rfl, rfl, rfl, rfl, rfl⟩⟩

theorem vEnets_plain : Plain vEnets .vEnet :=
  ⟨vEnets_lawful, fun _ _ => ⟨rfl, rfl, rfl, rfl, rfl⟩⟩

theorem trafficDescriptorProfiles_plain :
    Plain trafficDescriptorProfiles .trafficDescriptorProfile :=
  ⟨trafficDescriptorProfiles_lawful, fun _ _ => ⟨rfl, rfl, rfl, rfl, rfl⟩⟩

section

variable (h : IdsInv s)
include h

/-- Requests for T-CONTs keep the ids of GEM ports in order. -/
theorem idsInv_of_tconts (hgood : Good s'.config) (hre : Renumbered tconts TcontIn s s') :
    IdsInv s' := by
  obtain ⟨l, hconfig⟩ := hre.config
  have hgroups : s'.config.channelGroups = s.config.channelGroups := by rw [hconfig]; rfl
  refine ⟨hgood, hre.pools, h.cg.congr hgroups hre.cgPool, hre.allocated, ?_⟩
  refine h.gemports.frame gemportIn_chain (by rw [hconfig]; rfl)
    (fun x _ g => by rw [hconfig]; rfl) fun g hg id => ?_
  rw [hre.others gemports fun _ _ => rfl, ← hgroups]
  exact ⟨fun hm => ⟨hg, hm⟩, fun hm => hm.2⟩

/-- Requests for GEM ports keep the ids of T-CONTs in order. -/
theorem idsInv_of_gemports (hgood : Good s'.config) (hre : Renumbered gemports GemportIn s s') :
    IdsInv s' := by
  obtain ⟨l, hconfig⟩ := hre.config
  have hgroups : s'.config.channelGroups = s.config.channelGroups := by rw [hconfig]; rfl
  refine ⟨hgood, hre.pools, h.cg.congr hgroups hre.cgPool, ?_, hre.allocated⟩
  refine h.tconts.frame tcontIn_chain (by rw [hconfig]; rfl) (fun x _ g => by rw [hconfig]; rfl)
    fun g hg id => ?_
  rw [hre.others tconts fun _ _ => rfl, ← hgroups]
  exact ⟨fun hm => ⟨hg, hm⟩, fun hm => hm.2⟩

/-- Channel terminations are in no chain. -/
theorem idsInv_putTerminations {device : Device} {l : List ChannelterminationConfig}
    (hgood : Good (s.putTerminations device l).config) : IdsInv (s.putTerminations device l) :=
  h.frame_of_sub hgood ⟨rfl, rfl, rfl, rfl, rfl⟩
    (.inl ⟨fun _ h => h, fun _ h => h, fun _ h => h, fun _ h => h⟩)

theorem idsInv_create (hplain : x.PlainRefs) (hgood : Good (step s (.create x)).config) :
    IdsInv (step s (.create x)) := by
  cases x with
  | channelGroup r => exact h.createChannelGroup hgood
  | channelPartition r => exact h.create channelPartitions_plain hgood
  | channelPair r => exact h.create channelPairs_plain hgood
  | channelTermination r =>
    rcases createChannelTermination_cases s r with heq | ⟨-, device, -, heq⟩
    · rw [step, handle, heq]
      exact h
    · rw [step, handle, heq] at hgood ⊢
      exact idsInv_putTerminations h hgood
  | ontAni r => exact h.create ontAnis_plain hgood
  | vOntAni r => exact h.create vOntAnis_plain hgood
  | vEnet r => exact h.create vEnets_plain hgood
  | trafficDescriptorProfile r => exact h.create trafficDescriptorProfiles_plain hgood
  | tcont r =>
    exact idsInv_of_tconts h hgood (Renumbered.create tcontIn_chain h.good h.pools h.tconts hplain)
  | gemport r =>
    exact idsInv_of_gemports h hgood
      (Renumbered.create gemportIn_chain h.good h.pools h.gemports hplain)

theorem idsInv_update
    (hkeep : validateInterface s.config x = none → KeepsGroups s.config (replaceMessage s.config x))
    (hgood : Good (step s (.update x)).config) : IdsInv (step s (.update x)) := by
  cases x with
  | channelGroup r => exact h.updateChannelGroup hgood
  | channelPartition r => exact h.update channelPartitions_plain hkeep hgood
  | channelPair r => exact h.update channelPairs_plain hkeep hgood
  | channelTermination r =>
    rcases updateChannelTermination_cases s r with heq | ⟨-, device, -, heq⟩
    · rw [step, handle, heq]
      exact h
    · rw [step, handle, heq] at hgood ⊢
      exact idsInv_putTerminations h hgood
  | ontAni r => exact h.update ontAnis_plain hkeep hgood
  | vOntAni r => exact h.update vOntAnis_plain hkeep hgood
  | vEnet r => exact h.update vEnets_plain hkeep hgood
  | trafficDescriptorProfile r => exact h.update trafficDescriptorProfiles_plain hkeep hgood
  | tcont r =>
    refine idsInv_of_tconts h hgood (Renumbered.update tcontIn_chain h.good h.pools h.tconts ?_)
    intro hvalid x hx hname g hg
    have hmem : name r ∈ s.config.tconts.map name :=
      hname ▸ mem_map_of_mem hx
    exact (hkeep hvalid).1 x hx r (KeyedList.mem_replace_self hmem) hname.symm g
      (tcontIn_chain.mem_groups hg) hg
  | gemport r =>
    refine idsInv_of_gemports h hgood
      (Renumbered.update gemportIn_chain h.good h.pools h.gemports ?_)
    intro hvalid x hx hname g hg
    have hmem : name r ∈ s.config.gemports.map name :=
      hname ▸ mem_map_of_mem hx
    exact (hkeep hvalid).2 x hx r (KeyedList.mem_replace_self hmem) hname.symm g
      (gemportIn_chain.mem_groups hg) hg

theorem idsInv_delete (hgood : Good (step s (.delete x)).config) : IdsInv (step s (.delete x)) := by
  cases x with
  | channelGroup r => exact h.deleteChannelGroup hgood
  | channelPartition r => exact h.delete channelPartitions_plain hgood
  | channelPair r => exact h.delete channelPairs_plain hgood
  | channelTermination r =>
    rcases deleteChannelTermination_cases s r with heq | ⟨device, -, heq⟩
    · rw [step, handle, heq]
      exact h
    · rw [step, handle, heq] at hgood ⊢
      exact idsInv_putTerminations h hgood
  | ontAni r => exact h.delete ontAnis_plain hgood
  | vOntAni r => exact h.delete vOntAnis_plain hgood
  | vEnet r => exact h.delete vEnets_plain hgood
  | trafficDescriptorProfile r => exact h.delete trafficDescriptorProfiles_plain hgood
  | tcont r =>
    exact idsInv_of_tconts h hgood (Renumbered.delete tcontIn_chain h.good h.pools h.tconts)
  | gemport r =>
    exact idsInv_of_gemports h hgood
      (Renumbered.delete gemportIn_chain h.good h.pools h.gemports)

theorem idsInv_step {request : Request} (hkeeps : Keeps s request) : IdsInv (step s request) := by
  have hgood := h.good.step hkeeps.plainRefs
  cases request with
  | create x => exact idsInv_create h hkeeps hgood
  | update x => exact idsInv_update h hkeeps.2 hgood
  | delete x => exact idsInv_delete h hgood
  | restart => exact idsInv_restart h

end

/-- **Ids are unique within channel groups in all states of a run** in which no reference has a
slash and no update changes the channel group of a stored T-CONT or GEM port. -/
theorem ids_unique_of_keeps (deviceIds : List String) (requests : List Request)
    (hkeeps : AllAlong step Keeps (initial deviceIds) requests) :
    ∀ l, l <+: requests → IdsUnique (l.foldl step (initial deviceIds)) := by
  rintro l ⟨l', rfl⟩
  refine IdsInv.idsUnique ((allAlong_append.mp hkeeps).1.foldl ?_ (IdsInv.init deviceIds))
  exact fun s request h hk => idsInv_step h hk

/-- Two channel groups, each with a T-CONT. -/
def groupedRequests : List Request :=
  [.create (.channelGroup ⟨"", "group1", 0, 0⟩), .create (.channelGroup ⟨"", "group2", 0, 0⟩),
    .create (.channelPartition ⟨"", "partition1", "group1", 0, 0⟩),
    .create (.channelPartition ⟨"", "partition2", "group2", 0, 0⟩),
    .create (.channelPair
      ⟨"", "pair", "", "partition1", "channelpair", "unplanned_cp_speed"⟩),
    .create (.vOntAni ⟨"", "vontani1", "partition1", "pair", "", "", 1⟩),
    .create (.vOntAni ⟨"", "vontani2", "partition2", "pair", "", "", 2⟩),
    .create (.trafficDescriptorProfile ⟨"", "profile", 0⟩),
    .create (.tcont ⟨"", "tcont1", "vontani1", "profile", 0⟩),
    .create (.tcont ⟨"", "tcont2", "vontani2", "profile", 0⟩)]

theorem ids_unique_sample : IdsUnique (groupedRequests.foldl step (initial [])) :=
  ids_unique_of_keeps [] groupedRequests (by decide) _ prefix_rfl

/-- The first v-ont-ani is moved to the partition of the other group. -/
def moveVOntAni : Request := .update (.vOntAni ⟨"", "vontani1", "partition2", "pair", "", "", 1⟩)

/-- **An update brings two T-CONTs with one id into one channel group.** -/
theorem moved_ids_clash :
    ¬ IdsUnique ((groupedRequests ++ [moveVOntAni]).foldl step (initial [])) := by
  intro h
  have hclash := h.tcont ⟨"", "tcont1", "vontani1", "profile", 1024⟩ (by decide +kernel)
    ⟨"", "tcont2", "vontani2", "profile", 1024⟩ (by decide +kernel) "group2" (by decide +kernel)
    (by decide +kernel) rfl
  exact absurd hclash (by decide)

end Voltha.Xpon
