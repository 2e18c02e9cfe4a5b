import Voltha.Xpon.References

/-!
# Channel groups of T-CONTs and GEM ports

A T-CONT refers to a v-ont-ani, this to a channel partition and this to a channel group; a GEM port
refers to a v-enet, which refers to a v-ont-ani.

* `TcontIn`, `GemportIn`: the T-CONT or GEM port belongs to a channel group.
* `Good`: what makes the chains complete and the code find their ends.
* `Chain`: the laws of a collection of messages with ids and channel groups.
* `Allocated`: the ids of such a collection are unique within channel groups and marked in their
  pools.  `Allocated.frame`, `Allocated.created`, `Allocated.deleted` and `Allocated.updated` say
  how that is kept.
-/

namespace Voltha.Xpon

open List
open Common (IndexPool)

/-! ## Channel groups of T-CONTs and GEM ports -/

/-- The v-ont-ani with a name belongs to a channel group. -/
def VOntAniIn (c : FiberConfig) (vOntAni group : String) : Prop :=
  ∃ v ∈ c.vOntAnis, v.name = vOntAni ∧ ∃ p ∈ c.channelPartitions, p.name = v.parentRef ∧
    p.channelgroupRef = group ∧ group ∈ c.channelGroups.map (·.name)

instance (c : FiberConfig) (vOntAni group : String) : Decidable (VOntAniIn c vOntAni group) :=
  inferInstanceAs (Decidable (∃ v ∈ c.vOntAnis, _))

/-- The T-CONT belongs to a channel group. -/
def TcontIn (c : FiberConfig) (x : TcontsConfigData) (group : String) : Prop :=
  VOntAniIn c x.interfaceReference group

instance (c : FiberConfig) (x : TcontsConfigData) (group : String) :
    Decidable (TcontIn c x group) := inferInstanceAs (Decidable (VOntAniIn c _ group))

/-- The GEM port belongs to a channel group. -/
def GemportIn (c : FiberConfig) (x : GemportsConfigData) (group : String) : Prop :=
  ∃ e ∈ c.vEnets, e.name = x.itfRef ∧ VOntAniIn c e.vOntaniRef group

instance (c : FiberConfig) (x : GemportsConfigData) (group : String) :
    Decidable (GemportIn c x group) := inferInstanceAs (Decidable (∃ e ∈ c.vEnets, _))

/-! ## Configurations whose chains are complete -/

/-- All references except those of v-ont-anis to channel pairs. -/
def InChain (k k' : Kind) : Prop := ¬ (k = .vOntAni ∧ k' = .channelPair)

/-- What the chains of references rest on. -/
structure Good (c : FiberConfig) : Prop where
  nonempty : ∀ k, ∀ o ∈ messages c k, o.name ≠ ""
  distinct : Distinct c
  closed : RefsClosed InChain c
  plain : ∀ k, ∀ o ∈ messages c k, o.PlainRefs

theorem Good.init (deviceIds : List String) : Good (initial deviceIds).config where
  nonempty := (Inv.init deviceIds).nonempty
  distinct := (Inv.init deviceIds).distinct
  closed := (Inv.init deviceIds).closed.mono fun _ _ _ => trivial
  plain := fun k _ ho => absurd (messages_empty deviceIds k ▸ ho) not_mem_nil

theorem Good.step {s : XponHandler} {request : Request} (h : Good s.config)
    (hplain : request.PlainRefs) : Good (step s request).config := by
  have hchange := step_change (P := InChain) (s := s) hplain fun hP => absurd ⟨rfl, rfl⟩ hP
  refine ⟨hchange.nonempty h.nonempty, hchange.distinct h.distinct,
    hchange.refsClosed h.closed, fun k o ho => ?_⟩
  exact (hchange.objects k o ho).elim (h.plain k o) Valid.plain

/-- **The chains are complete in every run**, also if a channel pair is deleted that a v-ont-ani
refers to. -/
theorem chains_complete (deviceIds : List String) (requests : List Request)
    (hplain : ∀ request ∈ requests, request.PlainRefs) :
    Good (requests.foldl step (initial deviceIds)).config :=
  AllAlong.foldl (I := fun s : XponHandler => Good s.config) (fun _ _ h hp => h.step hp)
    (allAlong_of_forall hplain) (Good.init deviceIds)

theorem chains_complete_sample :
    Good ((sampleRequests ++ [deletePair]).foldl step (initial ["device"])).config :=
  chains_complete ["device"] (sampleRequests ++ [deletePair]) (by decide)

variable {group : String}

section Chains

variable {c c' : FiberConfig} {k : Kind}

theorem Good.refers (h : Good c) (hk : k ≠ .vOntAni) {o : Interface} (ho : o ∈ messages c k) :
    ∀ r ∈ o.refs, Refers c r :=
  fun r hr => h.closed k o ho r hr fun hv => hk hv.1

/-- The names of a collection differ. -/
theorem Good.nodup {α : Type} [Message α] {coll : Collection α} (h : Good c) (hl : Lawful coll k) :
    ((coll.items c).map Message.name).Nodup := by
  rw [← hl.map_name, ← hl.items]
  exact h.distinct k hl.keyed

/-- A message is found under its name, if that is without a slash. -/
theorem Good.get {α : Type} [Message α] {coll : Collection α} (h : Good c) (hl : Lawful coll k)
    {x : α} (hx : x ∈ coll.items c) (hslash : '/' ∉ (Message.name x).toList) :
    Root.get (coll.items c) (Message.name x) = .ok (some x) := by
  have hne : Message.name x ≠ "" := by
    rw [← hl.name]
    refine h.nonempty k _ ?_
    rw [hl.items]
    exact mem_map_of_mem hx
  rw [Root.get_of_noSlash hne hslash, KeyedList.find_of_mem (h.nodup hl) hx]

variable {ref : String}

/-- A v-ont-ani belongs to one channel group. -/
theorem VOntAniIn.exists (h : Good c) (href : Refers c (.vOntAni, ref)) :
    ∃ group, VOntAniIn c ref group := by
  obtain ⟨v, hv, hname⟩ := mem_map.mp (vOntAnis_lawful.refers.mp href)
  have hparent : Refers c (.channelPartition, v.parentRef) :=
    h.closed.refers (.vOntAniPartition hv) fun hk => nomatch hk.2
  obtain ⟨p, hp, hpname⟩ := mem_map.mp (channelPartitions_lawful.refers.mp hparent)
  have hgroup := h.refers (k := .channelPartition) (by decide) (mem_map_of_mem hp) _
    (mem_singleton_self _)
  exact ⟨p.channelgroupRef, v, hv, hname, p, hp, hpname, rfl,
    channelGroups_lawful.refers.mp hgroup⟩

theorem VOntAniIn.unique (h : Good c) {group' : String} (hin : VOntAniIn c ref group)
    (hin' : VOntAniIn c ref group') : group = group' := by
  obtain ⟨v, hv, hname, p, hp, hpname, hgroup, -⟩ := hin
  obtain ⟨v', hv', hname', p', hp', hpname', hgroup', -⟩ := hin'
  have hvv : v = v' := inj_on_of_nodup_map (h.nodup vOntAnis_lawful) hv hv'
    (hname.trans hname'.symm)
  subst hvv
  have hpp : p = p' := inj_on_of_nodup_map (h.nodup channelPartitions_lawful) hp hp'
    (hpname.trans hpname'.symm)
  rw [← hgroup, ← hgroup', hpp]

/-- The code finds the channel group of a v-ont-ani. -/
theorem VOntAniIn.extract (h : Good c) (hslash : '/' ∉ ref.toList) (hin : VOntAniIn c ref group) :
    extractFromVOntAnis c ref = .name group := by
  obtain ⟨v, hv, rfl, p, hp, hpname, rfl, hgroup⟩ := hin
  obtain ⟨g, hg, hgname⟩ := mem_map.mp hgroup
  have hvplain := h.plain .vOntAni _ (mem_map_of_mem hv) _ mem_cons_self
  have hpplain := h.plain .channelPartition _ (mem_map_of_mem hp) _
    (mem_singleton_self _)
  have hgetv : Root.get c.vOntAnis v.name = .ok (some v) := h.get vOntAnis_lawful hv hslash
  have hgetp : Root.get c.channelPartitions v.parentRef = .ok (some p) := by
    rw [← hpname]
    exact h.get channelPartitions_lawful hp (show '/' ∉ p.name.toList from hpname ▸ hvplain)
  have hgetg : Root.get c.channelGroups p.channelgroupRef = .ok (some g) := by
    rw [← hgname]
    exact h.get channelGroups_lawful hg (show '/' ∉ g.name.toList from hgname ▸ hpplain)
  rw [extractFromVOntAnis, extractNext, hgetv]
  dsimp only
  rw [extractFromChannelPartitions, extractNext, hgetp]
  dsimp only
  rw [extractFromChannelGroups, extractNext, hgetg]
  dsimp only
  rw [hgname]

/-- All that chains go through in `c` is there in `c'`. -/
structure Sub (c c' : FiberConfig) : Prop where
  vEnets : c.vEnets ⊆ c'.vEnets
  vOntAnis : c.vOntAnis ⊆ c'.vOntAnis
  channelPartitions : c.channelPartitions ⊆ c'.channelPartitions
  channelGroups : c.channelGroups.map (·.name) ⊆ c'.channelGroups.map (·.name)

theorem VOntAniIn.mono (h : Sub c c') (hin : VOntAniIn c ref group) : VOntAniIn c' ref group := by
  obtain ⟨v, hv, hname, p, hp, hpname, hgroup, hg⟩ := hin
  exact ⟨v, h.vOntAnis hv, hname, p, h.channelPartitions hp, hpname, hgroup, h.channelGroups hg⟩

end Chains

/-! ## Messages with ids and their channel groups -/

/-- The pools have the same numbers. -/
def SameSize (p q : IndexPool) : Prop := p.maxEntries = q.maxEntries ∧ p.offset = q.offset

/-- The pools have the numbers of new pools. -/
def Ranged (pools : Pools) : Prop :=
  SameSize pools.allocId Pools.new.allocId ∧ SameSize pools.gemportId Pools.new.gemportId

/-- The laws of a collection of messages that belong to channel groups. -/
structure Chain {α : Type} [Message α] (coll : Numbered α) (k : Kind)
    (In : FiberConfig → α → String → Prop) : Prop where
  lawful : Lawful coll.toCollection k
  idOnly : coll.IdOnly
  not_vOntAni : k ≠ .vOntAni
  id_setId : ∀ r id, coll.id (coll.setId r id) = id
  pool_setPool : ∀ pools pool, coll.pool (coll.setPool pools pool) = pool
  ranged_pool : ∀ {pools}, Ranged pools → SameSize (coll.pool pools) (coll.pool .new)
  ranged_setPool : ∀ {pools pool}, Ranged pools → SameSize pool (coll.pool .new) →
    Ranged (coll.setPool pools pool)
  pool_new : ∀ id, ¬ (coll.pool .new).IsAllocated id
  setId : ∀ {c r id group}, In c (coll.setId r id) group ↔ In c r group
  put : ∀ {c l r group}, In (coll.put c l) r group ↔ In c r group
  items_put : ∀ c l, coll.items (coll.put c l) = l
  put_items : ∀ c, coll.put c (coll.items c) = c
  groups_put : ∀ c l, (coll.put c l).channelGroups = c.channelGroups
  mem_groups : ∀ {c r group}, In c r group → group ∈ c.channelGroups.map (·.name)
  exists_in : ∀ {c r}, Good c → (∀ ref ∈ (coll.interface r).refs, Refers c ref) →
    ∃ group, In c r group
  unique : ∀ {c r group group'}, Good c → In c r group → In c r group' → group = group'
  extract : ∀ {c r group}, Good c → (coll.interface r).PlainRefs → In c r group →
    coll.extract c r = .name group
  mono : ∀ {c c' r group}, Sub c c' → In c r group → In c' r group

theorem tcontIn_chain : Chain tconts .tcont TcontIn where
  lawful := tconts_lawful
  idOnly := fun _ _ => ⟨rfl, rfl⟩
  not_vOntAni := by decide
  id_setId := fun _ _ => rfl
  pool_setPool := fun _ _ => rfl
  ranged_pool := fun h => h.1
  ranged_setPool := fun h hpool => ⟨hpool, h.2⟩
  pool_new := fun _ => IndexPool.not_isAllocated_new
  setId := Iff.rfl
  put := Iff.rfl
  items_put := fun _ _ => rfl
  put_items := fun _ => rfl
  groups_put := fun _ _ => rfl
  mem_groups := fun ⟨_, _, _, _, _, _, _, h⟩ => h
  exists_in := fun h hrefs => VOntAniIn.exists h (hrefs _ mem_cons_self)
  unique := fun h => VOntAniIn.unique h
  extract := fun h hplain => VOntAniIn.extract h (hplain _ mem_cons_self)
  mono := fun h => VOntAniIn.mono h

theorem gemportIn_chain : Chain gemports .gemport GemportIn where
  lawful := gemports_lawful
  idOnly := fun _ _ => ⟨rfl, rfl⟩
  not_vOntAni := by decide
  id_setId := fun _ _ => rfl
  pool_setPool := fun _ _ => rfl
  ranged_pool := fun h => h.2
  ranged_setPool := fun h hpool => ⟨h.1, hpool⟩
  pool_new := fun _ => IndexPool.not_isAllocated_new
  setId := Iff.rfl
  put := Iff.rfl
  items_put := fun _ _ => rfl
  put_items := fun _ => rfl
  groups_put := fun _ _ => rfl
  mem_groups := fun ⟨_, _, _, _, _, _, _, _, _, _, h⟩ => h
  exists_in := fun {c r} h hrefs => by
    have href := hrefs _ mem_cons_self
    obtain ⟨e, he, hname⟩ := mem_map.mp (vEnets_lawful.refers.mp href)
    have hvref := h.refers (k := .vEnet) (by decide) (mem_map_of_mem he) _
      (mem_singleton_self _)
    obtain ⟨group, hin⟩ := VOntAniIn.exists h hvref
    exact ⟨group, e, he, hname, hin⟩
  unique := fun h ⟨e, he, hname, hin⟩ ⟨e', he', hname', hin'⟩ => by
    have hee : e = e' := inj_on_of_nodup_map (h.nodup vEnets_lawful) he he'
      (hname.trans hname'.symm)
    subst hee
    exact hin.unique h hin'
  extract := fun {c r group} h hplain ⟨e, he, hname, hin⟩ => by
    have hslash := hplain _ mem_cons_self
    have heplain := h.plain .vEnet _ (mem_map_of_mem he) _ (mem_singleton_self _)
    have hget : Root.get c.vEnets r.itfRef = .ok (some e) := by
      rw [← hname]
      exact h.get vEnets_lawful he (show '/' ∉ e.name.toList from hname ▸ hslash)
    show extractFromVEnets c r.itfRef = _
    rw [extractFromVEnets, extractNext, hget]
    exact hin.extract h heplain
  mono := fun h ⟨e, he, hname, hin⟩ => ⟨e, h.vEnets he, hname, hin.mono h⟩

section Allocation

variable {α : Type} [Message α] {coll : Numbered α} {k : Kind}
  {In : FiberConfig → α → String → Prop} {s s' : XponHandler}

/-- The id is marked in the pool of the channel group. -/
def Marks (coll : Numbered α) (s : XponHandler) (group : String) (id : ℕ) : Prop :=
  ∃ pools, OrderedDict.get s.cgDict group = some pools ∧ (coll.pool pools).IsAllocated id

/-- Ids are unique within channel groups, and the pools have marked the ids in use. -/
structure Allocated (coll : Numbered α) (In : FiberConfig → α → String → Prop)
    (s : XponHandler) : Prop where
  numbered : ∀ group ∈ s.config.channelGroups.map (·.name),
    Numbering (fun x => x ∈ coll.items s.config ∧ In s.config x group) coll.id (Marks coll s group)
  range : ∀ x ∈ coll.items s.config, (coll.pool .new).InRange (coll.id x)

omit [Message α] in
theorem Allocated.marked (h : Allocated coll In s)
    (hgroup : group ∈ s.config.channelGroups.map (·.name)) (id : ℕ) :
    Marks coll s group id ↔ ∃ x ∈ coll.items s.config, In s.config x group ∧ coll.id x = id :=
  ((h.numbered group hgroup).used id).trans (by simp only [and_assoc])

/-- Chains agree where one configuration has all that the chains of the other one go through. -/
theorem Chain.agree (h : Chain coll k In) {c c' : FiberConfig} (hc : Good c) (hc' : Good c')
    (hsub : Sub c c' ∨ Sub c' c) {x : α} (hx : ∀ ref ∈ (coll.interface x).refs, Refers c ref)
    (hx' : ∀ ref ∈ (coll.interface x).refs, Refers c' ref) (group : String) :
    In c x group ↔ In c' x group := by
  obtain ⟨g, hg⟩ := h.exists_in hc hx
  obtain ⟨g', hg'⟩ := h.exists_in hc' hx'
  have heq : g = g' := by
    rcases hsub with hsub | hsub
    · exact h.unique hc' (h.mono hsub hg) hg'
    · exact h.unique hc hg (h.mono hsub hg')
  subst heq
  constructor
  · intro hin
    exact h.unique hc hg hin ▸ hg'
  · intro hin
    exact h.unique hc' hg' hin ▸ hg

/-- The references of a stored message name stored messages. -/
theorem Chain.refers (h : Chain coll k In) {c : FiberConfig} (hc : Good c) {x : α}
    (hx : x ∈ coll.items c) : ∀ ref ∈ (coll.interface x).refs, Refers c ref := by
  refine hc.refers h.not_vOntAni ?_
  rw [h.lawful.items]
  exact mem_map_of_mem hx

/-- The messages and their groups stay, and so do the marks of the groups that were there before;
new groups have no marks. -/
theorem Allocated.frame (h : Allocated coll In s) (hchain : Chain coll k In)
    (hitems : coll.items s'.config = coll.items s.config)
    (hin : ∀ x ∈ coll.items s.config, ∀ group, In s.config x group ↔ In s'.config x group)
    (hmarks : ∀ group ∈ s'.config.channelGroups.map (·.name), ∀ id,
      Marks coll s' group id ↔
        group ∈ s.config.channelGroups.map (·.name) ∧ Marks coll s group id) :
    Allocated coll In s' where
  numbered := fun group hgroup => by
    by_cases hold : group ∈ s.config.channelGroups.map (·.name)
    · refine (h.numbered group hold).congr (fun x => ?_) fun id => ?_
      · rw [hitems]
        exact and_congr_right fun hx => (hin x hx group).symm
      · rw [hmarks group hgroup]
        exact and_iff_right hold
    · -- no message belongs to a new group
      have hnone : ∀ x, ¬ (x ∈ coll.items s'.config ∧ In s'.config x group) := by
        rintro x ⟨hx, hxin⟩
        rw [hitems] at hx
        exact hold (hchain.mem_groups ((hin x hx group).mpr hxin))
      refine ⟨fun {x _} hx => absurd hx (hnone x), fun id => ?_⟩
      rw [hmarks group hgroup]
      exact iff_of_false (fun hm => hold hm.1) fun ⟨x, hx, _⟩ => hnone x hx
  range := hitems ▸ h.range

variable {y : α}

omit [Message α] in
/-- A message is created with an id that was not marked. -/
theorem Allocated.created (h : Allocated coll In s)
    (hitems : coll.items s'.config = coll.items s.config ++ [y])
    (hin : ∀ x g, In s'.config x g ↔ In s.config x g)
    (hgroups : s'.config.channelGroups = s.config.channelGroups)
    (hgroup : group ∈ s.config.channelGroups.map (·.name)) (hy : ∀ g, In s.config y g ↔ g = group)
    (hfree : ¬ Marks coll s group (coll.id y)) (hrange : (coll.pool .new).InRange (coll.id y))
    (hmarks : ∀ g id, Marks coll s' g id ↔ Marks coll s g id ∨ g = group ∧ id = coll.id y) :
    Allocated coll In s' := by
  refine ⟨fun g hg => ?_, fun x hx => ?_⟩
  · rw [hgroups] at hg
    refine (h.numbered g hg).add (y := y) (Q := g = group) (fun x => ?_) ?_ fun id => ?_
    · rw [hitems, mem_append, mem_singleton, hin, or_and_right]
      refine or_congr_right (and_congr_right ?_)
      rintro rfl
      exact hy g
    · rintro rfl
      exact hfree
    · rw [hmarks, and_comm]
  · rw [hitems, mem_append, mem_singleton] at hx
    rcases hx with hx | rfl
    · exact h.range x hx
    · exact hrange

section

variable (h : Allocated coll In s) (hyitems : y ∈ coll.items s.config)
include h hyitems

omit [Message α] in
/-- A message is deleted and its id released. -/
theorem Allocated.deleted (hitems : ∀ x, x ∈ coll.items s'.config ↔ x ∈ coll.items s.config ∧ x ≠ y)
    (hin : ∀ x g, In s'.config x g ↔ In s.config x g)
    (hgroups : s'.config.channelGroups = s.config.channelGroups)
    (hy : ∀ g, In s.config y g ↔ g = group)
    (hmarks : ∀ g id, Marks coll s' g id ↔ Marks coll s g id ∧ ¬ (g = group ∧ id = coll.id y)) :
    Allocated coll In s' := by
  refine ⟨fun g hg => ?_, fun x hx => h.range x ((hitems x).mp hx).1⟩
  rw [hgroups] at hg
  refine (h.numbered g hg).remove (y := y) (fun x => ?_) fun id => ?_
  · rw [hitems, hin, and_right_comm]
  · rw [hmarks, hy, and_iff_right hyitems, and_comm (a := g = group)]

omit [Message α] in
/-- A message is updated; it stays in its group and keeps its id. -/
theorem Allocated.updated {y' : α}
    (hitems : ∀ x, x ∈ coll.items s'.config ↔ x ∈ coll.items s.config ∧ x ≠ y ∨ x = y')
    (hin : ∀ x g, In s'.config x g ↔ In s.config x g)
    (hgroups : s'.config.channelGroups = s.config.channelGroups)
    (hy : ∀ g, In s.config y' g ↔ In s.config y g) (hid : coll.id y' = coll.id y)
    (hmarks : ∀ g id, Marks coll s' g id ↔ Marks coll s g id) : Allocated coll In s' := by
  refine ⟨fun g hg => ?_, fun x hx => ?_⟩
  · rw [hgroups] at hg
    refine (h.numbered g hg).replace (y := y) (z := y') (fun x => ?_) hid (hmarks g)
    rw [hitems, hin, or_and_right, and_right_comm, and_iff_right hyitems]
    refine or_congr_right (and_congr_right ?_)
    rintro rfl
    exact hy g
  · rcases (hitems x).mp hx with ⟨hold, -⟩ | rfl
    · exact h.range x hold
    · rw [hid]
      exact h.range y hyitems

end

end Allocation

end Voltha.Xpon
