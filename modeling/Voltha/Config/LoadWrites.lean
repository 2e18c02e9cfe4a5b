import Voltha.Config.Loading

/-!
# What loading writes

`load_latest` of the root goes through `_make_latest`, as every commit does, and `_make_latest` of
the root writes the record `'root'`.  At that time the real kv store is installed already.  So
while a root is loaded the record is written once for every tag, each time with the hash of that tag
as the latest one and with the tags that were loaded before it, and once at the end.

* `Loader.load`: loading, with the records that are written.
* `load_keeps_record_iff`: every record that is written is the old one exactly if there are no tags
  and the latest tree has its hash, or the tree of the first tag cannot be read.
-/

namespace Voltha.Config

open List OrderedDict

variable {P : Proto} {C : Codec P}

open State Act

/-! ## Loading with its writes -/

/-- A root that is being loaded, and what was written under `'root'` so far. -/
structure Loader (P : Proto) where
  tree : State P
  writes : List (RootData P)

namespace Loader

/-- A computation on the tree. -/
def inTree {α : Type} (x : M P α) : Act (Loader P) Err α := fun l =>
  ((x l.tree).1, { l with tree := (x l.tree).2 })

/-- What `_make_latest` of the root writes. -/
def makeLatest (rev : Rev P) (l : Loader P) : Loader P :=
  { l with writes := l.writes ++ [⟨rev.hash, l.tree.tags.map fun p => (p.1, p.2.hash)⟩] }

/-- `load_latest` of the root. -/
def loadLatest (blobs : Blobs C) (fuel : ℕ) (cls : P.Cls) (hash : P.Hash) :
    Act (Loader P) Err (Rev P) := do
  let rev ← inTree (Config.loadLatest blobs fuel cls 0 hash)
  modify (makeLatest rev)
  pure rev

/-- `for tag, hash in root_data['tags'].iteritems()`. -/
def loadTags (blobs : Blobs C) (fuel : ℕ) (cls : P.Cls) :
    List (String × P.Hash) → Act (Loader P) Err Unit
  | [] => pure ()
  | (tag, hash) :: tags => do
    let rev ← loadLatest blobs fuel cls hash
    inTree (modify fun s => { s with tags := insert tag rev s.tags })
    loadTags blobs fuel cls tags

/-- `load_from_persistence`, for a record whose tags are iterated in a given order. -/
def loadFromPersistence (blobs : Blobs C) (fuel : ℕ) (cls : P.Cls) (latest : P.Hash)
    (tags : List (String × P.Hash)) : Act (Loader P) Err Unit := do
  loadTags blobs fuel cls tags
  let _ ← loadLatest blobs fuel cls latest

/-- `ConfigRoot.load(cls, kv_store)`; `initial` is `cls()`.  The record of the first root goes to
another store. -/
def load (blobs : Blobs C) (fuel : ℕ) (initial : Msg P) (latest : P.Hash)
    (tags : List (String × P.Hash)) : Except Err Unit × Loader P :=
  match mkRoot initial with
  | (.error e, s) => (.error e, ⟨s, []⟩)
  | (.ok _, s) => loadFromPersistence blobs fuel (P.typeOf initial.data) latest tags ⟨s, []⟩

end Loader

variable {s : State P}

/-! ## What is written -/

/-- The record denotes the same latest hash and the same tags. -/
def RootData.SameAs (w record : RootData P) : Prop :=
  w.latest = record.latest ∧ ∀ tag, w.tags.lookup tag = record.tags.lookup tag

/-- Loading leaves the record as it is: there are no tags, and what the store denotes under the
latest hash has this hash; or the store denotes nothing under the hash of the tag that comes
first. -/
def KeepsRecord (blobs : Blobs C) (fuel : ℕ) (cls : P.Cls) (latest : P.Hash) :
    List (String × P.Hash) → Prop
  | [] => ∀ h, storedHash blobs fuel cls latest = some h → h = latest
  | (_, hash) :: _ => storedHash blobs fuel cls hash = none

/-- What the loading of one tree by the root writes. -/
theorem Loader.loadLatest_writes (blobs : Blobs C) (fuel : ℕ) (cls : P.Cls) (hash : P.Hash)
    (l : Loader P) (hl : l.tree.cleared = []) :
    (∀ h, storedHash blobs fuel cls hash = some h →
      ∃ rev l', loadLatest blobs fuel cls hash l = (.ok rev, l') ∧ rev.hash = h ∧
        l'.writes = l.writes ++ [⟨h, l.tree.tags.map fun p => (p.1, p.2.hash)⟩]) ∧
    (storedHash blobs fuel cls hash = none →
      ∃ e l', loadLatest blobs fuel cls hash l = (.error e, l') ∧ l'.writes = l.writes) := by
  obtain ⟨hplain, hres⟩ := loadLatest_loads blobs fuel cls 0 hash l.tree hl
  rw [loadLatest, bind_apply, inTree]
  rcases hrun : Config.loadLatest blobs fuel cls 0 hash l.tree with ⟨e | rev, s'⟩ <;>
    rw [hrun] at hplain hres <;> rcases hst : storedHash blobs fuel cls hash with _ | h <;>
      rw [hst] at hres
  · exact ⟨nofun, fun _ => ⟨e, _, rfl, rfl⟩⟩
  · exact hres.elim
  · exact hres.elim
  · refine ⟨?_, nofun⟩
    rintro _ ⟨⟩
    obtain ⟨⟨rfl, -⟩, -⟩ := hres
    refine ⟨rev, _, rfl, rfl, ?_⟩
    show l.writes ++ [⟨rev.hash, s'.tags.map _⟩] = _
    rw [hplain.tags]

/-- A computation that only adds writes. -/
def Loader.Extends {α : Type} (x : Act (Loader P) Err α) : Prop :=
  ∀ l, l.writes <+: (x l).2.writes

namespace Loader.Extends

variable {α β : Type}

theorem inTree (x : M P α) : Extends (Loader.inTree x) := fun _ => prefix_rfl

theorem bind {x : Act (Loader P) Err α} {f : α → Act (Loader P) Err β} (h : Extends x)
    (hf : ∀ a, Extends (f a)) : Extends (x >>= f) := fun l =>
  wp_bind_keep (x := x) (I := fun l' => l.writes <+: l'.writes) (h l) fun a l' hl =>
    hl.trans (hf a l')

theorem loadLatest (blobs : Blobs C) (fuel : ℕ) (cls : P.Cls) (hash : P.Hash) :
    Extends (Loader.loadLatest blobs fuel cls hash) :=
  (inTree _).bind fun _ _ => prefix_append ..

theorem loadTags (blobs : Blobs C) (fuel : ℕ) (cls : P.Cls) :
    ∀ tags, Extends (Loader.loadTags blobs fuel cls tags)
  | [] => fun _ => prefix_rfl
  | (_, hash) :: tags => (loadLatest blobs fuel cls hash).bind fun _ =>
      (inTree _).bind fun _ => loadTags blobs fuel cls tags

end Loader.Extends

/-- Without tags, the record is written once, if at all. -/
theorem Loader.writes_of_nil (blobs : Blobs C) (fuel : ℕ) (cls : P.Cls) (latest : P.Hash)
    (hs : Plain State.empty s) :
    (loadFromPersistence blobs fuel cls latest [] ⟨s, []⟩).2.writes =
      (storedHash blobs fuel cls latest).toList.map fun h => ⟨h, []⟩ := by
  have hrun : (loadFromPersistence blobs fuel cls latest [] ⟨s, []⟩).2 =
      (loadLatest blobs fuel cls latest ⟨s, []⟩).2 := by
    rw [loadFromPersistence, loadTags, bind_apply, pure_apply]
    dsimp only
    rw [bind_apply]
    rcases loadLatest blobs fuel cls latest ⟨s, []⟩ with ⟨e | rev, l⟩ <;> rfl
  obtain ⟨hsome, hnone⟩ := loadLatest_writes blobs fuel cls latest ⟨s, []⟩ hs.cleared
  rw [hrun]
  rcases hst : storedHash blobs fuel cls latest with _ | h
  · obtain ⟨e, l', hload, hwrites⟩ := hnone hst
    rw [hload, hwrites]
    rfl
  · obtain ⟨rev, l', hload, -, hwrites⟩ := hsome h hst
    rw [hload, hwrites, hs.tags]
    rfl

/-- With tags, the first record that is written, if any, has no tags. -/
theorem Loader.writes_of_cons (blobs : Blobs C) (fuel : ℕ) (cls : P.Cls) (latest : P.Hash)
    (tag : String) (hash : P.Hash) (tags : List (String × P.Hash)) (hs : Plain State.empty s) :
    (storedHash blobs fuel cls hash = none →
      (loadFromPersistence blobs fuel cls latest ((tag, hash) :: tags) ⟨s, []⟩).2.writes = []) ∧
    ∀ h, storedHash blobs fuel cls hash = some h → ⟨h, []⟩ ∈
      (loadFromPersistence blobs fuel cls latest ((tag, hash) :: tags) ⟨s, []⟩).2.writes := by
  obtain ⟨hsome, hnone⟩ := loadLatest_writes blobs fuel cls hash ⟨s, []⟩ hs.cleared
  have hrun : loadFromPersistence blobs fuel cls latest ((tag, hash) :: tags) =
      loadLatest blobs fuel cls hash >>= fun rev => (do
        (do inTree (modify fun s => { s with tags := insert tag rev s.tags })
            loadTags blobs fuel cls tags)
        let _ ← loadLatest blobs fuel cls latest) := by
    rw [loadFromPersistence, loadTags, bind_bind]
  rw [hrun, bind_apply]
  constructor
  · intro hst
    obtain ⟨e, l', hload, hwrites⟩ := hnone hst
    rw [hload]
    exact hwrites
  · intro h hst
    obtain ⟨rev, l', hload, -, hwrites⟩ := hsome h hst
    rw [hload]
    have hext : Extends (do
        (do inTree (modify fun s => { s with tags := insert tag rev s.tags })
            loadTags blobs fuel cls tags)
        let _ ← loadLatest blobs fuel cls latest : Act (Loader P) Err Unit) :=
      Extends.bind (Extends.bind (Extends.inTree _) fun _ => Extends.loadTags _ _ _ _) fun _ =>
        Extends.bind (Extends.loadLatest _ _ _ _) fun _ _ => prefix_rfl
    refine (hext l').subset ?_
    rw [hwrites, hs.tags]
    exact mem_singleton_self _

/-- **When loading keeps the record.**  For every content of the store, every record, and every
order in which its tags are iterated: after each write the record denotes the latest hash and the
tags that it did before, if and only if there are no tags and the store denotes under the latest
hash a tree of this hash (or none), or it denotes no tree under the hash of the first tag. -/
theorem load_keeps_record_iff (blobs : Blobs C) (record : RootData P)
    {order : List (String × P.Hash)} (horder : order.Perm record.tags) {initial : Msg P}
    {rev : Rev P} {s : State P} (hinitial : mkRoot initial = (.ok rev, s)) (fuel : ℕ) :
    (∀ w ∈ (Loader.load blobs fuel initial record.latest order).2.writes, w.SameAs record) ↔
      KeepsRecord blobs fuel (P.typeOf initial.data) record.latest order := by
  have hs := mkRoot_plain hinitial
  rw [Loader.load, hinitial]
  rcases order with _ | ⟨⟨tag, hash⟩, tags⟩
  · have htags : record.tags = [] := horder.symm.eq_nil
    rw [Loader.writes_of_nil blobs fuel _ record.latest hs, KeepsRecord]
    constructor
    · intro h hash hst
      exact (h ⟨hash, []⟩ (by rw [hst]; exact mem_singleton_self _)).1
    · intro h w hw
      obtain ⟨hash, hmem, rfl⟩ := mem_map.1 hw
      exact ⟨h hash (Option.mem_toList.1 hmem), fun tag => by rw [htags]⟩
  · obtain ⟨hnone, hsome⟩ := Loader.writes_of_cons blobs fuel (P.typeOf initial.data) record.latest
      tag hash tags hs
    rw [KeepsRecord]
    constructor
    · intro h
      rcases hst : storedHash blobs fuel (P.typeOf initial.data) hash with _ | hash'
      · rfl
      · exfalso
        have hmem : tag ∈ record.tags.map Prod.fst :=
          mem_map.2 ⟨_, horder.subset mem_cons_self, rfl⟩
        obtain ⟨v, hv⟩ := exists_lookup hmem
        have hlookup := (h _ (hsome hash' hst)).2 tag
        rw [hv] at hlookup
        cases hlookup
    · intro hst w hw
      rw [hnone hst] at hw
      exact absurd hw not_mem_nil

/-! ## The small tree -/

namespace Sample

/-- The record after a run. -/
def recordOf (ops : List (Op sample)) : RootData sample :=
  (persisted (ops.map .op)).record.getD ⟨Digest.nil, []⟩

/-- What is written while the root is loaded again. -/
def loadWrites (ops : List (Op sample)) : List (RootData sample) :=
  (Loader.load (persisted (ops.map .op)).blobs 100 initial (recordOf ops).latest
    (recordOf ops).tags).2.writes

/-- An adapter changes. -/
def untagged : List (Op sample) :=
  [.update ["", "adapters", "2"] (leaf .adapter "2" "z") false none]

end Sample

open Sample

/-- A root without tags is loaded, and the record is written once. -/
theorem load_keeps_record_untagged :
    (loadWrites untagged).length = 1 ∧
      ∀ w ∈ loadWrites untagged, w.SameAs (recordOf untagged) := by
  obtain ⟨rev, s, hinitial⟩ := mkRoot_initial
  have hstored : storedHash (persisted (untagged.map .op)).blobs 100
      (sample.typeOf initial.data) (recordOf untagged).latest =
      some (recordOf untagged).latest := by
    decide +kernel
  have hnil : (recordOf untagged).tags = [] := by
    rw [← List.isEmpty_iff]
    decide +kernel
  refine ⟨by decide +kernel, ?_⟩
  refine (load_keeps_record_iff _ (recordOf untagged) (List.Perm.refl _) hinitial
    100).2 ?_
  rw [hnil, KeepsRecord, hstored]
  exact fun h hh => (Option.some.inj hh).symm

/-- The root has a tag, and the record that is written first has none and names another latest
hash. -/
theorem loading_forgets_tags :
    (recordOf outdated).tags.map Prod.fst = ["a"] ∧
      (loadWrites outdated).map (fun w => w.tags.map Prod.fst) = [[], ["a"]] ∧
      (loadWrites outdated).map
        (fun w => decide (w.latest = (recordOf outdated).latest)) = [false, true] ∧
      ¬ ∀ w ∈ loadWrites outdated, w.SameAs (recordOf outdated) := by
  have hlatest : (loadWrites outdated).map
      (fun w => decide (w.latest = (recordOf outdated).latest)) = [false, true] := by
    decide +kernel
  refine ⟨by decide +kernel, by decide +kernel, hlatest, fun hall => ?_⟩
  have hfalse : false ∈ (loadWrites outdated).map
      (fun w => decide (w.latest = (recordOf outdated).latest)) := by
    rw [hlatest]
    exact mem_cons_self
  obtain ⟨w, hw, hne⟩ := mem_map.1 hfalse
  exact of_decide_eq_false hne (hall w hw).1

end Voltha.Config
