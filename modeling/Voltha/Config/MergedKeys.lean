import Voltha.Config.MergedLists

/-!
# The keys of a merged list

A merged list of a keyed field has the keys of the source, or those of the destination with the
added ones behind them and without the popped ones.  No key stands twice in it, if the merges of
children return revisions with the keys of the children.

Whether it is the list that a key-wise merge should make is another question.  The positions to
pop are taken from the destination as it was before any pop, in the reverse order of the fork, so
that they decrease only if the removed keys stand in the destination in the order of the fork:
`fieldMerged_keywise_iff`.
-/

namespace Voltha.Config

open List
open Option (ext map_eq_some_iff some)

variable {P : Proto}

open State

/-! ## Keys by position -/

/-- The entry, if there is one, has the key. -/
def HasKey (key : String) (x : Option (Rev P)) (k : P.Val) : Prop :=
  ∀ e, x = some e → P.getattr e.data key = some k

variable {l : List (Option (Rev P))} {k : P.Val} {key : String} {km kf ks kd : List P.Val}
  {conv : String → Except String P.Val} {h : Rev P → Option P.Hash}
  {R : Rev P → Option (Rev P) → Prop} {F S D : List (Rev P)}

theorem forall₂_hasKey :
    ∀ {l : List (Rev P)} {ks : List P.Val}, keysOf key l = .ok ks →
      Forall₂ (HasKey key) (l.map some) ks
  | [], ks, h => by
    rw [keysOf_eq_ok, map_nil] at h
    rw [map_eq_nil_iff.mp h.symm]
    exact Forall₂.nil
  | e :: l, ks, h => by
    rw [keysOf_eq_ok] at h
    rcases ks with _ | ⟨k, ks⟩
    · cases h
    · rw [map_cons, map_cons, cons.injEq] at h
      refine Forall₂.cons ?_ (forall₂_hasKey (keysOf_eq_ok.mpr h.2))
      rintro e' he'
      rw [← some.inj he']
      exact h.1

theorem reduceOption_map_some (l : List (Rev P)) : (l.map some).reduceOption = l := by
  rw [reduceOption, filterMap_map]
  exact filterMap_some

/-- The keys of a list in which nothing is missing. -/
theorem keysOf_reduceOption (h : Forall₂ (HasKey key) l km) (hnone : none ∉ l) :
    keysOf key l.reduceOption = .ok km := by
  induction h with
  | nil => rfl
  | @cons x k l km hx _ ih =>
    rcases x with _ | e
    · exact absurd mem_cons_self hnone
    · rw [reduceOption_cons_of_some, keysOf, hx e rfl,
        ih fun hmem => hnone (mem_cons_of_mem _ hmem)]

/-- What was returned for a child has the key of the child. -/
def KeepsKeys (key : String) (R : Rev P → Option (Rev P) → Prop) (l : List (Rev P)) : Prop :=
  ∀ e ∈ l, ∀ y, R e (some y) → P.getattr y.data key = P.getattr e.data key

section

variable (hS : keysOf key S = .ok ks)
include hS

theorem FromEntry.hasKey (hR : KeepsKeys key R S) {x : Option (Rev P)} (hx : FromEntry R S ks k x) :
    HasKey key x k := by
  obtain ⟨e, he, hret⟩ := hx
  obtain ⟨hmem, hk⟩ := entry_key hS he
  rintro y rfl
  rw [hR e hmem y hret, hk]

/-- The keys of the source's list after the merged children are put into it. -/
theorem puts_hasKey (hR : KeepsKeys key R S) {keys : List P.Val}
    (hl : Puts (position ks) (FromEntry R S ks) keys (S.map some) l) :
    Forall₂ (HasKey key) l ks := by
  refine hl.forall₂ (forall₂_hasKey hS) ?_
  intro k _ i hi x hx b hb
  rw [getElem?_of_position hi] at hb
  rw [← some.inj hb]
  exact hx.hasKey hS hR

end

/-- The lists of a keyed field, with their keys, none of which stands twice in a list. -/
structure KeyedLists (key : String) (F S D : List (Rev P)) (kf ks kd : List P.Val) : Prop where
  fork : keysOf key F = .ok kf
  src : keysOf key S = .ok ks
  dst : keysOf key D = .ok kd
  nodup_fork : kf.Nodup
  nodup_src : ks.Nodup
  nodup_dst : kd.Nodup

/-- The keys that only the source has added. -/
def newKeys (kf ks kd : List P.Val) : List P.Val := ks.filter fun k => k ∉ kf ∧ k ∉ kd

/-- The positions in the destination of the keys that the source has removed, as they are popped. -/
def pops (kf ks kd : List P.Val) : List ℕ :=
  ((kf.filter fun k => k ∉ ks ∧ k ∈ kd).map kd.idxOf).reverse

theorem mem_newKeys : k ∈ newKeys kf ks kd ↔ k ∈ ks ∧ k ∉ kf ∧ k ∉ kd := by
  rw [newKeys, mem_filter, decide_eq_true_eq]

theorem mem_pops {i : ℕ} :
    i ∈ pops kf ks kd ↔ ∃ k, (k ∈ kf ∧ k ∉ ks ∧ k ∈ kd) ∧ kd.idxOf k = i := by
  simp only [pops, mem_reverse, mem_map, mem_filter, decide_eq_true_eq]

theorem pops_lt {i : ℕ} (hi : i ∈ pops kf ks kd) : i < kd.length := by
  obtain ⟨k, hk, rfl⟩ := mem_pops.mp hi
  exact idxOf_lt_length_of_mem hk.2.2

/-- What stands at the positions that are popped: the keys that the source has removed. -/
theorem popped_iff (adds : List P.Val) :
    (∃ i ∈ pops kf ks kd, (kd ++ adds)[i]? = some k) ↔ k ∈ kf ∧ k ∉ ks ∧ k ∈ kd := by
  constructor
  · rintro ⟨i, hi, hget⟩
    obtain ⟨k', hk', rfl⟩ := mem_pops.mp hi
    have hidx := getElem?_idxOf hk'.2.2
    rw [getElem?_append_left (lt_of_getElem? hidx), hidx] at hget
    rw [← some.inj hget]
    exact hk'
  · intro hk
    have hidx := getElem?_idxOf hk.2.2
    refine ⟨kd.idxOf k, mem_pops.mpr ⟨k, hk, rfl⟩, ?_⟩
    rw [getElem?_append_left (lt_of_getElem? hidx), hidx]

/-- What the merge makes of a keyed field whose lists have unique keys. -/
inductive KeyedMerged (h : Rev P → Option P.Hash) (R : Rev P → Option (Rev P) → Prop)
    (F S D : List (Rev P)) (kf ks kd : List P.Val) : List (Option (Rev P)) → Prop where
  | same : sameRevs D S = true → KeyedMerged h R F S D kf ks kd (D.map some)
  | source {l : List (Option (Rev P))} : sameRevs D S = false → sameRevs D F = true →
      Puts (position ks) (FromEntry R S ks)
        ((analyze h F S kf ks).addedKeys ++ (analyze h F S kf ks).changedKeys) (S.map some) l →
      KeyedMerged h R F S D kf ks kd l
  | mixed {adds l : List (Option (Rev P))} : sameRevs D S = false → sameRevs D F = false →
      Mixed h R S D ks kd (analyze h F S kf ks) (analyze h F D kf kd) adds l →
      PopsIn (pops kf ks kd) l → KeyedMerged h R F S D kf ks kd (popAll (pops kf ks kd) l)

section

variable (hk : KeyedLists key F S D kf ks kd)
include hk

theorem KeyedLists.addedOnly_eq :
    addedOnly (analyze h F S kf ks) (analyze h F D kf kd) = newKeys kf ks kd := by
  rw [addedOnly, addedKeys_eq hk.nodup_src, filter_filter]
  refine filter_congr fun k _ => ?_
  rw [← Bool.decide_and, decide_eq_decide, mem_addedKeys]
  tauto

/-- The positions that are popped. -/
theorem KeyedLists.popPositions_eq :
    popPositions kd (analyze h F D kf kd) (analyze h F S kf ks).removedKeys.reverse =
      pops kf ks kd := by
  have hrem : (analyze h F S kf ks).removedKeys.filter
      (fun k => k ∉ (analyze h F D kf kd).removedKeys) =
        kf.filter fun k => k ∉ ks ∧ k ∈ kd := by
    have hkeys : (analyze h F S kf ks).removedKeys = kf.filter fun k => k ∉ ks :=
      removedKeys_eq hk.nodup_fork
    rw [hkeys, filter_filter]
    refine filter_congr fun k hk => ?_
    rw [← Bool.decide_and, decide_eq_decide, mem_removedKeys]
    tauto
  unfold popPositions
  rw [filter_reverse, hrem, filterMap_reverse]
  congr 1
  rw [← filterMap_eq_map]
  refine filterMap_congr fun k hmem => ?_
  rw [mem_filter, decide_eq_true_eq] at hmem
  rw [(position_eq_some_iff hk.nodup_dst).mpr (getElem?_idxOf hmem.2.2), Function.comp_apply]

theorem FieldMerged.keyed (hl : FieldMerged h R (.keyed key conv) F S D l) :
    KeyedMerged h R F S D kf ks kd l := by
  cases hl with
  | same hDS _ => exact .same hDS
  | sourceAll hkind _ _ _ => exact absurd rfl (hkind key conv)
  | dstAll hkind _ _ => exact absurd rfl (hkind key conv)
  | source hkind hDS hDF hF hS hputs =>
    cases hkind
    cases hk.fork.symm.trans hF
    cases hk.src.symm.trans hS
    exact .source hDS hDF hputs
  | mixed hkind hDS hDF hF hS hD hm _ hpops =>
    cases hkind
    cases hk.fork.symm.trans hF
    cases hk.src.symm.trans hS
    cases hk.dst.symm.trans hD
    rw [hk.popPositions_eq] at hpops ⊢
    exact .mixed hDS hDF hm hpops

/-- The keys of the list before the removals. -/
theorem Mixed.hasKey (hR : KeepsKeys key R S) {adds : List (Option (Rev P))}
    (hm : Mixed h R S D ks kd (analyze h F S kf ks) (analyze h F D kf kd) adds l) :
    Forall₂ (HasKey key) l (kd ++ newKeys kf ks kd) := by
  have hadds := (hm.appended.imp fun _ _ hx => hx.hasKey hk.src hR).flip
  rw [hk.addedOnly_eq] at hadds
  refine hm.puts.forall₂ (rel_append (forall₂_hasKey hk.dst) hadds) ?_
  intro k _ i hi x hx b hb
  have hget := getElem?_of_position hi
  rw [getElem?_append_left (lt_of_getElem? hget), hget] at hb
  rw [← some.inj hb]
  exact hx.hasKey hk.src hR

theorem KeyedLists.nodup_mixed : (kd ++ newKeys kf ks kd).Nodup :=
  hk.nodup_dst.append (hk.nodup_src.filter _) fun _ hkd hnew => (mem_newKeys.mp hnew).2.2 hkd

/-- **No key stands twice in a merged list.** -/
theorem FieldMerged.exists_keys (hR : KeepsKeys key R S)
    (hl : FieldMerged h R (.keyed key conv) F S D l) :
    ∃ km, Forall₂ (HasKey key) l km ∧ km.Nodup := by
  cases hl.keyed hk with
  | same _ => exact ⟨kd, forall₂_hasKey hk.dst, hk.nodup_dst⟩
  | source _ _ hputs => exact ⟨ks, puts_hasKey hk.src hR hputs, hk.nodup_src⟩
  | mixed _ _ hm _ =>
    exact ⟨_, forall₂_popAll _ (hm.hasKey hk hR), hk.nodup_mixed.sublist (popAll_sublist _ _)⟩

end

/-! ## Key-wise correctness -/

/-- The merged list `M` is the key-wise merge of the lists `F` of the fork, `S` of the source and
`D` of the destination. -/
structure Keywise (h : Rev P → Option P.Hash) (R : Rev P → Option (Rev P) → Prop) (key : String)
    (F S D M : List (Rev P)) (kf ks kd km : List P.Val) : Prop where
  keys : keysOf key M = .ok km
  nodup : km.Nodup
  /-- the keys of the destination and those the source has added, without those it has removed -/
  mem : ∀ k, k ∈ km ↔ (k ∈ kd ∨ k ∈ ks ∧ k ∉ kf) ∧ ¬ (k ∈ kf ∧ k ∉ ks)
  /-- a key that only the source has changed has the source's merged revision -/
  source : ∀ k e, entry S (keymap ks) k = some e → some (h e) ≠ (entry F (keymap kf) k).map h →
    (entry D (keymap kd) k).map h = (entry F (keymap kf) k).map h →
      ∃ y, entry M (keymap km) k = some y ∧ R e (some y)
  /-- a key that the source did not touch has the destination's revision -/
  untouched : ∀ k, entry S (keymap ks) k = entry F (keymap kf) k →
    entry M (keymap km) k = entry D (keymap kd) k

/-- The same, for lists that have keys. -/
def KeywiseCorrect (h : Rev P → Option P.Hash) (R : Rev P → Option (Rev P) → Prop) (key : String)
    (F S D M : List (Rev P)) : Prop :=
  ∃ kf ks kd km, keysOf key F = .ok kf ∧ keysOf key S = .ok ks ∧ keysOf key D = .ok kd ∧
    Keywise h R key F S D M kf ks kd km

/-- The keys that the source has removed and the destination still has stand in the destination
in the order of the fork. -/
def RemovalsOrdered (kf ks kd : List P.Val) : Prop :=
  (kf.filter fun k => k ∉ ks ∧ k ∈ kd).Pairwise fun k k' => kd.idxOf k < kd.idxOf k'

instance RemovalsOrdered.decidable (kf ks kd : List P.Val) : Decidable (RemovalsOrdered kf ks kd) :=
  inferInstanceAs (Decidable (Pairwise _ _))

theorem pairwise_pops : (pops kf ks kd).Pairwise (· > ·) ↔ RemovalsOrdered kf ks kd := by
  rw [pops, pairwise_reverse, pairwise_map]
  rfl

theorem nodup_pops (hkf : kf.Nodup) : (pops kf ks kd).Nodup := by
  rw [pops, nodup_reverse]
  refine Nodup.map_on (fun k hk k' _ hkk => ?_) (hkf.filter _)
  rw [mem_filter, decide_eq_true_eq] at hk
  exact (idxOf_inj hk.2.2).mp hkk

/-- In the fork itself the removed keys are in order. -/
theorem removalsOrdered_self (hkf : kf.Nodup) : RemovalsOrdered kf ks kf := by
  refine Pairwise.filter _ ?_
  rw [pairwise_iff_getElem]
  intro i j hi hj hij
  rw [hkf.idxOf_getElem, hkf.idxOf_getElem]
  exact hij

/-- If the destination is the source, it has none of the keys that the source has removed. -/
theorem removalsOrdered_same (kf ks : List P.Val) : RemovalsOrdered kf ks ks := by
  have hnil : (kf.filter fun k => k ∉ ks ∧ k ∈ ks) = [] := by
    rw [filter_eq_nil_iff]
    intro k _ hk
    rw [decide_eq_true_eq] at hk
    exact hk.1 hk.2
  unfold RemovalsOrdered
  rw [hnil]
  exact Pairwise.nil

/-- A key whose entry in the source is the fork's is neither added nor changed. -/
theorem not_changed_of_eq (hk : k ∈ ks) (hsame : entry S (keymap ks) k = entry F (keymap kf) k)
    (hS : keysOf key S = .ok ks) :
    k ∈ kf ∧ k ∉ (analyze h F S kf ks).addedKeys ∧ k ∉ (analyze h F S kf ks).changedKeys := by
  obtain ⟨_, e, _, _, he, _⟩ := exists_entry hS hk
  have hkf : k ∈ kf := mem_of_entry (hsame ▸ he)
  refine ⟨hkf, fun hadd => (mem_addedKeys.mp hadd).2 hkf, fun hch => ?_⟩
  exact (mem_changedKeys.mp hch).2.2 (by rw [hsame])

variable {e e' : Rev P}

/-- The source has changed or added the key. -/
theorem mem_added_or_changed (he : entry S (keymap ks) k = some e)
    (hne : some (h e) ≠ (entry F (keymap kf) k).map h) :
    k ∉ kf ∧ k ∈ (analyze h F S kf ks).addedKeys ∨
      k ∈ kf ∧ k ∈ (analyze h F S kf ks).changedKeys := by
  have hks := mem_of_entry he
  by_cases hkf : k ∈ kf
  · refine .inr ⟨hkf, mem_changedKeys.mpr ⟨hkf, hks, ?_⟩⟩
    rw [he]
    exact fun heq => hne heq.symm
  · exact .inl ⟨hkf, mem_addedKeys.mpr ⟨hks, hkf⟩⟩

/-- The value of a key in a list in which nothing is missing. -/
theorem entry_reduceOption (hkm : km.Nodup) (hl : Forall₂ (HasKey key) l km)
    (hnone : none ∉ l) {x : Option (Rev P)} (hx : x ∈ l) (hk : HasKey key x k) :
    ∃ y, x = some y ∧ entry l.reduceOption (keymap km) k = some y := by
  rcases x with _ | y
  · exact absurd hx hnone
  · refine ⟨y, rfl, (entry_eq_some_iff (keysOf_reduceOption hl hnone) hkm).mpr ⟨?_, hk y rfl⟩⟩
    exact reduceOption_mem_iff.mpr hx

/-- A field whose lists in the source and in the destination are the same. -/
theorem keywise_same (hS : keysOf key S = .ok ks) (hks : ks.Nodup) :
    Keywise h R key F S S S kf ks ks ks where
  keys := hS
  nodup := hks
  mem k := by tauto
  source k e he hne heq := by
    rw [he] at heq
    exact absurd heq hne
  untouched k _ := rfl

/-- A field that the destination has not changed. -/
theorem keywise_source (hS : keysOf key S = .ok ks) (hks : ks.Nodup)
    (hR : KeepsKeys key R S) (hnone : none ∉ l)
    (hputs : Puts (position ks) (FromEntry R S ks)
      ((analyze h F S kf ks).addedKeys ++ (analyze h F S kf ks).changedKeys) (S.map some) l) :
    Keywise h R key F S F l.reduceOption kf ks kf ks where
  keys := keysOf_reduceOption (puts_hasKey hS hR hputs) hnone
  nodup := hks
  mem k := by tauto
  source k e he hne _ := by
    have hmem : k ∈ (analyze h F S kf ks).addedKeys ++ (analyze h F S kf ks).changedKeys := by
      rw [mem_append]
      exact (mem_added_or_changed he hne).imp And.right And.right
    obtain ⟨i, hi⟩ := exists_position (mem_of_entry he)
    obtain ⟨x, hx, hfrom⟩ := hputs.put k hmem i hi
    obtain ⟨y, rfl, hy⟩ := entry_reduceOption hks (puts_hasKey hS hR hputs) hnone
      (mem_of_getElem? hx) (hfrom.hasKey hS hR)
    obtain ⟨e', he', hret⟩ := hfrom
    rw [he] at he'
    rw [← some.inj he'] at hret
    exact ⟨y, hy, hret⟩
  untouched k hsame := by
    by_cases hk : k ∈ ks
    · obtain ⟨hkf, hadd, hch⟩ := not_changed_of_eq (h := h) hk hsame hS
      obtain ⟨i, e, hi, hget, he, hkey⟩ := exists_entry hS hk
      have hrest := hputs.rest i ?_
      · rw [getElem?_map, hget] at hrest
        obtain ⟨y, hy, hentry⟩ := entry_reduceOption hks (puts_hasKey hS hR hputs) hnone
          (mem_of_getElem? hrest) (fun e' he' => by rw [← some.inj he', hkey])
        rw [hentry, ← hsame, he, ← some.inj hy]
      · intro k' hk' hpos
        rw [position_inj hpos hi, mem_append] at hk'
        exact hk'.elim hadd hch
    · rw [entry_eq_none hk, ← hsame, entry_eq_none hk]

section Mixed

variable {adds : List (Option (Rev P))} (hk : KeyedLists key F S D kf ks kd)
  (hm : Mixed h R S D ks kd (analyze h F S kf ks) (analyze h F D kf kd) adds l)
include hk hm

/-- The list before the removals has the merged child of a key that only the source has changed. -/
theorem Mixed.source (he : entry S (keymap ks) k = some e)
    (hne : some (h e) ≠ (entry F (keymap kf) k).map h)
    (heq : (entry D (keymap kd) k).map h = (entry F (keymap kf) k).map h) :
    ∃ (i : ℕ) (x : Option (Rev P)), l[i]? = some x ∧
      (kd ++ newKeys kf ks kd)[i]? = some k ∧ R e x := by
  have hfrom : ∀ {x : Option (Rev P)}, FromEntry R S ks k x → R e x := by
    rintro x ⟨e', he', hret⟩
    rw [he] at he'
    rw [some.inj he']
    exact hret
  rcases mem_added_or_changed he hne with ⟨hkf, hadd⟩ | ⟨hkf, hch⟩
  · -- it stands behind the destination's list
    have hkd : k ∉ kd := by
      intro hkd
      obtain ⟨_, e', _, _, he', _⟩ := exists_entry hk.dst hkd
      rw [he', entry_eq_none hkf] at heq
      cases heq
    obtain ⟨j, hj⟩ := mem_iff_getElem?.mp (mem_newKeys.mpr ⟨mem_of_entry he, hkf, hkd⟩)
    have happended := hm.appended
    rw [hk.addedOnly_eq] at happended
    have hlen := happended.length_eq
    have hjlt := lt_of_getElem? hj
    obtain ⟨x, hx⟩ : ∃ x, adds[j]? = some x :=
      ⟨_, getElem?_eq_getElem (hlen ▸ hjlt)⟩
    have hlend := length_keysOf hk.dst
    have hrest := hm.puts.rest (kd.length + j) ?_
    · refine ⟨kd.length + j, x, ?_, ?_, hfrom ?_⟩
      · rw [hrest, getElem?_append_right (by rw [length_map]; omega), length_map,
          ← hlend, Nat.add_sub_cancel_left, hx]
      · rw [getElem?_append_right (by omega), Nat.add_sub_cancel_left, hj]
      · have hget := (forall₂_iff_get.mp happended).2 j hjlt (hlen ▸ hjlt)
        rw [get_eq_getElem, get_eq_getElem] at hget
        rw [getElem?_eq_getElem hjlt] at hj
        rw [getElem?_eq_getElem (hlen ▸ hjlt)] at hx
        rw [some.inj hj, some.inj hx] at hget
        exact hget
    · intro k' _ hpos
      have hlt := lt_of_getElem? (getElem?_of_position hpos)
      omega
  · -- it stands in the place of the destination's
    have hkd : k ∈ kd := by
      obtain ⟨_, f, _, _, hf, _⟩ := exists_entry hk.fork hkf
      rw [hf] at heq
      obtain ⟨d, hd, -⟩ := map_eq_some_iff.mp heq
      exact mem_of_entry hd
    obtain ⟨i, hi⟩ := exists_position hkd
    have hput : k ∈ putKeys h S D ks kd (analyze h F S kf ks) (analyze h F D kf kd) := by
      refine mem_filter.mpr ⟨hch, ?_⟩
      rw [decide_eq_true_eq]
      rintro ⟨hdch, -⟩
      exact (mem_changedKeys.mp hdch).2.2 heq.symm
    obtain ⟨x, hx, hfx⟩ := hm.puts.put k hput i hi
    have hget := getElem?_of_position hi
    refine ⟨i, x, hx, ?_, hfrom hfx⟩
    rw [getElem?_append_left (lt_of_getElem? hget), hget]

/-- The list before the removals has the destination's revision of a key that the source did not
touch. -/
theorem Mixed.untouched (hsame : entry S (keymap ks) k = entry F (keymap kf) k) {i : ℕ}
    {y : Rev P} : (l[i]? = some (some y) ∧ (kd ++ newKeys kf ks kd)[i]? = some k) ↔
      kd[i]? = some k ∧ D[i]? = some y := by
  have hold : kd[i]? = some k → l[i]? = (D[i]?).map some := by
    intro hget
    have hlt := lt_of_getElem? hget
    have hlend := length_keysOf hk.dst
    rw [hm.puts.rest i ?_, getElem?_append_left (by rw [length_map]; omega),
      getElem?_map]
    intro k' hk' hpos
    have hkk : k' = k := by
      have := getElem?_of_position hpos
      rw [hget] at this
      exact (some.inj this).symm
    subst hkk
    have hch := (mem_filter.mp hk').1
    exact (not_changed_of_eq (mem_changedKeys.mp hch).2.1 hsame hk.src).2.2 hch
  constructor
  · rintro ⟨hget, hkey⟩
    by_cases hlt : i < kd.length
    · rw [getElem?_append_left hlt] at hkey
      rw [hold hkey] at hget
      obtain ⟨d, hd, hdy⟩ := map_eq_some_iff.mp hget
      rw [some.inj hdy] at hd
      exact ⟨hkey, hd⟩
    · rw [getElem?_append_right (Nat.not_lt.mp hlt)] at hkey
      obtain ⟨hks, hkf, -⟩ := mem_newKeys.mp (mem_of_getElem? hkey)
      exact absurd (not_changed_of_eq (h := h) hks hsame hk.src).1 hkf
  · rintro ⟨hkey, hget⟩
    refine ⟨by rw [hold hkey, hget]; rfl, ?_⟩
    rw [getElem?_append_left (lt_of_getElem? hkey), hkey]

/-- If the removals are in order, the merged list is the key-wise merge. -/
theorem keywise_mixed (hR : KeepsKeys key R S) (hord : RemovalsOrdered kf ks kd)
    (hnone : none ∉ popAll (pops kf ks kd) l) :
    Keywise h R key F S D (popAll (pops kf ks kd) l).reduceOption kf ks kd
      (popAll (pops kf ks kd) (kd ++ newKeys kf ks kd)) := by
  have hdec := pairwise_pops.mpr hord
  have hnodup := hk.nodup_mixed
  have hkeys := hm.hasKey hk hR
  have hlen := hkeys.length_eq
  have hkm := hnodup.sublist (popAll_sublist (pops kf ks kd) _)
  have hpop := forall₂_popAll (pops kf ks kd) hkeys
  -- what stands at a key that is not removed stays
  have hstay : ∀ {i : ℕ} {x : Option (Rev P)} {k : P.Val}, l[i]? = some x →
      (kd ++ newKeys kf ks kd)[i]? = some k → ¬ (k ∈ kf ∧ k ∉ ks ∧ k ∈ kd) →
      x ∈ popAll (pops kf ks kd) l := by
    intro i x k hx hk hnot
    exact mem_popAll_of_key hdec hnodup hlen hx hk fun j hj hget =>
      hnot ((popped_iff _).mp ⟨j, hj, hget⟩)
  refine ⟨keysOf_reduceOption hpop hnone, hkm, ?_, ?_, ?_⟩
  · intro k
    have hnot : (∀ i ∈ pops kf ks kd, (kd ++ newKeys kf ks kd)[i]? ≠ some k) ↔
        ¬ (k ∈ kf ∧ k ∉ ks ∧ k ∈ kd) := by
      rw [← popped_iff (newKeys kf ks kd)]
      push Not
      rfl
    rw [mem_popAll_of_decreasing hdec hnodup, mem_append, mem_newKeys, hnot]
    by_cases hd : k ∈ kd <;> by_cases hs : k ∈ ks <;> by_cases hf : k ∈ kf <;> simp [hd, hs, hf]
  · intro k e he hne heq
    obtain ⟨i, x, hx, hki, hret⟩ := hm.source hk he hne heq
    have hks := mem_of_entry he
    have hkx : HasKey key x k := by
      rintro y rfl
      rw [hR e (entry_key hk.src he).1 y hret, (entry_key hk.src he).2]
    obtain ⟨y, rfl, hy⟩ := entry_reduceOption hkm hpop hnone
      (hstay hx hki fun hrem => hrem.2.1 hks) hkx
    exact ⟨y, hy, hret⟩
  · intro k hsame
    refine ext fun y => ?_
    rw [entry_eq_some_iff (keysOf_reduceOption hpop hnone) hkm,
      entry_eq_some_iff hk.dst hk.nodup_dst]
    constructor
    · rintro ⟨hy, hyk⟩
      obtain ⟨i, hi⟩ := mem_iff_getElem?.mp
        ((popAll_sublist _ l).subset (reduceOption_mem_iff.mp hy))
      have hilt : i < (kd ++ newKeys kf ks kd).length := hlen ▸ lt_of_getElem? hi
      have hki : (kd ++ newKeys kf ks kd)[i]? = some k := by
        have hget := (forall₂_iff_get.mp hkeys).2 i (hlen ▸ hilt) hilt
        rw [get_eq_getElem, get_eq_getElem] at hget
        rw [getElem?_eq_getElem (hlen ▸ hilt)] at hi
        rw [getElem?_eq_getElem hilt, ← hget y (some.inj hi), hyk]
      obtain ⟨-, hd⟩ := (hm.untouched hk hsame).mp ⟨hi, hki⟩
      exact ⟨mem_of_getElem? hd, hyk⟩
    · rintro ⟨hy, hyk⟩
      obtain ⟨i, hi⟩ := mem_iff_getElem?.mp hy
      have hki : kd[i]? = some k := by rw [← keysOf_getElem? hk.dst hi, hyk]
      obtain ⟨hx, hkx⟩ := (hm.untouched hk hsame).mpr ⟨hki, hi⟩
      refine ⟨reduceOption_mem_iff.mpr (hstay hx hkx ?_), hyk⟩
      rintro ⟨hkf', hks', -⟩
      obtain ⟨_, f, _, _, hf, _⟩ := exists_entry hk.fork hkf'
      rw [entry_eq_none hks', hf] at hsame
      cases hsame

/-- A key-wise merge has its removals in order. -/
theorem ordered_of_keywise (hR : KeepsKeys key R S) (hpops : PopsIn (pops kf ks kd) l)
    (hnone : none ∉ popAll (pops kf ks kd) l)
    (hkey : Keywise h R key F S D (popAll (pops kf ks kd) l).reduceOption kf ks kd km) :
    RemovalsOrdered kf ks kd := by
  have hkeys := hm.hasKey hk hR
  have hkm := hkey.keys
  rw [keysOf_reduceOption (forall₂_popAll _ hkeys) hnone] at hkm
  obtain rfl := Except.ok.inj hkm
  refine pairwise_pops.mp ((popAll_removes_iff hk.nodup_mixed (nodup_pops hk.nodup_fork)
    (hpops.congr hkeys.length_eq) ?_).mp ?_)
  · intro i hi
    have := pops_lt hi
    rw [length_append]
    omega
  · intro i hi k hk hmem
    obtain ⟨hkf', hks', -⟩ := (popped_iff _).mp ⟨i, hi, hk⟩
    exact ((hkey.mem k).mp hmem).2 ⟨hkf', hks'⟩

end Mixed

section

variable (hk : KeyedLists key F S D kf ks kd)
include hk

/-- **A merged list is the key-wise merge exactly if the removals are in order.** -/
theorem fieldMerged_keywise_iff (hDS : sameRevs D S = true → D = S)
    (hDF : sameRevs D F = true → D = F) (hR : KeepsKeys key R S)
    (hl : FieldMerged h R (.keyed key conv) F S D l) (hnone : none ∉ l) :
    KeywiseCorrect h R key F S D l.reduceOption ↔ RemovalsOrdered kf ks kd := by
  cases hl.keyed hk with
  | same hsame =>
    obtain rfl := hDS hsame
    cases hk.src.symm.trans hk.dst
    refine ⟨fun _ => removalsOrdered_same kf ks, fun _ => ⟨kf, ks, ks, ks, hk.fork, hk.src, hk.src,
      ?_⟩⟩
    rw [reduceOption_map_some]
    exact keywise_same hk.src hk.nodup_src
  | source _ hsame hputs =>
    obtain rfl := hDF hsame
    cases hk.fork.symm.trans hk.dst
    exact ⟨fun _ => removalsOrdered_self hk.nodup_fork, fun _ => ⟨kf, ks, kf, ks, hk.fork, hk.src,
      hk.fork, keywise_source hk.src hk.nodup_src hR hnone hputs⟩⟩
  | mixed _ _ hm hpops =>
    constructor
    · rintro ⟨kf', ks', kd', km, hF, hS, hD, hkey⟩
      cases hk.fork.symm.trans hF
      cases hk.src.symm.trans hS
      cases hk.dst.symm.trans hD
      exact ordered_of_keywise hk hm hR hpops hnone hkey
    · intro hord
      exact ⟨kf, ks, kd, _, hk.fork, hk.src, hk.dst, keywise_mixed hk hm hR hord hnone⟩

end

end Voltha.Config
