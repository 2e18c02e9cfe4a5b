import Voltha.Lib.Positions
import Voltha.Config.Objects

/-!
# The keys of a list of children

`AnalyzeChanges` compares two lists of one keyed field through dictionaries from keys to
positions.  This module says what these dictionaries and the lists of added, removed and changed
keys are, first for arbitrary lists, in which a key may stand twice and its last entry counts,
then for lists with unique keys.
-/

namespace Voltha.Config

open List OrderedDict
open Option (bind_none bind_some map_some some some_injective)

variable {P : Proto}

/-- Lists of the same objects are the same. -/
theorem eq_of_sameRevs {s : State P} :
    ∀ {l l' : List (Rev P)}, (∀ e ∈ l, s.Has e) → (∀ e ∈ l', s.Has e) → sameRevs l l' = true →
      l = l' := by
  intro l l' hl hl' hs
  rw [sameRevs, decide_eq_true_eq] at hs
  have hobj : ∀ {m : List (Rev P)}, (∀ e ∈ m, s.Has e) →
      (m.map Rev.ref).map s.objects = m.map some := by
    intro m hm
    rw [map_map]
    exact map_congr_left fun e he => hm e he
  have heq := hobj hl
  rw [hs, hobj hl'] at heq
  exact ((map_injective_iff.mpr (some_injective _)) heq).symm

/-! ## Keys of a list -/

theorem keysOf_eq_ok {key : String} :
    ∀ {l : List (Rev P)} {ks : List P.Val},
      keysOf key l = .ok ks ↔ l.map (fun r => P.getattr r.data key) = ks.map some
  | [], ks => by
    rw [keysOf, map_nil]
    constructor
    · intro h
      cases h
      rfl
    · intro h
      rw [map_eq_nil_iff.mp h.symm]
  | r :: l, ks => by
    rw [keysOf, map_cons]
    rcases hk : P.getattr r.data key with _ | k
    · constructor
      · intro h
        cases h
      · intro h
        rcases ks with _ | ⟨k', ks⟩
        · cases h
        · rw [map_cons, cons.injEq] at h
          cases h.1
    · dsimp only
      rcases hl : keysOf key l with e | ks'
      · constructor
        · intro h
          cases h
        · intro h
          rcases ks with _ | ⟨k', ks⟩
          · cases h
          · rw [map_cons, cons.injEq] at h
            rw [keysOf_eq_ok.mpr h.2] at hl
            cases hl
      · have ih := keysOf_eq_ok.mp hl
        rw [ih]
        constructor
        · intro h
          cases h
          rfl
        · intro h
          rw [← map_cons, (map_injective_iff.mpr (some_injective _)).eq_iff] at h
          exact congrArg Except.ok h

variable {key : String} {l : List (Rev P)} {ks : List P.Val} {k : P.Val} {i : ℕ} {e : Rev P}

section

variable (h : keysOf key l = .ok ks)
include h

theorem length_keysOf : ks.length = l.length := by
  have := congrArg length (keysOf_eq_ok.mp h)
  rw [length_map, length_map] at this
  exact this.symm

theorem keysOf_getElem? (he : l[i]? = some e) : P.getattr e.data key = ks[i]? := by
  have hi := congrArg (fun m => m[i]?) (keysOf_eq_ok.mp h)
  rw [getElem?_map, getElem?_map, he, map_some] at hi
  rcases hk : ks[i]? with _ | k
  · rw [hk] at hi
    cases hi
  · rw [hk, map_some] at hi
    exact some.inj hi

/-- An entry and its key stand at the same position. -/
theorem getElem?_iff_keysOf :
    ks[i]? = some k ↔ ∃ e, l[i]? = some e ∧ P.getattr e.data key = some k := by
  constructor
  · intro hk
    have hlt : i < l.length := by
      rw [← length_keysOf h]
      exact lt_of_getElem? hk
    have he : l[i]? = some l[i] := getElem?_eq_getElem hlt
    exact ⟨l[i], he, (keysOf_getElem? h he).trans hk⟩
  · rintro ⟨e, he, hk⟩
    rw [← keysOf_getElem? h he, hk]

theorem mem_keysOf : k ∈ ks ↔ ∃ e ∈ l, P.getattr e.data key = some k := by
  rw [mem_iff_getElem?]
  constructor
  · rintro ⟨i, hi⟩
    obtain ⟨e, he, hk⟩ := (getElem?_iff_keysOf h).mp hi
    exact ⟨e, mem_of_getElem? he, hk⟩
  · rintro ⟨e, he, hk⟩
    obtain ⟨i, hi⟩ := mem_iff_getElem?.mp he
    exact ⟨i, (getElem?_iff_keysOf h).mpr ⟨e, hi, hk⟩⟩

/-- Every entry has a key. -/
theorem exists_key (he : e ∈ l) : ∃ k ∈ ks, P.getattr e.data key = some k := by
  obtain ⟨i, hi⟩ := mem_iff_getElem?.mp he
  have hlt : i < ks.length := by
    rw [length_keysOf h]
    exact lt_of_getElem? hi
  refine ⟨ks[i], getElem_mem hlt, ?_⟩
  rw [keysOf_getElem? h hi, getElem?_eq_getElem hlt]

end

variable {l' : List (Rev P)}

/-- Lists whose entries have pairwise one key have one list of keys. -/
theorem keysOf_congr
    (h : l.map (fun r => P.getattr r.data key) = l'.map fun r => P.getattr r.data key)
    (hk : keysOf key l = .ok ks) : keysOf key l' = .ok ks := by
  rw [keysOf_eq_ok, ← h, ← keysOf_eq_ok]
  exact hk

/-- An entry is replaced by one with its key. -/
theorem keysOf_set (h : keysOf key l = .ok ks) {new : Rev P} (hi : l[i]? = some e)
    (hk : P.getattr new.data key = P.getattr e.data key) : keysOf key (l.set i new) = .ok ks := by
  refine keysOf_congr ?_ h
  refine ext_getElem? fun j => ?_
  rw [getElem?_map, getElem?_map]
  by_cases hij : i = j
  · subst hij
    rw [getElem?_set_self (lt_of_getElem? hi), hi, map_some,
      map_some, hk]
  · rw [getElem?_set_ne hij]

theorem keysOf_append {ks' : List P.Val} (h : keysOf key l = .ok ks)
    (h' : keysOf key l' = .ok ks') : keysOf key (l ++ l') = .ok (ks ++ ks') := by
  rw [keysOf_eq_ok, map_append, map_append, keysOf_eq_ok.mp h, keysOf_eq_ok.mp h']

/-- The keys of a part of a list. -/
theorem keysOf_sublist (hsub : l'.Sublist l) (h : keysOf key l = .ok ks) :
    ∃ ks', keysOf key l' = .ok ks' ∧ ks'.Sublist ks := by
  have hs := hsub.map fun r => P.getattr r.data key
  rw [keysOf_eq_ok.mp h] at hs
  obtain ⟨ks', hks', heq⟩ := sublist_map_iff.mp hs
  exact ⟨ks', keysOf_eq_ok.mpr heq, hks'⟩

/-- In a list with unique keys an entry is determined by its key. -/
theorem eq_of_key_eq (h : keysOf key l = .ok ks) (hnodup : ks.Nodup) {e' : Rev P}
    (he : e ∈ l) (he' : e' ∈ l) (hk : P.getattr e.data key = some k)
    (hk' : P.getattr e'.data key = some k) : e = e' := by
  obtain ⟨i, hi⟩ := mem_iff_getElem?.mp he
  obtain ⟨j, hj⟩ := mem_iff_getElem?.mp he'
  have hki := (getElem?_iff_keysOf h).mpr ⟨e, hi, hk⟩
  have hkj := (getElem?_iff_keysOf h).mpr ⟨e', hj, hk'⟩
  have hij := (getElem?_inj (lt_of_getElem? hki) hnodup).mp
    (hki.trans hkj.symm)
  rw [hij, hj] at hi
  exact (some.inj hi).symm

/-! ## Positions of keys -/

/-- The position of a key, as `keymap` has it. -/
def position (ks : List P.Val) (k : P.Val) : Option ℕ := (keymap ks).lookup k

theorem entry_eq (l : List (Rev P)) (ks : List P.Val) (k : P.Val) :
    entry l (keymap ks) k = (position ks k).bind fun i => l[i]? := rfl

theorem map_fst_zipIdx (ks : List P.Val) (n : ℕ) : (ks.zipIdx n).map Prod.fst = ks := by
  simp

theorem mem_keymap : k ∈ (keymap ks).map Prod.fst ↔ k ∈ ks := by
  rw [keymap, (ofList_spec _).2.1, map_fst_zipIdx]

theorem nodup_keymap (ks : List P.Val) : ((keymap ks).map Prod.fst).Nodup :=
  (ofList_spec _).1

/-- A key stands at its position. -/
theorem getElem?_of_position (h : position ks k = some i) : ks[i]? = some k := by
  have hmem := (ofList_spec _).2.2 _ (mem_of_lookup h)
  exact mem_zipIdx_iff_getElem?.mp hmem

theorem exists_position (h : k ∈ ks) : ∃ i, position ks k = some i :=
  exists_lookup (mem_keymap.mpr h)

/-- Different keys have different positions. -/
theorem position_inj {k' : P.Val} (h : position ks k = some i)
    (h' : position ks k' = some i) : k = k' := by
  have := getElem?_of_position h
  rw [getElem?_of_position h'] at this
  exact (some.inj this).symm

/-- In a list without repetitions the position of a key is where it stands. -/
theorem position_eq_some_iff (hnodup : ks.Nodup) : position ks k = some i ↔ ks[i]? = some k := by
  have hmap : keymap ks = ks.zipIdx := by
    rw [keymap, ofList_of_nodup]
    rw [map_fst_zipIdx]
    exact hnodup
  rw [position, hmap, lookup_zipIdx hnodup]
  simp

theorem keys_keymap (hnodup : ks.Nodup) : (keymap ks).map Prod.fst = ks := by
  rw [keymap, ofList_of_nodup]
  · exact map_fst_zipIdx ks 0
  · rw [map_fst_zipIdx]
    exact hnodup

/-- A key of a list has an entry there. -/
theorem exists_entry (h : keysOf key l = .ok ks) (hk : k ∈ ks) :
    ∃ i e, position ks k = some i ∧ l[i]? = some e ∧ entry l (keymap ks) k = some e ∧
      P.getattr e.data key = some k := by
  obtain ⟨i, hi⟩ := exists_position hk
  obtain ⟨e, he, hek⟩ := (getElem?_iff_keysOf h).mp (getElem?_of_position hi)
  refine ⟨i, e, hi, he, ?_, hek⟩
  rw [entry_eq, hi, bind_some, he]

theorem entry_eq_none (hk : k ∉ ks) : entry l (keymap ks) k = none := by
  rcases hl : position ks k with _ | i
  · rw [entry_eq, hl, bind_none]
  · exact absurd (mem_of_getElem? (getElem?_of_position hl)) hk

/-- A key that has an entry is there. -/
theorem mem_of_entry (he : entry l (keymap ks) k = some e) : k ∈ ks := by
  by_contra hk
  rw [entry_eq_none hk] at he
  cases he

/-- The entry of a key has the key. -/
theorem entry_key (h : keysOf key l = .ok ks) (he : entry l (keymap ks) k = some e) :
    e ∈ l ∧ P.getattr e.data key = some k := by
  have hk : k ∈ ks := by
    by_contra hk
    rw [entry_eq_none hk] at he
    cases he
  obtain ⟨i, e', -, hget, he', hkey⟩ := exists_entry h hk
  rw [he'] at he
  obtain rfl := some.inj he
  exact ⟨mem_of_getElem? hget, hkey⟩

/-- In a list with unique keys the entry of a key is the one that has it. -/
theorem entry_eq_some_iff (h : keysOf key l = .ok ks) (hnodup : ks.Nodup) :
    entry l (keymap ks) k = some e ↔ e ∈ l ∧ P.getattr e.data key = some k := by
  refine ⟨entry_key h, ?_⟩
  rintro ⟨he, hk⟩
  obtain ⟨i, e', -, hget, he', hkey⟩ := exists_entry h ((mem_keysOf h).mpr ⟨e, he, hk⟩)
  rw [he', eq_of_key_eq h hnodup he (mem_of_getElem? hget) hk hkey]

/-! ## Added, removed and changed keys -/

variable {hashOf : Rev P → Option P.Hash} {l₁ l₂ : List (Rev P)} {ks₁ ks₂ : List P.Val}

theorem mem_addedKeys : k ∈ (analyze hashOf l₁ l₂ ks₁ ks₂).addedKeys ↔ k ∈ ks₂ ∧ k ∉ ks₁ := by
  simp only [analyze, mem_filter, mem_keymap, decide_eq_true_eq]

theorem mem_removedKeys : k ∈ (analyze hashOf l₁ l₂ ks₁ ks₂).removedKeys ↔ k ∈ ks₁ ∧ k ∉ ks₂ := by
  simp only [analyze, mem_filter, mem_keymap, decide_eq_true_eq]

theorem mem_changedKeys :
    k ∈ (analyze hashOf l₁ l₂ ks₁ ks₂).changedKeys ↔ k ∈ ks₁ ∧ k ∈ ks₂ ∧
      (entry l₁ (keymap ks₁) k).map hashOf ≠ (entry l₂ (keymap ks₂) k).map hashOf := by
  simp only [analyze, mem_filter, mem_keymap, decide_eq_true_eq]

/-- For lists with unique keys, the keys in the order of the lists. -/
theorem addedKeys_eq (h : ks₂.Nodup) :
    (analyze hashOf l₁ l₂ ks₁ ks₂).addedKeys = ks₂.filter fun k => k ∉ ks₁ := by
  show ((keymap ks₂).map Prod.fst).filter (fun k => k ∉ (keymap ks₁).map Prod.fst) = _
  rw [keys_keymap h]
  exact filter_congr fun k _ => decide_eq_decide.mpr (not_congr mem_keymap)

theorem removedKeys_eq (h : ks₁.Nodup) :
    (analyze hashOf l₁ l₂ ks₁ ks₂).removedKeys = ks₁.filter fun k => k ∉ ks₂ := by
  show ((keymap ks₁).map Prod.fst).filter (fun k => k ∉ (keymap ks₂).map Prod.fst) = _
  rw [keys_keymap h]
  exact filter_congr fun k _ => decide_eq_decide.mpr (not_congr mem_keymap)

variable (hashOf l₁ l₂ ks₁ ks₂)

@[simp] theorem analyze_keymap1 : (analyze hashOf l₁ l₂ ks₁ ks₂).keymap1 = keymap ks₁ := rfl

@[simp] theorem analyze_keymap2 : (analyze hashOf l₁ l₂ ks₁ ks₂).keymap2 = keymap ks₂ := rfl

theorem nodup_addedKeys : (analyze hashOf l₁ l₂ ks₁ ks₂).addedKeys.Nodup :=
  (nodup_keymap ks₂).filter _

theorem nodup_changedKeys : (analyze hashOf l₁ l₂ ks₁ ks₂).changedKeys.Nodup :=
  (nodup_keymap ks₁).filter _

end Voltha.Config
