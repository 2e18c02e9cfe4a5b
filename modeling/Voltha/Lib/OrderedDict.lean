import Mathlib

/-!
# Insertion-ordered dictionaries

A dictionary that remembers the order in which its keys first came, as an association
list.  Setting a key that is there replaces its value and keeps its place.

* `OrderedDict.ofList`: the dictionary built from a list of pairs.
* `ofList_of_nodup`: pairs without a repeated key are their own dictionary.
* `ofList_spec`: the keys of such a dictionary, and their values.
* `addAll`: values added under their keys, the first value of a key staying; `mem_addAll` and
  `mem_keys_addAll` say what is in it.
* `lookup_zipIdx`: in the dictionary from entries to positions of a list without
  repetitions, an entry is found at its position.
-/

namespace Voltha.OrderedDict

open List

variable {κ α : Type} [DecidableEq κ]

/-- Set the value of a key. -/
def insert (k : κ) (v : α) : List (κ × α) → List (κ × α)
  | [] => [(k, v)]
  | p :: l => if p.1 = k then (k, v) :: l else p :: insert k v l

/-- The value of a key. -/
def get (d : List (κ × α)) (k : κ) : Option α := d.lookup k

/-- The dictionary of a list of pairs, set one after the other. -/
def ofList (l : List (κ × α)) : List (κ × α) := l.foldl (fun d p => insert p.1 p.2 d) []

theorem insert_of_notMem {k : κ} {v : α} :
    ∀ {d : List (κ × α)}, k ∉ d.map Prod.fst → insert k v d = d ++ [(k, v)]
  | [], _ => rfl
  | p :: d, h => by
    rw [map_cons, mem_cons, not_or] at h
    rw [insert, if_neg (Ne.symm h.1), insert_of_notMem h.2, cons_append]

theorem foldl_insert_of_nodup :
    ∀ {l d : List (κ × α)}, ((d ++ l).map Prod.fst).Nodup →
      l.foldl (fun d p => insert p.1 p.2 d) d = d ++ l
  | [], d, _ => by rw [foldl_nil, append_nil]
  | p :: l, d, h => by
    have hp : p.1 ∉ d.map Prod.fst := by
      rw [map_append, map_cons] at h
      intro hmem
      exact disjoint_of_nodup_append h hmem mem_cons_self
    rw [foldl_cons, insert_of_notMem hp]
    have happ : d ++ [p] ++ l = d ++ p :: l := by
      rw [append_assoc, singleton_append]
    rw [foldl_insert_of_nodup (d := d ++ [p]) (by rw [happ]; exact h), happ]

/-- **Pairs without a repeated key are their own dictionary.** -/
theorem ofList_of_nodup {l : List (κ × α)} (h : (l.map Prod.fst).Nodup) : ofList l = l :=
  foldl_insert_of_nodup (d := []) h

/-! ## Keys and values -/

theorem mem_keys_insert {k k' : κ} {v : α} :
    ∀ {d : List (κ × α)}, k' ∈ (insert k v d).map Prod.fst ↔ k' = k ∨ k' ∈ d.map Prod.fst
  | [] => by rw [insert, map_singleton, mem_singleton, map_nil]; simp
  | p :: d => by
    rw [insert]
    split
    · next hp => rw [map_cons, map_cons, mem_cons, mem_cons, hp, or_self_left]
    · rw [map_cons, map_cons, mem_cons, mem_cons, mem_keys_insert]
      tauto

theorem keys_insert_of_mem {k : κ} {v : α} :
    ∀ {d : List (κ × α)}, k ∈ d.map Prod.fst → (insert k v d).map Prod.fst = d.map Prod.fst
  | p :: d, h => by
    rw [insert]
    split
    · next hp => rw [map_cons, map_cons, hp]
    · next hp =>
      have hmem : k ∈ d.map Prod.fst := (mem_cons.1 h).resolve_left (Ne.symm hp)
      rw [map_cons, map_cons, keys_insert_of_mem hmem]

theorem nodup_keys_insert {k : κ} {v : α} :
    ∀ {d : List (κ × α)}, (d.map Prod.fst).Nodup → ((insert k v d).map Prod.fst).Nodup
  | [], _ => nodup_singleton k
  | p :: d, h => by
    rw [map_cons, nodup_cons] at h
    rw [insert]
    split
    · next hp =>
      rw [map_cons, nodup_cons]
      exact ⟨hp ▸ h.1, h.2⟩
    · next hp =>
      rw [map_cons, nodup_cons, mem_keys_insert, not_or]
      exact ⟨⟨hp, h.1⟩, nodup_keys_insert h.2⟩

theorem mem_insert {k : κ} {v : α} {p : κ × α} :
    ∀ {d : List (κ × α)}, p ∈ insert k v d → p = (k, v) ∨ p ∈ d
  | [], h => .inl (mem_singleton.mp h)
  | q :: d, h => by
    rw [insert] at h
    split at h
    · rcases mem_cons.mp h with h | h
      · exact .inl h
      · exact .inr (mem_cons_of_mem _ h)
    · rcases mem_cons.mp h with rfl | h
      · exact .inr mem_cons_self
      · rcases mem_insert h with h | h
        · exact .inl h
        · exact .inr (mem_cons_of_mem _ h)

/-- What is in a dictionary that is built from a list: the keys of the list, each once, with values
that they have there. -/
theorem ofList_spec (l : List (κ × α)) :
    ((ofList l).map Prod.fst).Nodup ∧ (∀ k, k ∈ (ofList l).map Prod.fst ↔ k ∈ l.map Prod.fst) ∧
      ∀ p ∈ ofList l, p ∈ l := by
  induction l using List.reverseRecOn with
  | nil => exact ⟨nodup_nil, fun _ => Iff.rfl, fun _ h => h⟩
  | append_singleton l p ih =>
    obtain ⟨hnodup, hkeys, hmem⟩ := ih
    have hfold : ofList (l ++ [p]) = insert p.1 p.2 (ofList l) := by
      rw [ofList, foldl_append]
      rfl
    rw [hfold]
    refine ⟨nodup_keys_insert hnodup, fun k => ?_, fun q hq => ?_⟩
    · rw [mem_keys_insert, hkeys, map_append, mem_append, or_comm]
      rw [map_singleton, mem_singleton]
    · rcases mem_insert hq with hq | hq
      · exact mem_append_right _ (mem_singleton.mpr hq)
      · exact mem_append_left _ (hmem q hq)

variable {d : List (κ × α)} {k : κ} {p : κ × α} {l : List α} {v : α}

theorem mem_of_lookup (h : d.lookup k = some v) : (k, v) ∈ d := by
  obtain ⟨l₁, l₂, rfl, -⟩ := lookup_eq_some_iff.mp h
  exact mem_append_right _ mem_cons_self

theorem exists_lookup (h : k ∈ d.map Prod.fst) : ∃ v, d.lookup k = some v := by
  rcases hl : d.lookup k with _ | v
  · obtain ⟨p, hp, rfl⟩ := mem_map.mp h
    have := lookup_eq_none_iff.mp hl p hp
    simp at this
  · exact ⟨v, rfl⟩

/-- A function is applied to all values. -/
theorem lookup_map_snd {β : Type} (g : α → β) (k : κ) :
    ∀ d : List (κ × α), (d.map fun p => (p.1, g p.2)).lookup k = (d.lookup k).map g
  | [] => rfl
  | p :: d => by
    rw [map_cons, lookup_cons, lookup_cons]
    split
    · rfl
    · exact lookup_map_snd g k d

/-- A dictionary whose values are a function of its keys. -/
theorem lookup_map_self {l : List κ} (g : κ → α) (h : k ∈ l) :
    (l.map fun k => (k, g k)).lookup k = some (g k) := by
  induction l with
  | nil => exact absurd h not_mem_nil
  | cons x l ih =>
    rw [map_cons, lookup_cons]
    by_cases hx : k = x
    · subst hx
      rw [beq_self_eq_true]
    · rw [beq_false_of_ne hx]
      exact ih ((mem_cons.mp h).resolve_left hx)

/-- An entry of a list without repetitions is found at its position. -/
theorem lookup_zipIdx {l : List κ} (h : l.Nodup) {i : ℕ} (n : ℕ) :
    (l.zipIdx n).lookup k = some i ↔ n ≤ i ∧ l[i - n]? = some k := by
  induction l generalizing n with
  | nil => simp
  | cons x l ih =>
    rw [nodup_cons] at h
    rw [zipIdx_cons, lookup_cons]
    by_cases hk : k = x
    · subst hk
      simp only [beq_self_eq_true, Option.some.injEq]
      constructor
      · rintro rfl
        simp
      · rintro ⟨hn, hi⟩
        rcases hd : i - n with _ | j
        · omega
        · rw [hd, getElem?_cons_succ] at hi
          exact absurd (mem_of_getElem? hi) h.1
    · rw [beq_false_of_ne hk]
      simp only [ih h.2]
      constructor
      · rintro ⟨hn, hi⟩
        refine ⟨by omega, ?_⟩
        rw [show i - n = (i - (n + 1)) + 1 by omega, getElem?_cons_succ]
        exact hi
      · rintro ⟨hn, hi⟩
        rcases hd : i - n with _ | j
        · rw [hd, getElem?_cons_zero] at hi
          exact absurd (Option.some.inj hi).symm hk
        · rw [hd, getElem?_cons_succ] at hi
          refine ⟨by omega, ?_⟩
          rw [show i - (n + 1) = j by omega]
          exact hi

theorem lookup_insert {k' : κ} {v : α} :
    ∀ {d : List (κ × α)}, (insert k v d).lookup k' = if k' = k then some v else d.lookup k'
  | [] => by
    rw [insert, lookup_cons, lookup_nil]
    by_cases h : k' = k
    · simp [h]
    · rw [beq_false_of_ne h, if_neg h]
  | p :: d => by
    rw [insert]
    by_cases hp : p.1 = k
    · rw [if_pos hp, lookup_cons, lookup_cons, hp]
      by_cases h : k' = k
      · simp [h]
      · rw [beq_false_of_ne h, if_neg h]
    · rw [if_neg hp, lookup_cons, lookup_cons, lookup_insert]
      by_cases h : k' = k
      · rw [if_pos h, if_pos h, beq_false_of_ne fun heq => hp (heq.symm.trans h)]
      · rw [if_neg h, if_neg h]

theorem get_insert (k k' : κ) (v : α) (d : List (κ × α)) :
    get (insert k v d) k' = if k' = k then some v else get d k' :=
  lookup_insert

/-- Setting a key to the value that it has changes nothing. -/
theorem insert_of_get {v : α} :
    ∀ {d : List (κ × α)}, get d k = some v → insert k v d = d
  | [], h => nomatch h
  | p :: d, h => by
    rw [insert]
    by_cases hp : p.1 = k
    · rw [get, lookup_cons, ← hp, beq_self_eq_true] at h
      rw [if_pos hp, ← hp, ← Option.some.inj h]
    · rw [get, lookup_cons, beq_false_of_ne (Ne.symm hp)] at h
      rw [if_neg hp, insert_of_get h]

/-- The number of entries of all lists of a dictionary, when one of the lists is set. -/
theorem length_flatMap_insert {β : Type} {l : List β} (l' : List β) :
    ∀ {d : List (κ × List β)}, get d k = some l →
      ((insert k l' d).flatMap Prod.snd).length + l.length =
        (d.flatMap Prod.snd).length + l'.length
  | [], h => nomatch h
  | p :: d, h => by
    rw [insert]
    by_cases hp : p.1 = k
    · rw [get, lookup_cons, ← hp, beq_self_eq_true] at h
      rw [if_pos hp, flatMap_cons, flatMap_cons, length_append, length_append,
        ← Option.some.inj h]
      dsimp only
      omega
    · rw [get, lookup_cons, beq_false_of_ne (Ne.symm hp)] at h
      have ih := length_flatMap_insert l' h
      rw [if_neg hp, flatMap_cons, flatMap_cons, length_append, length_append]
      omega

theorem lookup_filter_ne {k' : κ} :
    ∀ {d : List (κ × α)},
      (d.filter fun p => p.1 ≠ k).lookup k' = if k' = k then none else d.lookup k'
  | [] => by simp
  | p :: d => by
    rw [filter_cons]
    by_cases hp : p.1 = k
    · rw [if_neg (by simpa using hp), lookup_filter_ne, lookup_cons, hp]
      by_cases h : k' = k
      · rw [if_pos h, if_pos h]
      · rw [if_neg h, if_neg h, beq_false_of_ne h]
    · rw [if_pos (by simpa using hp), lookup_cons, lookup_cons, lookup_filter_ne]
      by_cases h : k' = k
      · rw [if_pos h, if_pos h, beq_false_of_ne fun heq => hp (heq.symm.trans h)]
      · rw [if_neg h, if_neg h]

/-- In a dictionary, a key is found with the one value that it has. -/
theorem lookup_eq_some_iff_mem (h : (d.map Prod.fst).Nodup) : d.lookup k = some v ↔ (k, v) ∈ d := by
  constructor
  · exact mem_of_lookup
  · intro hmem
    obtain ⟨w, hw⟩ := exists_lookup (mem_map.mpr ⟨_, hmem, rfl⟩)
    have heq := inj_on_of_nodup_map h hmem (mem_of_lookup hw) rfl
    rw [hw, (Prod.mk.inj heq).2]

/-! ## Keys that are taken out, and keys that are missing -/

/-- Take a key out. -/
def erase (k : κ) (d : List (κ × α)) : List (κ × α) := d.filter fun p => p.1 ≠ k

theorem get_erase (k k' : κ) (d : List (κ × α)) :
    get (erase k d) k' = if k' = k then none else get d k' :=
  lookup_filter_ne

theorem get_cons (p : κ × α) (d : List (κ × α)) (k : κ) :
    get (p :: d) k = if k = p.1 then some p.2 else get d k := by
  rw [get, lookup_cons]
  by_cases h : k = p.1
  · rw [if_pos h, h, beq_self_eq_true]
  · rw [if_neg h, beq_false_of_ne h, get]

theorem get_nil (k : κ) : get ([] : List (κ × α)) k = none := rfl

/-- Only the empty dictionary has no key. -/
theorem eq_nil_iff : d = [] ↔ ∀ k, get d k = none := by
  constructor
  · rintro rfl k
    exact get_nil k
  · intro h
    rcases d with _ | ⟨p, d⟩
    · rfl
    · have hp := h p.1
      rw [get_cons, if_pos rfl] at hp
      cases hp

theorem get_of_mem (h : (d.map Prod.fst).Nodup) (hp : p ∈ d) :
    get d p.1 = some p.2 := (lookup_eq_some_iff_mem h).mpr hp

theorem mem_keys_of_get (h : get d k = some v) :
    k ∈ d.map Prod.fst := mem_map_of_mem (mem_of_lookup h)

theorem get_eq_none_iff : get d k = none ↔ k ∉ d.map Prod.fst := by
  constructor
  · intro h hmem
    obtain ⟨v, hv⟩ := exists_lookup hmem
    rw [get, hv] at h
    cases h
  · intro h
    rcases hv : get d k with _ | v
    · rfl
    · exact absurd (mem_keys_of_get hv) h

/-- The later of two values of a key counts. -/
theorem insert_insert (k : κ) (v w : α) :
    ∀ d : List (κ × α), insert k v (insert k w d) = insert k v d
  | [] => if_pos rfl
  | p :: d => by
    by_cases hp : p.1 = k
    · rw [insert, if_pos hp, insert, if_pos rfl, insert, if_pos hp]
    · rw [insert, if_neg hp, insert, if_neg hp, insert, if_neg hp, insert_insert k v w d]

theorem get_foldl_erase (k : κ) :
    ∀ (ks : List κ) (d : List (κ × α)),
      get (ks.foldl (fun d k => erase k d) d) k = if k ∈ ks then none else get d k
  | [], d => by rw [foldl_nil, if_neg not_mem_nil]
  | k' :: ks, d => by
    rw [foldl_cons, get_foldl_erase k ks, get_erase]
    by_cases hk : k ∈ ks
    · rw [if_pos hk, if_pos (mem_cons_of_mem _ hk)]
    · by_cases heq : k = k'
      · rw [if_neg hk, if_pos heq, if_pos (heq ▸ mem_cons_self)]
      · rw [if_neg hk, if_neg heq, if_neg fun h => (mem_cons.mp h).elim heq hk]

/-- A dictionary from which all its keys are taken out. -/
theorem foldl_erase_keys (d : List (κ × α)) :
    (d.map Prod.fst).foldl (fun d k => erase k d) d = [] := by
  refine eq_nil_iff.mpr fun k => ?_
  rw [get_foldl_erase]
  split
  · rfl
  · next hk => exact get_eq_none_iff.mpr hk

/-! ## Values that know their keys -/

/-- Set the value of a key unless the key is there. -/
def setNew (k : κ) (v : α) (d : List (κ × α)) : List (κ × α) :=
  if k ∈ d.map Prod.fst then d else d ++ [(k, v)]

/-- Add values one after the other; the first value of a key stays. -/
def addAll (key : α → κ) (d : List (κ × α)) (l : List α) : List (κ × α) :=
  l.foldl (fun d v => setNew (key v) v d) d

variable {key : α → κ}

theorem addAll_append (d : List (κ × α)) (l l' : List α) :
    addAll key d (l ++ l') = addAll key (addAll key d l) l' := foldl_append ..

theorem mem_keys_setNew {k' : κ} :
    k' ∈ (setNew k v d).map Prod.fst ↔ k' ∈ d.map Prod.fst ∨ k' = k := by
  unfold setNew
  split
  · next h =>
    constructor
    · exact .inl
    · rintro (h' | rfl)
      · exact h'
      · exact h
  · simp

theorem mem_keys_addAll :
    ∀ {d : List (κ × α)}, k ∈ (addAll key d l).map Prod.fst ↔
      k ∈ d.map Prod.fst ∨ ∃ v ∈ l, key v = k := by
  induction l with
  | nil => simp [addAll]
  | cons v l ih =>
    intro d
    change k ∈ (addAll key (setNew (key v) v d) l).map Prod.fst ↔ _
    rw [ih, mem_keys_setNew, exists_mem_cons_iff, or_assoc, eq_comm]

/-- Nothing that is there is lost. -/
theorem mem_addAll_of_mem : ∀ {d : List (κ × α)}, p ∈ d → p ∈ addAll key d l := by
  induction l with
  | nil => exact fun h => h
  | cons v l ih =>
    intro d h
    refine ih (d := setNew (key v) v d) ?_
    unfold setNew
    split
    · exact h
    · exact mem_append_left _ h

theorem mem_addAll :
    ∀ {d : List (κ × α)}, p ∈ addAll key d l → p ∈ d ∨ p.2 ∈ l ∧ p.1 = key p.2 := by
  induction l with
  | nil => exact fun h => .inl h
  | cons v l ih =>
    intro d h
    rcases ih (d := setNew (key v) v d) h with h | ⟨hl, hk⟩
    · unfold setNew at h
      split at h
      · exact .inl h
      · rcases mem_append.mp h with h | h
        · exact .inl h
        · rw [mem_singleton.mp h]
          exact .inr ⟨mem_cons_self, rfl⟩
    · exact .inr ⟨mem_cons_of_mem _ hl, hk⟩

theorem nodup_keys_addAll :
    ∀ {d : List (κ × α)}, (d.map Prod.fst).Nodup → ((addAll key d l).map Prod.fst).Nodup := by
  induction l with
  | nil => exact fun h => h
  | cons v l ih =>
    intro d h
    refine ih (d := setNew (key v) v d) ?_
    unfold setNew
    split
    · exact h
    · next hnew =>
      rw [map_append, map_singleton, ← concat_eq_append]
      exact (nodup_concat _ _).mpr ⟨hnew, h⟩

omit [DecidableEq κ] in
/-- In a dictionary, a key has one value. -/
theorem eq_of_mem (h : (d.map Prod.fst).Nodup) {q : κ × α} (hp : p ∈ d) (hq : q ∈ d)
    (hkey : p.1 = q.1) : p = q := inj_on_of_nodup_map h hp hq hkey

end Voltha.OrderedDict
