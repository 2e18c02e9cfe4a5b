import Mathlib

/-!
# Lists of records with keys

A list of records, each with a key.  The first record with a key is the one that is found, replaced
or erased.

* `find`, `replace`, `erase` and what they do to the records and their keys.
* `Numbering`: records with different numbers, and the set of these numbers.
-/

namespace Voltha.KeyedList

open List

variable {α κ : Type} [DecidableEq κ] (key : α → κ)

/-- The first record with a key. -/
def find (l : List α) (k : κ) : Option α := l.find? fun x => key x = k

/-- The first record with the key of `x` is replaced by `x`. -/
def replace (x : α) : List α → List α
  | [] => []
  | y :: l => if key y = key x then x :: l else y :: replace x l

/-- The first record with a key is taken out. -/
def erase (k : κ) : List α → List α
  | [] => []
  | y :: l => if key y = k then l else y :: erase k l

variable {key} {l : List α} {x : α} {k : κ}

theorem find_spec (h : find key l k = some x) : x ∈ l ∧ key x = k :=
  ⟨mem_of_find?_eq_some h, by simpa using find?_some h⟩

theorem find_eq_none : find key l k = none ↔ k ∉ l.map key := by
  rw [find, find?_eq_none, mem_map]
  simp only [decide_eq_true_eq, not_exists, not_and]

theorem exists_find (h : k ∈ l.map key) : ∃ x, find key l k = some x := by
  rcases hf : find key l k with _ | x
  · exact absurd h (find_eq_none.mp hf)
  · exact ⟨x, rfl⟩

theorem mem_keys_of_find (h : find key l k = some x) : k ∈ l.map key := by
  obtain ⟨hx, rfl⟩ := find_spec h
  exact mem_map_of_mem hx

/-- Where the keys differ, a record is found under its key. -/
theorem find_of_mem (hnodup : (l.map key).Nodup) (h : x ∈ l) : find key l (key x) = some x := by
  have hkeys : key x ∈ l.map key := mem_map_of_mem h
  obtain ⟨y, hy⟩ := exists_find hkeys
  obtain ⟨hmem, hkey⟩ := find_spec hy
  rw [hy, inj_on_of_nodup_map hnodup hmem h hkey]

/-! ## Records that are replaced -/

theorem map_key_replace (x : α) : ∀ l : List α, (replace key x l).map key = l.map key
  | [] => rfl
  | y :: l => by
    rw [replace]
    split
    · next h => rw [map_cons, map_cons, h]
    · rw [map_cons, map_cons, map_key_replace x l]

theorem mem_replace {y : α} : ∀ {l : List α}, y ∈ replace key x l → y ∈ l ∨ y = x
  | [], h => absurd h not_mem_nil
  | z :: l, h => by
    rw [replace] at h
    split at h
    · rcases mem_cons.mp h with h | h
      · exact .inr h
      · exact .inl (mem_cons_of_mem _ h)
    · rcases mem_cons.mp h with rfl | h
      · exact .inl mem_cons_self
      · exact (mem_replace h).imp_left (mem_cons_of_mem _)

theorem mem_replace_of_ne {y : α} (hne : key y ≠ key x) :
    ∀ {l : List α}, y ∈ l → y ∈ replace key x l
  | z :: l, h => by
    rw [replace]
    split
    · next hz =>
      rcases mem_cons.mp h with rfl | h
      · exact absurd hz hne
      · exact mem_cons_of_mem _ h
    · rcases mem_cons.mp h with rfl | h
      · exact mem_cons_self
      · exact mem_cons_of_mem _ (mem_replace_of_ne hne h)

theorem mem_replace_self :
    ∀ {l : List α}, key x ∈ l.map key → x ∈ replace key x l
  | z :: l, h => by
    rw [replace]
    split
    · exact mem_cons_self
    · next hz =>
      rw [map_cons, mem_cons] at h
      exact mem_cons_of_mem _ (mem_replace_self (h.resolve_left (Ne.symm hz)))

/-- Where the keys differ, the record with the key of `x` gives way to `x`. -/
theorem mem_replace_iff (hnodup : (l.map key).Nodup) {y z : α} (hy : y ∈ l) (hkey : key x = key y) :
    z ∈ replace key x l ↔ z ∈ l ∧ z ≠ y ∨ z = x := by
  have hmem : key x ∈ l.map key := hkey ▸ mem_map_of_mem hy
  constructor
  · intro hz
    by_cases hzx : z = x
    · exact .inr hzx
    · refine .inl ⟨(mem_replace hz).resolve_right hzx, fun hzy => hzx ?_⟩
      -- the keys of the new list differ, too
      rw [← map_key_replace x] at hnodup
      exact inj_on_of_nodup_map hnodup hz (mem_replace_self hmem) (hzy ▸ hkey.symm)
  · rintro (⟨hz, hne⟩ | rfl)
    · refine mem_replace_of_ne (fun heq => hne ?_) hz
      exact inj_on_of_nodup_map hnodup hz hy (heq.trans hkey)
    · exact mem_replace_self hmem

/-! ## Records that are erased -/

theorem erase_sublist (k : κ) : ∀ l : List α, (erase key k l).Sublist l
  | [] => List.Sublist.slnil
  | y :: l => by
    rw [erase]
    split
    · exact sublist_cons_self ..
    · exact (erase_sublist k l).cons_cons _

theorem mem_erase_of_ne {k : κ} (hne : key x ≠ k) :
    ∀ {l : List α}, x ∈ l → x ∈ erase key k l
  | y :: l, h => by
    rw [erase]
    split
    · next hy =>
      rcases mem_cons.mp h with rfl | h
      · exact absurd hy hne
      · exact h
    · rcases mem_cons.mp h with rfl | h
      · exact mem_cons_self
      · exact mem_cons_of_mem _ (mem_erase_of_ne hne h)

/-- Where the keys differ, no other record has the key that was taken out. -/
theorem mem_erase (hnodup : (l.map key).Nodup) : x ∈ erase key k l ↔ x ∈ l ∧ key x ≠ k := by
  refine ⟨fun h => ⟨(erase_sublist k l).subset h, ?_⟩, fun h => mem_erase_of_ne h.2 h.1⟩
  induction l with
  | nil => exact absurd h not_mem_nil
  | cons y l ih =>
    rw [map_cons, nodup_cons] at hnodup
    rw [erase] at h
    split at h
    · next hy =>
      rintro rfl
      exact hnodup.1 (hy ▸ mem_map_of_mem h)
    · next hy =>
      rcases mem_cons.mp h with rfl | h
      · exact hy
      · exact ih hnodup.2 h

theorem mem_erase_iff (hnodup : (l.map key).Nodup) {y : α} (hy : y ∈ l) :
    x ∈ erase key (key y) l ↔ x ∈ l ∧ x ≠ y := by
  rw [mem_erase hnodup]
  refine and_congr_right fun hx => not_congr ⟨fun h => ?_, fun h => h ▸ rfl⟩
  exact inj_on_of_nodup_map hnodup hx hy h

end Voltha.KeyedList

/-! ## Numbered records -/

namespace Voltha

variable {α ι : Type}

/-- The records with `P` have different numbers, and these are the numbers in use. -/
structure Numbering (P : α → Prop) (number : α → ι) (Used : ι → Prop) : Prop where
  inj : ∀ {x y : α}, P x → P y → number x = number y → x = y
  used : ∀ i, Used i ↔ ∃ x, P x ∧ number x = i

namespace Numbering

variable {P P' : α → Prop} {number : α → ι} {Used Used' : ι → Prop} {y z : α}

theorem congr (h : Numbering P number Used) (hP : ∀ x, P' x ↔ P x) (hU : ∀ i, Used' i ↔ Used i) :
    Numbering P' number Used' where
  inj hx hy := h.inj ((hP _).mp hx) ((hP _).mp hy)
  used i := by simp only [hU, h.used, hP]

/-- A record comes in with a number that was not in use. -/
theorem add {Q : Prop} (h : Numbering P number Used) (hP : ∀ x, P' x ↔ P x ∨ x = y ∧ Q)
    (hfree : Q → ¬ Used (number y)) (hU : ∀ i, Used' i ↔ Used i ∨ i = number y ∧ Q) :
    Numbering P' number Used' := by
  have hother : Q → ∀ {x}, P x → number x ≠ number y := fun hQ {x} hx heq =>
    hfree hQ ((h.used _).mpr ⟨x, hx, heq⟩)
  refine ⟨fun {x z} hx hz hnum => ?_, fun i => ?_⟩
  · rcases (hP x).mp hx with hx | ⟨rfl, hQ⟩
    · rcases (hP z).mp hz with hz | ⟨rfl, hQ⟩
      · exact h.inj hx hz hnum
      · exact absurd hnum (hother hQ hx)
    · rcases (hP z).mp hz with hz | ⟨rfl, -⟩
      · exact absurd hnum.symm (hother hQ hz)
      · rfl
  · rw [hU, h.used]
    constructor
    · rintro (⟨x, hx, hi⟩ | ⟨rfl, hQ⟩)
      · exact ⟨x, (hP x).mpr (.inl hx), hi⟩
      · exact ⟨y, (hP y).mpr (.inr ⟨rfl, hQ⟩), rfl⟩
    · rintro ⟨x, hx, rfl⟩
      rcases (hP x).mp hx with hx | ⟨rfl, hQ⟩
      · exact .inl ⟨x, hx, rfl⟩
      · exact .inr ⟨rfl, hQ⟩

/-- A record goes, and its number with it. -/
theorem remove (h : Numbering P number Used) (hP : ∀ x, P' x ↔ P x ∧ x ≠ y)
    (hU : ∀ i, Used' i ↔ Used i ∧ ¬ (i = number y ∧ P y)) : Numbering P' number Used' where
  inj hx hz := h.inj ((hP _).mp hx).1 ((hP _).mp hz).1
  used i := by
    rw [hU, h.used]
    constructor
    · rintro ⟨⟨x, hx, rfl⟩, hnot⟩
      refine ⟨x, (hP x).mpr ⟨hx, ?_⟩, rfl⟩
      rintro rfl
      exact hnot ⟨rfl, hx⟩
    · rintro ⟨x, hx, rfl⟩
      obtain ⟨hx, hne⟩ := (hP x).mp hx
      exact ⟨⟨x, hx, rfl⟩, fun hy => hne (h.inj hx hy.2 hy.1)⟩

/-- A record gives way to another one with its number. -/
theorem replace (h : Numbering P number Used) (hP : ∀ x, P' x ↔ P x ∧ x ≠ y ∨ x = z ∧ P y)
    (hnum : number z = number y) (hU : ∀ i, Used' i ↔ Used i) : Numbering P' number Used' := by
  have hrest : Numbering (fun x => P x ∧ x ≠ y) number fun i => Used i ∧ ¬ (i = number y ∧ P y) :=
    h.remove (fun _ => Iff.rfl) fun _ => Iff.rfl
  refine hrest.add hP (fun hy hused => hused.2 ⟨hnum, hy⟩) fun i => (hU i).trans ?_
  rw [hnum]
  by_cases hi : i = number y ∧ P y
  · exact iff_of_true ((h.used i).mpr ⟨y, hi.2, hi.1.symm⟩) (.inr hi)
  · rw [and_iff_left hi, or_iff_left hi]

end Numbering

end Voltha
