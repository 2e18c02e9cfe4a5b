import Mathlib

/-!
# Lists edited by position

Two ways of editing a list through positions that were taken beforehand.

* `Puts pos V ks base l`: the list `l` is `base` with a value at the position of each key of
  `ks`.  `Puts.set` adds one key.
* `popAll is l`: the positions `is` are popped from `l` one after the other.  A pop moves what
  stands behind it, so that the positions of the later pops are right only if they are smaller:
  `popAll_removes_iff` says that exactly the decreasing lists of positions remove what they
  were meant to.
-/

namespace Voltha

open List

variable {κ α β : Type}

theorem lt_of_getElem? {l : List α} {i : ℕ} {a : α} (h : l[i]? = some a) : i < l.length :=
  (List.getElem?_eq_some_iff.mp h).1

theorem forall₂_exists {R : α → β → Prop} {l : List α} {l' : List β}
    (hl : Forall₂ R l l') {e : α} (he : e ∈ l) : ∃ x ∈ l', R e x := by
  induction hl with
  | nil => exact absurd he not_mem_nil
  | cons hx _ ih =>
    rcases mem_cons.mp he with rfl | he
    · exact ⟨_, mem_cons_self, hx⟩
    · obtain ⟨x, hmem, hR⟩ := ih he
      exact ⟨x, mem_cons_of_mem _ hmem, hR⟩

/-! ## Setting the positions of keys -/

/-- The list `l` is `base` with, at the position of each key of `ks`, a value that `V` allows for
the key. -/
structure Puts (pos : κ → Option ℕ) (V : κ → α → Prop) (ks : List κ) (base l : List α) :
    Prop where
  length_eq : l.length = base.length
  put : ∀ k ∈ ks, ∀ i, pos k = some i → ∃ x, l[i]? = some x ∧ V k x
  rest : ∀ i, (∀ k ∈ ks, pos k ≠ some i) → l[i]? = base[i]?

variable {x : α} {i : ℕ} {is : List ℕ} {l : List α} {k : κ} {p : κ → Prop}

namespace Puts

variable {pos : κ → Option ℕ} {V V' : κ → α → Prop} {ks : List κ} {base l : List α}

theorem nil (pos : κ → Option ℕ) (V : κ → α → Prop) (base : List α) : Puts pos V [] base base where
  length_eq := rfl
  put _ hk := absurd hk not_mem_nil
  rest _ _ := rfl

section

variable (h : Puts pos V ks base l)
include h

theorem mono (hV : ∀ k ∈ ks, ∀ x, V k x → V' k x) : Puts pos V' ks base l where
  length_eq := h.length_eq
  put k hk i hi := by
    obtain ⟨x, hx, hV'⟩ := h.put k hk i hi
    exact ⟨x, hx, hV k hk x hV'⟩
  rest := h.rest

/-- The value of one more key is set. -/
theorem set (hi : pos k = some i) (hlt : i < l.length) (hinj : ∀ k' ∈ ks, pos k' ≠ some i)
    (hV : V k x) :
    Puts pos V (ks ++ [k]) base (l.set i x) where
  length_eq := by rw [length_set, h.length_eq]
  put k' hk' j hj := by
    rcases mem_append.mp hk' with hk' | hk'
    · have hij : i ≠ j := by
        rintro rfl
        exact hinj k' hk' hj
      rw [getElem?_set_ne hij]
      exact h.put k' hk' j hj
    · rw [mem_singleton.mp hk', hi] at hj
      obtain rfl := Option.some.inj hj
      rw [mem_singleton.mp hk', getElem?_set_self hlt]
      exact ⟨x, rfl, hV⟩
  rest j hj := by
    have hij : i ≠ j := by
      rintro rfl
      exact hj k (mem_append_right _ (mem_singleton_self k)) hi
    rw [getElem?_set_ne hij]
    exact h.rest j fun k' hk' => hj k' (mem_append_left _ hk')

/-- An entry of the list is a value of a key or an entry of the base. -/
theorem mem_cases (hx : x ∈ l) :
    (∃ i, base[i]? = some x ∧ ∀ k ∈ ks, pos k ≠ some i) ∨ ∃ k ∈ ks, V k x := by
  obtain ⟨i, hi⟩ := mem_iff_getElem?.mp hx
  by_cases hk : ∃ k ∈ ks, pos k = some i
  · obtain ⟨k, hk, hpos⟩ := hk
    obtain ⟨y, hy, hV⟩ := h.put k hk i hpos
    rw [hi] at hy
    obtain rfl := Option.some.inj hy
    exact Or.inr ⟨k, hk, hV⟩
  · have hrest : ∀ k ∈ ks, pos k ≠ some i := fun k hk' hpos => hk ⟨k, hk', hpos⟩
    rw [h.rest i hrest] at hi
    exact Or.inl ⟨i, hi, hrest⟩

theorem mem (hx : x ∈ l) : x ∈ base ∨ ∃ k ∈ ks, V k x :=
  (h.mem_cases hx).imp_left fun ⟨_, hi, _⟩ => mem_of_getElem? hi

/-- A relation between the entries of the base and other values holds of the list, if it holds of
the values that are put. -/
theorem forall₂ {R : α → β → Prop} {bs : List β} (hbase : Forall₂ R base bs)
    (hput : ∀ k ∈ ks, ∀ i, pos k = some i → ∀ x, V k x → ∀ b, bs[i]? = some b → R x b) :
    Forall₂ R l bs := by
  rw [forall₂_iff_get] at hbase ⊢
  refine ⟨h.length_eq.trans hbase.1, fun i h₁ h₂ => ?_⟩
  rw [get_eq_getElem, get_eq_getElem]
  by_cases hk : ∃ k ∈ ks, pos k = some i
  · obtain ⟨k, hk, hpos⟩ := hk
    obtain ⟨x, hx, hV⟩ := h.put k hk i hpos
    rw [getElem?_eq_getElem h₁] at hx
    rw [Option.some.inj hx]
    exact hput k hk i hpos x hV _ (getElem?_eq_getElem h₂)
  · have hrest := h.rest i fun k hk' hpos => hk ⟨k, hk', hpos⟩
    have hlt : i < base.length := h.length_eq ▸ h₁
    rw [getElem?_eq_getElem h₁, getElem?_eq_getElem hlt] at hrest
    rw [Option.some.inj hrest]
    exact hbase.2 i hlt h₂

end

end Puts

/-! ## One more key -/

theorem filter_concat_of_pos [DecidablePred p] (ks : List κ) (h : p k) :
    (ks ++ [k]).filter (fun x => decide (p x)) = ks.filter (fun x => decide (p x)) ++ [k] := by
  simp [filter_append, h]

theorem filter_concat_of_neg [DecidablePred p] (ks : List κ) (h : ¬ p k) :
    (ks ++ [k]).filter (fun x => decide (p x)) = ks.filter fun x => decide (p x) := by
  simp [filter_append, h]

/-- What holds of the keys before and of one more key. -/
theorem forall_mem_concat {ks : List κ} (h : ∀ x ∈ ks, p x) (hk : p k) : ∀ x ∈ ks ++ [k], p x := by
  intro x hx
  rcases mem_append.mp hx with hx | hx
  · exact h x hx
  · rw [mem_singleton.mp hx]
    exact hk

/-! ## Popping positions -/

/-- The positions are popped one after the other. -/
def popAll : List ℕ → List α → List α
  | [], l => l
  | i :: is, l => popAll is (l.eraseIdx i)

/-- Each position is there when it is popped. -/
def PopsIn : List ℕ → List α → Prop
  | [], _ => True
  | i :: is, l => i < l.length ∧ PopsIn is (l.eraseIdx i)

@[simp] theorem popAll_nil (l : List α) : popAll [] l = l := rfl

@[simp] theorem popAll_cons (i : ℕ) (is : List ℕ) (l : List α) :
    popAll (i :: is) l = popAll is (l.eraseIdx i) := rfl

theorem popAll_append (is js : List ℕ) (l : List α) :
    popAll (is ++ js) l = popAll js (popAll is l) := by
  induction is generalizing l with
  | nil => rfl
  | cons i is ih => exact ih _

theorem popsIn_append {js : List ℕ} :
    PopsIn (is ++ js) l ↔ PopsIn is l ∧ PopsIn js (popAll is l) := by
  induction is generalizing l with
  | nil => simp [PopsIn]
  | cons i is ih => rw [cons_append, PopsIn, PopsIn, ih, and_assoc, popAll_cons]

theorem popAll_map (f : α → β) (is : List ℕ) (l : List α) :
    popAll is (l.map f) = (popAll is l).map f := by
  induction is generalizing l with
  | nil => rfl
  | cons i is ih => rw [popAll_cons, popAll_cons, ← ih, eraseIdx_map]

/-- Whether positions are there depends on the length only. -/
theorem PopsIn.congr {l' : List β} (h : PopsIn is l) (hlen : l.length = l'.length) :
    PopsIn is l' := by
  induction is generalizing l l' with
  | nil => trivial
  | cons i is ih =>
    refine ⟨hlen ▸ h.1, ih h.2 ?_⟩
    rw [length_eraseIdx, length_eraseIdx, hlen]

theorem popAll_sublist (is : List ℕ) (l : List α) : (popAll is l).Sublist l := by
  induction is generalizing l with
  | nil => exact List.Sublist.refl l
  | cons i is ih => exact (ih _).trans (eraseIdx_sublist l i)

/-- Related lists stay related when the same positions are popped. -/
theorem forall₂_popAll {R : α → β → Prop} (is : List ℕ) {l' : List β} (h : Forall₂ R l l') :
    Forall₂ R (popAll is l) (popAll is l') := by
  have herase : ∀ (i : ℕ) {l : List α} {l' : List β}, Forall₂ R l l' →
      Forall₂ R (l.eraseIdx i) (l'.eraseIdx i) := by
    intro i l l' h
    rw [eraseIdx_eq_take_drop_succ, eraseIdx_eq_take_drop_succ]
    exact rel_append (forall₂_take i h) (forall₂_drop (i + 1) h)
  induction is generalizing l l' with
  | nil => exact h
  | cons i is ih => exact ih (herase i h)

theorem length_popAll (h : PopsIn is l) : (popAll is l).length + is.length = l.length := by
  induction is generalizing l with
  | nil => rfl
  | cons i is ih =>
    have hlen := ih h.2
    rw [length_eraseIdx_of_lt h.1] at hlen
    have hpos := h.1
    rw [popAll_cons, length_cons]
    omega

/-- What a pop leaves of a list without repetitions. -/
theorem mem_eraseIdx_iff (hl : l.Nodup) : x ∈ l.eraseIdx i ↔ x ∈ l ∧ l[i]? ≠ some x := by
  constructor
  · intro hx
    refine ⟨mem_of_mem_eraseIdx hx, fun hi => ?_⟩
    obtain ⟨j, hj, hget⟩ := mem_eraseIdx_iff_getElem?.mp hx
    have hlt := lt_of_getElem? hi
    exact hj ((getElem?_inj hlt hl).mp (hi.trans hget.symm)).symm
  · rintro ⟨hx, hi⟩
    obtain ⟨j, hj⟩ := mem_iff_getElem?.mp hx
    refine mem_eraseIdx_iff_getElem?.mpr ⟨j, ?_, hj⟩
    rintro rfl
    exact hi hj

/-- **Decreasing positions remove what stands at them.** -/
theorem mem_popAll_of_decreasing (his : is.Pairwise (· > ·)) :
    ∀ {l : List α}, l.Nodup → ∀ {x : α},
      x ∈ popAll is l ↔ x ∈ l ∧ ∀ i ∈ is, l[i]? ≠ some x := by
  induction is with
  | nil => simp
  | cons i is ih =>
    intro l hl x
    rw [pairwise_cons] at his
    rw [popAll_cons, ih his.2 (hl.sublist (eraseIdx_sublist l i)), mem_eraseIdx_iff hl,
      forall_mem_cons, and_assoc]
    refine and_congr_right fun _ => and_congr_right fun _ => ?_
    refine forall₂_congr fun j hj => ?_
    rw [getElem?_eraseIdx_of_lt (his.1 j hj)]

/-- Decreasing positions leave an entry alone whose key, in a list of keys beside it, does not
stand at any of them. -/
theorem mem_popAll_of_key (his : is.Pairwise (· > ·)) {bs : List β} (hbs : bs.Nodup)
    (hlen : l.length = bs.length) {b : β} (hx : l[i]? = some x) (hb : bs[i]? = some b)
    (hnot : ∀ j ∈ is, bs[j]? ≠ some b) : x ∈ popAll is l := by
  have hfst : (l.zip bs).map Prod.fst = l := map_fst_zip hlen.le
  have hnodup : (l.zip bs).Nodup := by
    refine List.Nodup.of_map Prod.snd ?_
    rw [map_snd_zip hlen.ge]
    exact hbs
  have hmem : (x, b) ∈ popAll is (l.zip bs) := by
    refine (mem_popAll_of_decreasing his hnodup).mpr ⟨?_, fun j hj hget => ?_⟩
    · exact mem_of_getElem? (getElem?_zip_eq_some.mpr ⟨hx, hb⟩)
    · exact hnot j hj (getElem?_zip_eq_some.mp hget).2
  rw [← hfst, popAll_map]
  exact mem_map_of_mem hmem

/-- An entry of a sublist stands further behind in the list. -/
theorem exists_getElem?_of_sublist {l' : List α} (h : l.Sublist l') (hi : l[i]? = some x) :
    ∃ j, i ≤ j ∧ l'[j]? = some x := by
  obtain ⟨f, hf⟩ := sublist_iff_exists_orderEmbedding_getElem?_eq.mp h
  exact ⟨f i, f.strictMono.le_apply, by rw [← hf, hi]⟩

section

variable (hl : l.Nodup) (his : is.Nodup) (hin : PopsIn is l) (hlt : ∀ i ∈ is, i < l.length)
include hl his hin hlt

/-- If everything at the positions is removed, nothing else is. -/
theorem mem_popAll_of_removes (hrem : ∀ i ∈ is, ∀ x, l[i]? = some x → x ∉ popAll is l) (hx : x ∈ l)
    (hnot : ∀ i ∈ is, l[i]? ≠ some x) : x ∈ popAll is l := by
  classical
  -- the entries at the positions, as many as there are pops
  have hcard : (is.toFinset.image fun i => l[i]?).card = is.length := by
    rw [Finset.card_image_of_injOn, toFinset_card_of_nodup his]
    intro i hi j hj hij
    rw [Finset.mem_coe, mem_toFinset] at hi hj
    exact (getElem?_inj (hlt i hi) hl).mp hij
  have hsub : (popAll is l).toFinset.image some ⊆
      (l.toFinset.image some) \ (is.toFinset.image fun i => l[i]?) := by
    intro o ho
    obtain ⟨y, hy, rfl⟩ := Finset.mem_image.mp ho
    rw [mem_toFinset] at hy
    rw [Finset.mem_sdiff]
    refine ⟨Finset.mem_image_of_mem _ (mem_toFinset.mpr ((popAll_sublist is l).subset hy)), ?_⟩
    intro hmem
    obtain ⟨i, hi, hget⟩ := Finset.mem_image.mp hmem
    exact hrem i (mem_toFinset.mp hi) y hget hy
  have hsub' : (is.toFinset.image fun i => l[i]?) ⊆ l.toFinset.image some := by
    intro o ho
    obtain ⟨i, hi, rfl⟩ := Finset.mem_image.mp ho
    have hi' := hlt i (mem_toFinset.mp hi)
    rw [getElem?_eq_getElem hi']
    exact Finset.mem_image_of_mem _ (mem_toFinset.mpr (getElem_mem hi'))
  have hle : ((l.toFinset.image some) \ (is.toFinset.image fun i => l[i]?)).card ≤
      ((popAll is l).toFinset.image some).card := by
    rw [Finset.card_sdiff_of_subset hsub', hcard,
      Finset.card_image_of_injective _ (Option.some_injective α),
      Finset.card_image_of_injective _ (Option.some_injective α),
      toFinset_card_of_nodup hl,
      toFinset_card_of_nodup (hl.sublist (popAll_sublist is l))]
    have := length_popAll hin
    omega
  have heq := Finset.eq_of_subset_of_card_le hsub hle
  have hmem : some x ∈ (popAll is l).toFinset.image some := by
    rw [heq, Finset.mem_sdiff]
    refine ⟨Finset.mem_image_of_mem _ (mem_toFinset.mpr hx), fun hmem => ?_⟩
    obtain ⟨i, hi, hget⟩ := Finset.mem_image.mp hmem
    exact hnot i (mem_toFinset.mp hi) hget
  obtain ⟨y, hy, hxy⟩ := Finset.mem_image.mp hmem
  rw [← Option.some.inj hxy]
  exact mem_toFinset.mp hy

omit hl his hin hlt in
/-- If everything at the positions is removed, the first position is the largest one. -/
theorem lt_head_of_removes (hl : l.Nodup) (his : (i :: is).Nodup) (hin : PopsIn (i :: is) l)
    (hlt : ∀ j ∈ i :: is, j < l.length)
    (hrem : ∀ j ∈ i :: is, ∀ x, l[j]? = some x → x ∉ popAll (i :: is) l) : ∀ j ∈ is, j < i := by
  -- the largest position removes what stands behind it, if something before it has gone
  by_contra hnot
  push Not at hnot
  obtain ⟨j, hj, hij⟩ := hnot
  obtain ⟨m, hm, hmax⟩ := is.toFinset.exists_max_image id ⟨j, mem_toFinset.mpr hj⟩
  rw [mem_toFinset] at hm
  have him : i < m := by
    have hjm : j ≤ m := hmax j (mem_toFinset.mpr hj)
    have hne : i ≠ m := by
      rintro rfl
      exact (nodup_cons.mp his).1 hm
    omega
  obtain ⟨a, b, rfl⟩ := append_of_mem hm
  have hin' : PopsIn (i :: a ++ m :: b) l := hin
  obtain ⟨-, hm', -⟩ := popsIn_append.mp hin'
  obtain ⟨x, hx⟩ : ∃ x, (popAll (i :: a) l)[m]? = some x :=
    ⟨_, getElem?_eq_getElem hm'⟩
  -- where the entry that goes then stood at first
  obtain ⟨q, hmq, hq⟩ := exists_getElem?_of_sublist (popAll_sublist a (l.eraseIdx i)) hx
  rw [getElem?_eraseIdx_of_ge (by omega)] at hq
  have hxl : x ∈ l := mem_of_getElem? hq
  have hstay : x ∈ popAll (i :: (a ++ m :: b)) l := by
    refine mem_popAll_of_removes hl his hin hlt hrem hxl fun k hk hkx => ?_
    have hkq : k = q + 1 := (getElem?_inj (hlt k hk) hl).mp (hkx.trans hq.symm)
    rcases mem_cons.mp hk with rfl | hk
    · omega
    · have := hmax k (mem_toFinset.mpr hk)
      rw [id, id] at this
      omega
  -- but it goes
  have hgone : x ∉ popAll (i :: (a ++ m :: b)) l := by
    rw [← cons_append, popAll_append, popAll_cons]
    intro hmem
    have hnd : (popAll (i :: a) l).Nodup := hl.sublist (popAll_sublist _ _)
    exact ((mem_eraseIdx_iff hnd).mp ((popAll_sublist b _).subset hmem)).2 hx
  exact hgone hstay

/-- **Pops remove what they were meant to exactly if their positions decrease.** -/
theorem popAll_removes_iff :
    (∀ i ∈ is, ∀ x, l[i]? = some x → x ∉ popAll is l) ↔ is.Pairwise (· > ·) := by
  constructor
  · intro hrem
    induction is generalizing l with
    | nil => exact List.Pairwise.nil
    | cons i is ih =>
      have hhead := lt_head_of_removes hl his hin hlt hrem
      refine pairwise_cons.mpr ⟨hhead, ?_⟩
      have hget : ∀ j ∈ is, (l.eraseIdx i)[j]? = l[j]? := fun j hj =>
        getElem?_eraseIdx_of_lt (hhead j hj)
      refine ih (hl.sublist (eraseIdx_sublist l i)) (nodup_cons.mp his).2 hin.2 ?_ ?_
      · intro j hj
        rw [length_eraseIdx_of_lt hin.1]
        have := hhead j hj
        have := hin.1
        omega
      · intro j hj x hx
        rw [hget j hj] at hx
        exact hrem j (mem_cons_of_mem _ hj) x hx
  · intro hdec i hi x hx hmem
    exact ((mem_popAll_of_decreasing hdec hl).mp hmem).2 i hi hx

end

end Voltha
