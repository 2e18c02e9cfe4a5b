import Mathlib

/-!
# Sweeping a list

A sweep goes through a list from its beginning.  When it comes to an item that is to be dropped, it
removes all items with the key of that one, and sweeps what is left; when it comes to an item that
stops it, it ends.  An item that stops may itself be removed on behalf of another one with its key,
and then the items behind it are swept after all.

* `Swept`: the keys that are removed in the end.
* `unswept`: the items that are left.
* `swept_of_no_stops`: these are the keys of the items to be dropped, where nothing stops the sweep.
* `unswept_remove`: the first removal changes nothing about what is left in the end.
* `unswept_eq_self`: nothing is removed if the sweep comes to no item that is to be dropped.
-/

namespace Voltha.Sweep

open List

variable {α κ : Type*}

/-- The keys that a sweep removes: those of the items that are to be dropped, if the items before
them that stop it are removed. -/
inductive Swept (key : α → κ) (drops stops : α → Prop) (l : List α) : κ → Prop
  | drop (pre post : List α) (a : α) (hl : l = pre ++ a :: post)
      (hpre : ∀ b ∈ pre, stops b → Swept key drops stops l (key b)) (ha : drops a) :
      Swept key drops stops l (key a)

open Classical in
/-- The items that a sweep leaves. -/
noncomputable def unswept (key : α → κ) (drops stops : α → Prop) (l : List α) : List α :=
  l.filter fun a => ¬ Swept key drops stops l (key a)

variable {key : α → κ} {drops stops : α → Prop} {l pre post : List α} {a : α}

theorem mem_unswept :
    a ∈ unswept key drops stops l ↔ a ∈ l ∧ ¬ Swept key drops stops l (key a) := by
  simp [unswept]

theorem unswept_eq_self_iff :
    unswept key drops stops l = l ↔ ∀ a ∈ l, ¬ Swept key drops stops l (key a) := by
  simp [unswept]

/-- Nothing is removed if there is nothing to be dropped up to the end, or up to an item that stops
the sweep. -/
theorem unswept_eq_self (hl : l = pre ++ post) (hpre : ∀ b ∈ pre, ¬ drops b)
    (hpost : ∀ b ∈ post.head?, stops b ∧ ¬ drops b) : unswept key drops stops l = l := by
  have hnone : ∀ k, ¬ Swept key drops stops l k := by
    intro k hk
    induction hk with
    | drop pre' post' a hl' _ ha ih =>
      rcases append_eq_append_iff.mp (hl.symm.trans hl') with ⟨mid, rfl, hmid⟩ |
        ⟨mid, rfl, hmid⟩
      · -- the item is not before the one that stops the sweep
        rcases mid with _ | ⟨b, mid⟩
        · exact (hpost a (by rw [hmid]; rfl)).2 ha
        · refine ih b (by simp) (hpost b ?_).1
          rw [hmid]
          rfl
      · rcases mid with _ | ⟨b, mid⟩
        · exact (hpost a (by rw [← nil_append post, ← hmid]; rfl)).2 ha
        · obtain ⟨rfl, -⟩ := List.cons.inj hmid
          exact hpre a (by simp) ha
  exact unswept_eq_self_iff.mpr fun a _ => hnone _

/-- Where nothing stops the sweep, it removes the keys of the items that are to be dropped. -/
theorem swept_of_no_stops (h : ∀ b ∈ l, ¬ stops b) {k : κ} :
    Swept key drops stops l k ↔ ∃ b ∈ l, drops b ∧ key b = k := by
  constructor
  · rintro ⟨pre, post, b, rfl, -, hb⟩
    exact ⟨b, by simp, hb, rfl⟩
  · rintro ⟨b, hb, hdrop, rfl⟩
    obtain ⟨pre, post, rfl⟩ := append_of_mem hb
    exact Swept.drop pre post b rfl (fun c hc hstop => absurd hstop (h c (by simp [hc]))) hdrop

variable [DecidableEq κ]

section

variable (hl : l = pre ++ a :: post) (hpre : ∀ b ∈ pre, ¬ stops b) (ha : drops a)
include hl hpre ha

/-- The keys that are removed, with the first one of them taken out. -/
theorem swept_iff {k : κ} :
    Swept key drops stops l k ↔
      k = key a ∨ Swept key drops stops (l.filter fun b => key b ≠ key a) k := by
  constructor
  · intro hk
    induction hk with
    | drop pre' post' b hl' _ hb ih =>
      by_cases hkey : key b = key a
      · exact Or.inl hkey
      · refine Or.inr (Swept.drop (pre'.filter fun b => key b ≠ key a)
          (post'.filter fun b => key b ≠ key a) b ?_ (fun c hc hstop => ?_) hb)
        · rw [hl', filter_append, filter_cons_of_pos (by simpa using hkey)]
        · obtain ⟨hc, hne⟩ := mem_filter.mp hc
          exact (ih c hc hstop).resolve_left (by simpa using hne)
  · rintro (rfl | hk)
    · exact Swept.drop _ _ _ hl (fun b hb hstop => absurd hstop (hpre b hb)) ha
    · induction hk with
      | drop pre' post' b hl' _ hb ih =>
        -- the items before this one, with those that have been taken out
        obtain ⟨l₁, l₂, hl₁₂, hl₁, hl₂⟩ := filter_eq_append_iff.mp hl'
        obtain ⟨m₁, m₂, rfl, hm₁, -, -⟩ := filter_eq_cons_iff.mp hl₂
        rw [← append_assoc] at hl₁₂
        refine Swept.drop _ _ _ hl₁₂ (fun c hc hstop => ?_) hb
        by_cases hkey : key c = key a
        · rw [hkey]
          exact Swept.drop _ _ _ hl (fun b hb hstop => absurd hstop (hpre b hb)) ha
        · rcases mem_append.mp hc with hc | hc
          · refine ih c ?_ hstop
            rw [← hl₁]
            exact mem_filter.mpr ⟨hc, by simpa using hkey⟩
          · exact absurd hkey (by simpa using hm₁ c hc)

/-- **The first removal changes nothing about what is left.** -/
theorem unswept_remove :
    unswept key drops stops (l.filter fun b => key b ≠ key a) = unswept key drops stops l := by
  rw [unswept, unswept, filter_filter]
  refine filter_congr fun b _ => ?_
  rw [Bool.eq_iff_iff]
  simp only [Bool.and_eq_true, decide_eq_true_eq]
  rw [swept_iff hl hpre ha, not_or]
  exact and_comm

end

end Voltha.Sweep
