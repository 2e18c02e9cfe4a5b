import Mathlib

/-!
# Runs of a step function

A run folds a step function over a list of inputs.  `AllAlong step c s l` says that every input of
`l` meets the condition `c` in the state in which it comes.

* `AllAlong.foldl`: what each such step preserves holds at the end.
* `allAlong_iff_split`: the inputs and the states in which they come.
* `allAlong_congr`: conditions that agree in the states of an invariant.
* `answers f s l`: what a machine answers; `answers_eq_iff` compares two machines.
* `allAlong_iff`: if steps that do not meet the condition break a property that the invariant
  implies, a run meets the condition all along exactly when the property holds after each of its
  prefixes.
-/

namespace Voltha

open List

variable {σ α : Type}

/-- Every input meets the condition in the state in which it comes. -/
def AllAlong (step : σ → α → σ) (c : σ → α → Prop) : σ → List α → Prop
  | _, [] => True
  | s, a :: l => c s a ∧ AllAlong step c (step s a) l

instance AllAlong.decidable (step : σ → α → σ) (c : σ → α → Prop) [∀ s a, Decidable (c s a)] :
    ∀ s l, Decidable (AllAlong step c s l)
  | _, [] => isTrue trivial
  | s, a :: l =>
    have := AllAlong.decidable step c (step s a) l
    inferInstanceAs (Decidable (c s a ∧ AllAlong step c (step s a) l))

variable {step : σ → α → σ} {c : σ → α → Prop} {I : σ → Prop} {l : List α}

/-- The ways to split a list at one of its elements. -/
theorem forall_split_cons {p : List α → α → List α → Prop} {a : α} :
    (∀ before b after, a :: l = before ++ b :: after → p before b after) ↔
      p [] a l ∧ ∀ before b after, l = before ++ b :: after → p (a :: before) b after := by
  constructor
  · exact fun h => ⟨h [] a l rfl, fun before b after hl => h (a :: before) b after (hl ▸ rfl)⟩
  · rintro ⟨hhead, htail⟩ before b after hl
    cases before with
    | nil =>
      obtain ⟨rfl, rfl⟩ := List.cons.inj hl
      exact hhead
    | cons b' before =>
      obtain ⟨rfl, htl⟩ := List.cons.inj hl
      exact htail before b after htl

theorem forall_split_concat {p : List α → α → List α → Prop} {a : α} :
    (∀ before b after, l ++ [a] = before ++ b :: after → p before b after) ↔
      p l a [] ∧ ∀ before b after, l = before ++ b :: after → p before b (after ++ [a]) := by
  constructor
  · refine fun h => ⟨h l a [] rfl, fun before b after hl => h before b (after ++ [a]) ?_⟩
    rw [hl, append_assoc, cons_append]
  · rintro ⟨hlast, hinit⟩ before b after hl
    rcases eq_nil_or_concat' after with rfl | ⟨after, c, rfl⟩
    · obtain ⟨rfl, hab⟩ := append_inj' hl rfl
      obtain rfl := singleton_inj.mp hab
      exact hlast
    · rw [← cons_append, ← append_assoc] at hl
      obtain ⟨rfl, hac⟩ := append_inj' hl rfl
      obtain rfl := singleton_inj.mp hac
      exact hinit before b after rfl

theorem allAlong_iff_split :
    ∀ {s : σ}, AllAlong step c s l ↔
      ∀ before a after, l = before ++ a :: after → c (before.foldl step s) a := by
  induction l with
  | nil => exact fun {s} => iff_of_true trivial fun before a after h => by simp at h
  | cons a l ih =>
    intro s
    rw [forall_split_cons, AllAlong, ih]
    rfl

theorem allAlong_append {l' : List α} :
    ∀ {s : σ}, AllAlong step c s (l ++ l') ↔
      AllAlong step c s l ∧ AllAlong step c (l.foldl step s) l' := by
  induction l with
  | nil => simp [AllAlong]
  | cons a l ih =>
    intro s
    simp only [cons_append, AllAlong, foldl_cons, ih, and_assoc]

/-- **The invariant rule.** -/
theorem AllAlong.foldl (hstep : ∀ s a, I s → c s a → I (step s a)) :
    ∀ {l : List α} {s : σ}, AllAlong step c s l → I s → I (l.foldl step s) := by
  intro l
  induction l with
  | nil => exact fun _ hI => hI
  | cons a l ih => exact fun hl hI => ih hl.2 (hstep _ _ hI hl.1)

/-- **A run meets the condition all along exactly when `J` holds after each of its prefixes**, if
its steps are of a kind `N` of which those that meet the condition keep an invariant that implies
`J`, and the others break `J`. -/
theorem allAlong_iff_of {J : σ → Prop} {N : σ → α → Prop} (hJ : ∀ s, I s → J s)
    (hstep : ∀ s a, I s → N s a → c s a → I (step s a))
    (hbreak : ∀ s a, I s → N s a → ¬ c s a → ¬ J (step s a)) :
    ∀ {l : List α} {s : σ}, I s → AllAlong step N s l →
      (AllAlong step c s l ↔ ∀ l', l' <+: l → J (l'.foldl step s)) := by
  intro l
  induction l with
  | nil =>
    intro s hI _
    simp only [AllAlong, prefix_nil, true_iff]
    rintro l' rfl
    exact hJ s hI
  | cons a l ih =>
    rintro s hI ⟨hN, hNl⟩
    constructor
    · rintro ⟨hc, hl⟩ l' hl'
      rcases l' with _ | ⟨b, l'⟩
      · exact hJ s hI
      · obtain ⟨rfl, htail⟩ := cons_prefix_cons.mp hl'
        exact (ih (hstep s b hI hN hc) hNl).mp hl l' htail
    · intro h
      by_cases hc : c s a
      · refine ⟨hc, (ih (hstep s a hI hN hc) hNl).mpr fun l' hl' => ?_⟩
        exact h (a :: l') (cons_prefix_cons.mpr ⟨rfl, hl'⟩)
      · exact absurd (h [a] (prefix_append [a] l)) (hbreak s a hI hN hc)

theorem allAlong_true (l : List α) : ∀ s : σ, AllAlong step (fun _ _ => True) s l := by
  induction l with
  | nil => exact fun _ => trivial
  | cons a l ih => exact fun s => ⟨trivial, ih (step s a)⟩

/-- A condition that does not depend on the state. -/
theorem allAlong_of_forall {p : α → Prop} :
    ∀ {s : σ}, (∀ a ∈ l, p a) → AllAlong step (fun _ a => p a) s l := by
  induction l with
  | nil => exact fun _ => trivial
  | cons a l ih =>
    exact fun h => ⟨h a mem_cons_self, ih fun b hb => h b (mem_cons_of_mem _ hb)⟩

theorem AllAlong.imp₂ {d e : σ → α → Prop} (h : ∀ s a, c s a → d s a → e s a) :
    ∀ {l : List α} {s : σ}, AllAlong step c s l → AllAlong step d s l → AllAlong step e s l
  | [], _, _, _ => trivial
  | _ :: _, _, hc, hd => ⟨h _ _ hc.1 hd.1, AllAlong.imp₂ h hc.2 hd.2⟩

/-- The same for steps of any kind. -/
theorem allAlong_iff {J : σ → Prop} (hJ : ∀ s, I s → J s)
    (hstep : ∀ s a, I s → c s a → I (step s a)) (hbreak : ∀ s a, I s → ¬ c s a → ¬ J (step s a))
    {s : σ} (hI : I s) : AllAlong step c s l ↔ ∀ l', l' <+: l → J (l'.foldl step s) :=
  allAlong_iff_of hJ (fun s a hI _ => hstep s a hI) (fun s a hI _ => hbreak s a hI) hI
    (allAlong_true l s)

/-- Two conditions that agree in all states of an invariant, which the steps that meet them keep,
hold along the same runs. -/
theorem allAlong_congr {d : σ → α → Prop} (hstep : ∀ s a, I s → c s a → I (step s a))
    (hiff : ∀ s a, I s → (c s a ↔ d s a)) :
    ∀ {l : List α} {s : σ}, I s → (AllAlong step c s l ↔ AllAlong step d s l) := by
  intro l
  induction l with
  | nil => exact fun _ => Iff.rfl
  | cons a l ih =>
    intro s hI
    simp only [AllAlong]
    rw [← hiff s a hI]
    exact and_congr_right fun hc => ih (hstep s a hI hc)

/-! ## Machines that answer -/

section Answers

variable {τ β : Type}

/-- The answers of a machine to a list of inputs. -/
def answers (f : σ → α → β × σ) : σ → List α → List β
  | _, [] => []
  | s, a :: l => (f s a).1 :: answers f (f s a).2 l

/-- **Two machines give the same answers exactly along the runs that meet a condition**, if every
input keeps their states related, and the answers to an input are the same exactly where it meets
the condition. -/
theorem answers_eq_iff {f : σ → α → β × σ} {g : τ → α → β × τ} {R : σ → τ → Prop}
    (hstep : ∀ s t a, R s t → R (f s a).2 (g t a).2)
    (hanswer : ∀ s t a, R s t → ((f s a).1 = (g t a).1 ↔ c s a)) (l : List α) :
    ∀ {s : σ} {t : τ}, R s t →
      (answers f s l = answers g t l ↔ AllAlong (fun s a => (f s a).2) c s l) := by
  induction l with
  | nil => exact fun _ => iff_of_true rfl trivial
  | cons a l ih =>
    intro s t hR
    rw [answers, answers, List.cons.injEq, hanswer s t a hR, ih (hstep s t a hR)]
    rfl

end Answers

end Voltha
