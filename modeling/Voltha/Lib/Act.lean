import Mathlib

/-!
# Computations that change a state and may raise

A statement of an imperative program with exceptions reads and writes a state and
either returns a value or raises.  What was written before a raise stays written:
nothing rolls back.  `Act σ ε α` is such a computation, the state paired with the
outcome on *both* exits.

* `Act.wp a s Q`: the outcome of `a` from `s` satisfies `Q`.  `wp_bind` splits a
  sequence at its first statement, and on a raise the rest is not run.
* `Act.wp_foldlM`: a loop over a list, with an invariant indexed by what is left.
* `Act.Sim`: two computations run in lockstep, the first of them read-only.
* `Act.Lockstep`: two computations have the same outcome and keep their states related, and what
  they return has a property.
-/

namespace Voltha

open List

/-- A computation on states `σ` with exceptions `ε`.  The state survives a raise. -/
def Act (σ ε α : Type) : Type := σ → Except ε α × σ

namespace Act

variable {σ ε α β γ : Type}

instance : Monad (Act σ ε) where
  pure a := fun s => (.ok a, s)
  bind x f := fun s =>
    match x s with
    | (.ok a, s') => f a s'
    | (.error e, s') => (.error e, s')

/-- Raise an exception. -/
def raise (e : ε) : Act σ ε α := fun s => (.error e, s)

/-- Read the state. -/
def read : Act σ ε σ := fun s => (.ok s, s)

/-- Write the state. -/
def modify (f : σ → σ) : Act σ ε Unit := fun s => (.ok (), f s)

/-- A computation that does not look at the state. -/
def ofExcept (x : Except ε α) : Act σ ε α := fun s => (x, s)

/-- `if b: x` -/
def doIf (b : Bool) (x : Act σ ε Unit) : Act σ ε Unit := if b then x else pure ()

/-- `try: x except E: y`, where `caught` says which exceptions are of class `E`. -/
def exceptOn (caught : ε → Bool) (x y : Act σ ε α) : Act σ ε α := fun s =>
  match x s with
  | (.ok a, s') => (.ok a, s')
  | (.error e, s') => if caught e then y s' else (.error e, s')

/-- `try x finally fin`, for a `fin` that cannot raise. -/
def andFinally (x : Act σ ε α) (fin : σ → σ) : Act σ ε α := fun s => ((x s).1, fin (x s).2)

theorem pure_apply (a : α) (s : σ) : (pure a : Act σ ε α) s = (.ok a, s) := rfl

theorem bind_apply (x : Act σ ε α) (f : α → Act σ ε β) (s : σ) :
    (x >>= f) s = match x s with
      | (.ok a, s') => f a s'
      | (.error e, s') => (.error e, s') := rfl

/-- The exception of an outcome. -/
def raised : Except ε α → Option ε
  | .ok _ => none
  | .error e => some e

theorem raised_eq_some {x : Except ε α} {e : ε} : raised x = some e ↔ x = .error e := by
  rcases x with e' | a
  · rw [raised, Option.some.injEq, Except.error.injEq]
  · constructor
    · intro h
      cases h
    · intro h
      cases h

/-! ## Inverting a sequence -/

variable {f : α → Act σ ε β} {x : Act σ ε α} {s : σ} {Q : Except ε α → σ → Prop} {b : β}
  {a : Act σ ε α}

theorem bind_eq_ok {s' : σ} (h : (x >>= f) s = (.ok b, s')) :
    ∃ a s₁, x s = (.ok a, s₁) ∧ f a s₁ = (.ok b, s') := by
  rw [bind_apply] at h
  rcases hx : x s with ⟨_ | a, s₁⟩
  · rw [hx] at h
    simp at h
  · rw [hx] at h
    exact ⟨a, s₁, rfl, h⟩

theorem bind_of_ok {s₁ : σ} {a : α} (h : x s = (.ok a, s₁)) : (x >>= f) s = f a s₁ := by
  rw [bind_apply, h]

theorem bind_of_error {s₁ : σ} {e : ε} (h : x s = (.error e, s₁)) :
    (x >>= f) s = (.error e, s₁) := by
  rw [bind_apply, h]

theorem ofExcept_ok_bind (a : α) (f : α → Act σ ε β) : (ofExcept (.ok a) >>= f) = f a := rfl

theorem read_bind (f : σ → Act σ ε α) (s : σ) : (read >>= f) s = f s s := rfl

theorem modify_bind (g : σ → σ) (f : Unit → Act σ ε α) (s : σ) :
    (modify g >>= f) s = f () (g s) := rfl

/-- A function applied to what is returned. -/
theorem bind_pure_apply (x : Act σ ε α) (f : α → β) (s : σ) :
    (x >>= fun a => pure (f a)) s = ((x s).1.map f, (x s).2) := by
  rw [bind_apply]
  rcases x s with ⟨_ | a, s'⟩
  · rfl
  · rfl

/-- Sequences are associative. -/
theorem bind_bind (x : Act σ ε α) (f : α → Act σ ε β) (g : β → Act σ ε γ) :
    (x >>= f) >>= g = x >>= fun a => f a >>= g := by
  funext s
  rw [bind_apply, bind_apply, bind_apply]
  rcases x s with ⟨_ | a, s'⟩
  · rfl
  · rfl

/-- Without a state to speak of, outcomes compose. -/
theorem bind_unit_fst (x : Act Unit ε α) (f : α → Act Unit ε β) :
    ((x >>= f) ()).1 = (x ()).1 >>= fun a => (f a ()).1 := by
  rw [bind_apply]
  rcases x () with ⟨_ | a, ⟨⟩⟩
  · rfl
  · rfl

/-- A loop whose rounds come to the same in every state. -/
theorem foldlM_fst {f : β → α → Act σ ε β} {g : β → α → Except ε β}
    (h : ∀ b a s, (f b a s).1 = g b a) :
    ∀ (l : List α) (b : β) (s : σ), (l.foldlM f b s).1 = l.foldlM g b
  | [], _, _ => rfl
  | a :: l, b, s => by
    rw [foldlM_cons, foldlM_cons, bind_apply, ← h b a s]
    rcases f b a s with ⟨_ | b', s'⟩
    · rfl
    · exact foldlM_fst h l b' s'

/-! ## Postconditions -/

/-- The outcome of `a` from `s`, value or exception, satisfies `Q` together with
the state it leaves. -/
def wp (a : Act σ ε α) (s : σ) (Q : Except ε α → σ → Prop) : Prop := Q (a s).1 (a s).2

theorem wp_def : wp a s Q ↔ Q (a s).1 (a s).2 := Iff.rfl

/-- A postcondition of a sequence, read as a postcondition of its first part. -/
def seqPost (f : α → Act σ ε β) (Q : Except ε β → σ → Prop) : Except ε α → σ → Prop
  | .ok a, s => wp (f a) s Q
  | .error e, s => Q (.error e) s

section

variable (f : α → Act σ ε β) (Q : Except ε β → σ → Prop)

@[simp] theorem seqPost_ok (a : α) (s : σ) : seqPost f Q (.ok a) s = wp (f a) s Q := rfl

@[simp] theorem seqPost_error (e : ε) (s : σ) : seqPost f Q (.error e) s = Q (.error e) s := rfl

end

@[simp] theorem wp_pure (a : α) (s : σ) (Q : Except ε α → σ → Prop) :
    wp (pure a) s Q = Q (.ok a) s := rfl

@[simp] theorem wp_read (s : σ) (Q : Except ε σ → σ → Prop) :
    wp read s Q = Q (.ok s) s := rfl

@[simp] theorem wp_modify (f : σ → σ) (s : σ) (Q : Except ε Unit → σ → Prop) :
    wp (modify f) s Q = Q (.ok ()) (f s) := rfl

@[simp] theorem wp_ofExcept (x : Except ε α) (s : σ) (Q : Except ε α → σ → Prop) :
    wp (ofExcept x) s Q = Q x s := rfl

@[simp] theorem wp_andFinally (x : Act σ ε α) (fin : σ → σ) (s : σ) (Q : Except ε α → σ → Prop) :
    wp (andFinally x fin) s Q = wp x s fun r s' => Q r (fin s') := rfl

@[simp] theorem wp_bind (x : Act σ ε α) (f : α → Act σ ε β) (s : σ) (Q : Except ε β → σ → Prop) :
    wp (x >>= f) s Q ↔ wp x s (seqPost f Q) := by
  unfold wp
  rw [bind_apply]
  rcases x s with ⟨_ | a, s₁⟩
  · exact Iff.rfl
  · exact Iff.rfl

theorem wp_mono {Q' : Except ε α → σ → Prop} (h : wp a s Q) (hQ : ∀ r s', Q r s' → Q' r s') :
    wp a s Q' :=
  hQ _ _ h

/-- A sequence keeps what each of its statements keeps. -/
theorem wp_bind_keep {I : σ → Prop} (h : wp x s fun _ => I)
    (hf : ∀ a s', I s' → wp (f a) s' fun _ => I) : wp (x >>= f) s fun _ => I := by
  rw [wp_bind]
  refine wp_mono h ?_
  rintro (e | a) s' hI
  · exact hI
  · exact hf a s' hI

/-- The rule for a check in front of the rest. -/
theorem wp_ofExcept_bind_of {x : Except ε α} {Q : Except ε β → σ → Prop}
    (herror : ∀ e, Q (.error e) s) (hok : ∀ a, x = .ok a → wp (f a) s Q) :
    wp (ofExcept x >>= f) s Q := by
  rcases x with e | a
  · exact herror e
  · exact hok a rfl

/-- **The rule for a loop over a list.**  `I l b s` is what holds of the
accumulator and the state when the items `l` are still to come; a raise may leave
the loop at any item. -/
theorem wp_foldlM {f : β → α → Act σ ε β} {I : List α → β → σ → Prop}
    {E : ε → σ → Prop}
    (hstep : ∀ a l b s, I (a :: l) b s →
      wp (f b a) s fun r s' => match r with
        | .ok b' => I l b' s'
        | .error e => E e s') :
    ∀ (l : List α) (b : β) (s : σ), I l b s →
      wp (l.foldlM f b) s fun r s' => match r with
        | .ok b' => I [] b' s'
        | .error e => E e s'
  | [], _, _, h => h
  | a :: l, b, s, h => by
    rw [foldlM_cons, wp_bind]
    refine wp_mono (hstep a l b s h) ?_
    rintro (e | b') s' hr
    · exact hr
    · exact wp_foldlM hstep l b' s' hr

/-! ## Two runs in lockstep -/

/-- If `x` returns from `s`, then `y`, from any state with `I`, raises something that is not
`bad`, or returns a value related to that of `x`; in this case `x` has left `s` as it was and
`y` has kept `I`. -/
def Sim (s : σ) (I : σ → Prop) (bad : ε → Prop) (R : α → β → Prop) (x : Act σ ε α)
    (y : Act σ ε β) : Prop :=
  ∀ a s₁, x s = (.ok a, s₁) → ∀ s', I s' → wp y s' fun r s'' => match r with
    | .ok b => s₁ = s ∧ I s'' ∧ R a b
    | .error e => ¬ bad e

namespace Sim

variable {s : σ} {I : σ → Prop} {bad : ε → Prop} {α' β' : Type} {R : α → β → Prop}
  {R' : α' → β' → Prop}

theorem pure {a : α} (h : R a b) : Sim s I bad R (Pure.pure a) (Pure.pure b) := by
  intro a' s₁ ha s' hs'
  cases ha
  exact ⟨rfl, hs', h⟩

/-- Nothing is asked of the second computation when the first one raises. -/
theorem raise (e : ε) (y : Act σ ε β) : Sim s I bad R (raise e) y := by
  intro a s₁ ha
  cases ha

theorem read : Sim s I bad (fun a b => a = s ∧ I b) read read := by
  intro a s₁ ha s' hs'
  cases ha
  exact ⟨rfl, hs', rfl, hs'⟩

theorem ofExcept (x : Except ε α) : Sim s I bad Eq (ofExcept x) (ofExcept x) := by
  intro a s₁ ha s' hs'
  cases ha
  exact ⟨rfl, hs', rfl⟩

theorem bind {y : Act σ ε β} {f : α → Act σ ε α'} {g : β → Act σ ε β'} (h : Sim s I bad R x y)
    (hf : ∀ a b, R a b → Sim s I bad R' (f a) (g b)) : Sim s I bad R' (x >>= f) (y >>= g) := by
  intro a' s₂ ha s' hs'
  obtain ⟨a, s₁, hx, hfa⟩ := bind_eq_ok ha
  rw [wp_bind]
  refine wp_mono (h a s₁ hx s' hs') ?_
  rintro (e | b) s'' hb
  · exact hb
  · obtain ⟨rfl, hI, hR⟩ := hb
    exact hf a b hR a' s₂ hfa s'' hI

/-- A loop over a list. -/
theorem foldlM {f : β → α → Act σ ε β} {g : γ → α → Act σ ε γ} {R : β → γ → Prop}
    (hstep : ∀ a b c, R b c → Sim s I bad R (f b a) (g c a)) :
    ∀ (l : List α) (b : β) (c : γ), R b c → Sim s I bad R (l.foldlM f b) (l.foldlM g c)
  | [], _, _, h => Sim.pure h
  | a :: l, b, c, h => by
    rw [foldlM_cons, foldlM_cons]
    exact (hstep a b c h).bind fun b' c' h' => foldlM hstep l b' c' h'

end Sim

/-- From related states, both computations have the same outcome and leave related states, and what
they return satisfies `Q`. -/
def Lockstep {τ : Type} (R : σ → τ → Prop) (Q : α → Prop) (x : Act σ ε α) (y : Act τ ε α) : Prop :=
  ∀ s t, R s t → (x s).1 = (y t).1 ∧ R (x s).2 (y t).2 ∧ ∀ a, (x s).1 = .ok a → Q a

namespace Lockstep

variable {τ : Type} {R : σ → τ → Prop} {P : α → Prop} {Q : β → Prop} {y : Act τ ε α}
  {g : α → Act τ ε β}

/-- Nothing is asked of what is returned. -/
theorem of_forall (h : ∀ s t, R s t → (x s).1 = (y t).1 ∧ R (x s).2 (y t).2) :
    Lockstep R (fun _ => True) x y :=
  fun s t hR => ⟨(h s t hR).1, (h s t hR).2, fun _ _ => trivial⟩

theorem pure {a : α} (h : P a) : Lockstep R P (Pure.pure a : Act σ ε α) (Pure.pure a) := by
  intro s t hR
  refine ⟨rfl, hR, fun b hb => ?_⟩
  cases hb
  exact h

theorem raise (e : ε) : Lockstep R P (raise e : Act σ ε α) (raise e) :=
  fun _ _ hR => ⟨rfl, hR, nofun⟩

theorem bind (h : Lockstep R P x y) (hf : ∀ a, P a → Lockstep R Q (f a) (g a)) :
    Lockstep R Q (x >>= f) (y >>= g) := by
  intro s t hR
  obtain ⟨hres, hstate, hP⟩ := h s t hR
  rw [bind_apply, bind_apply]
  rcases hx : x s with ⟨_ | a, s'⟩ <;> rcases hy : y t with ⟨_ | b, t'⟩ <;>
    rw [hx, hy] at hres hstate <;> cases hres
  · exact ⟨rfl, hstate, nofun⟩
  · exact hf a (hP a (by rw [hx])) s' t' hstate

/-- A check in front of the rest. -/
theorem check {x : Except ε α} (hf : ∀ a, Lockstep R Q (f a) (g a)) :
    Lockstep R Q (ofExcept x >>= f) (ofExcept x >>= g) :=
  bind (of_forall fun _ _ hR => ⟨rfl, hR⟩) fun a _ => hf a

/-- A loop over a list; the items of the list may be used. -/
theorem foldlM {f : β → α → Act σ ε β} {g : β → α → Act τ ε β} :
    ∀ {l : List α} {b : β}, (∀ a ∈ l, ∀ b, Q b → Lockstep R Q (f b a) (g b a)) → Q b →
      Lockstep R Q (l.foldlM f b) (l.foldlM g b)
  | [], _, _, hb => pure hb
  | a :: l, b, h, hb => by
    rw [foldlM_cons, foldlM_cons]
    exact (h a mem_cons_self b hb).bind fun b' hb' =>
      foldlM (fun a' ha' => h a' (mem_cons_of_mem _ ha')) hb'

end Lockstep

end Act

end Voltha
