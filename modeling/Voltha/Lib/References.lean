import Mathlib

/-!
# Objects that refer to each other by name

A store has objects of several kinds.  An object has a name within its kind and refers to objects of
given kinds by their names.

* `Named`: a reference names an object of the store.
* `Closed P`: the references for which the kinds of the two ends are related by `P` name objects of
  the store.
* `Closed.change`: the store stays closed if new objects refer to objects that are there, and
  objects that are not there any more are not referred to.
-/

namespace Voltha.References

variable {κ ω ν : Type} (name : ω → ν) (refs : ω → List (κ × ν))

/-- The reference names an object of the store. -/
def Named (s : κ → List ω) (r : κ × ν) : Prop := ∃ o ∈ s r.1, name o = r.2

/-- The references between kinds that are related by `P` name objects of the store. -/
def Closed (P : κ → κ → Prop) (s : κ → List ω) : Prop :=
  ∀ k, ∀ o ∈ s k, ∀ r ∈ refs o, P k r.1 → Named name s r

variable {name refs} {P : κ → κ → Prop} {s s' : κ → List ω}

theorem Closed.mono {Q : κ → κ → Prop} (h : Closed name refs P s) (hPQ : ∀ k k', Q k k' → P k k') :
    Closed name refs Q s :=
  fun k o ho r hr hQ => h k o ho r hr (hPQ k r.1 hQ)

/-- **The rule for changes of a store.** -/
theorem Closed.change (h : Closed name refs P s)
    (hobjects : ∀ k, ∀ o ∈ s' k, o ∈ s k ∨ ∀ r ∈ refs o, Named name s r)
    (hnames : ∀ r, Named name s r → Named name s' r ∨ ∀ k, ∀ o ∈ s' k, r ∈ refs o → ¬ P k r.1) :
    Closed name refs P s' := by
  intro k o ho r hr hP
  have hnamed : Named name s r := by
    rcases hobjects k o ho with hold | hnew
    · exact h k o hold r hr hP
    · exact hnew r hr
  rcases hnames r hnamed with hnamed' | hnone
  · exact hnamed'
  · exact absurd hP (hnone k o ho hr)

end Voltha.References
