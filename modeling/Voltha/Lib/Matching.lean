import Voltha.Lib.OrderedDict

/-!
# Dictionaries that match

Two dictionaries match when they have the same keys, and the values of each key are related.  The
relation of the values may again be that of two dictionaries, so that nested dictionaries are
compared level by level.

* `Matches.insert`, `Matches.erase`: matching dictionaries are changed at the same key.
* `Matches.insert_left`: one of them is changed, to a value that is related to what the other has.
* `Matches.get_map`: what is read through functions that agree on related values.
-/

namespace Voltha

open OrderedDict

variable {κ α β : Type} [DecidableEq κ]

/-- The dictionaries have the same keys, with related values. -/
def Matches (R : α → β → Prop) (d : List (κ × α)) (e : List (κ × β)) : Prop :=
  ∀ k, Option.Rel R (get d k) (get e k)

namespace Matches

variable {R : α → β → Prop} {d : List (κ × α)} {e : List (κ × β)} {k : κ}

theorem nil : Matches R ([] : List (κ × α)) ([] : List (κ × β)) := fun _ => .none

theorem none_iff (h : Matches R d e) : get d k = none ↔ get e k = none := by
  have hk := h k
  revert hk
  rcases get d k with _ | a <;> rcases get e k with _ | b <;> intro hk <;> cases hk
  · simp
  · simp

variable {a : α} {b : β}

section

variable (h : Matches R d e)
include h

theorem exists_right (ha : get d k = some a) : ∃ b, get e k = some b ∧ R a b := by
  have hk := h k
  rw [ha] at hk
  rcases hb : get e k with _ | b <;> rw [hb] at hk <;> cases hk
  exact ⟨b, rfl, ‹_›⟩

theorem insert (hab : R a b) : Matches R (insert k a d) (insert k b e) := by
  intro k'
  rw [get_insert, get_insert]
  split
  · exact .some hab
  · exact h k'

/-- In the second dictionary the key is taken out first. -/
theorem insert_erase (hab : R a b) :
    Matches R (OrderedDict.insert k a d) (OrderedDict.insert k b (OrderedDict.erase k e)) := by
  intro k'
  rw [get_insert, get_insert, get_erase]
  split
  · exact .some hab
  · exact h k'

theorem insert_left (hb : get e k = some b) (hab : R a b) :
    Matches R (OrderedDict.insert k a d) e := by
  intro k'
  rw [get_insert]
  split
  · next heq =>
    rw [heq, hb]
    exact .some hab
  · exact h k'

theorem erase : Matches R (erase k d) (erase k e) := by
  intro k'
  rw [get_erase, get_erase]
  split
  · exact .none
  · exact h k'

theorem eq_nil_iff : d = [] ↔ e = [] := by
  rw [OrderedDict.eq_nil_iff, OrderedDict.eq_nil_iff]
  exact forall_congr' fun k => h.none_iff

theorem get_map {γ : Type} {f : α → γ} {g : β → γ} (hfg : ∀ a b, R a b → f a = g b) (k : κ) :
    (get d k).map f = (get e k).map g := by
  have hk := h k
  revert hk
  rcases get d k with _ | a <;> rcases get e k with _ | b <;> intro hk <;> cases hk
  · rfl
  · exact congrArg some (hfg a b ‹_›)

end

/-- A nested dictionary that is missing is empty. -/
theorem getD {κ' : Type} [DecidableEq κ'] {d : List (κ' × List (κ × α))}
    {e : List (κ' × List (κ × β))} (h : Matches (Matches R) d e) (k : κ') :
    Matches R ((get d k).getD []) ((get e k).getD []) := by
  have hk := h k
  revert hk
  rcases get d k with _ | a <;> rcases get e k with _ | b <;> intro hk <;> cases hk
  · exact .nil
  · assumption

end Matches

end Voltha
