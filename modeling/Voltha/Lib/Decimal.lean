import Mathlib

/-!
# Numbers written in decimal

`str` writes an integer with its decimal digits and a sign, `int` reads it back.

* `int_str`: what is read is what was written.
* `map_toLower_str_ne`: what is written is not a word.
-/

namespace Voltha.Decimal

open List

/-- The character of a digit. -/
def digitChar (d : ℕ) : Char := Char.ofNat (48 + d)

/-- The digits of a number, the most significant one first; `fuel` bounds their number. -/
def digits : ℕ → ℕ → List Char
  | 0, _ => []
  | fuel + 1, n => if n < 10 then [digitChar n] else digits fuel (n / 10) ++ [digitChar (n % 10)]

/-- The number that digits stand for. -/
def value (l : List Char) : ℕ := l.foldl (fun n c => 10 * n + (c.toNat - 48)) 0

/-- The decimal form of an integer. -/
def str : ℤ → String
  | .ofNat n => String.ofList (digits (n + 1) n)
  | .negSucc n => String.ofList ('-' :: digits (n + 2) (n + 1))

/-- The integer of a decimal form. -/
def int (s : String) : ℤ :=
  match s.toList with
  | '-' :: l => -(value l : ℤ)
  | l => value l

theorem toNat_digitChar {d : ℕ} (h : d < 10) : (digitChar d).toNat = 48 + d := by
  interval_cases d <;> rfl

theorem value_append_digit (l : List Char) {d : ℕ} (h : d < 10) :
    value (l ++ [digitChar d]) = 10 * value l + d := by
  rw [value, foldl_append, foldl_cons, foldl_nil, toNat_digitChar h, value]
  omega

/-- Enough digits stand for the number itself. -/
theorem value_digits : ∀ {fuel n : ℕ}, n < fuel → value (digits fuel n) = n
  | fuel + 1, n, h => by
    rw [digits]
    split
    · next hn =>
      rw [← nil_append [digitChar n], value_append_digit [] hn]
      show 10 * 0 + n = n
      omega
    · next hn =>
      rw [value_append_digit _ (Nat.mod_lt n (by omega)), value_digits (by omega)]
      omega

/-- The characters of a number are digits. -/
theorem toNat_of_mem_digits : ∀ {fuel n : ℕ} {c : Char}, c ∈ digits fuel n →
    48 ≤ c.toNat ∧ c.toNat < 58
  | fuel + 1, n, c, h => by
    have hdigit : ∀ d < 10, 48 ≤ (digitChar d).toNat ∧ (digitChar d).toNat < 58 := by
      intro d hd
      rw [toNat_digitChar hd]
      omega
    rw [digits] at h
    split at h
    · next hn =>
      rw [mem_singleton.mp h]
      exact hdigit n hn
    · rcases mem_append.mp h with h | h
      · exact toNat_of_mem_digits h
      · rw [mem_singleton.mp h]
        exact hdigit _ (Nat.mod_lt n (by omega))

/-- **What is read is what was written.** -/
theorem int_str (v : ℤ) : int (str v) = v := by
  rcases v with n | n
  · unfold str int
    rw [String.toList_ofList]
    have hvalue : value (digits (n + 1) n) = n := value_digits (Nat.lt_succ_self n)
    split
    · next l hl =>
      -- no digit is the sign
      have hsign : '-' ∈ digits (n + 1) n := by
        rw [hl]
        exact mem_cons_self
      exact absurd (toNat_of_mem_digits hsign).1 (by decide)
    · rw [hvalue]
      rfl
  · unfold str int
    rw [String.toList_ofList]
    show -(value (digits (n + 2) (n + 1)) : ℤ) = Int.negSucc n
    rw [value_digits (Nat.lt_succ_self (n + 1))]
    rfl

theorem str_injective : Function.Injective str := fun v w h => by
  rw [← int_str v, ← int_str w, h]

variable {c : Char}

/-- A written number starts with a digit or with the sign. -/
theorem head_str (v : ℤ) {l : List Char} (h : (str v).toList = c :: l) : c.toNat < 58 := by
  rcases v with n | n
  · unfold str at h
    rw [String.toList_ofList] at h
    have hmem : c ∈ digits (n + 1) n := by
      rw [h]
      exact mem_cons_self
    exact (toNat_of_mem_digits hmem).2
  · unfold str at h
    rw [String.toList_ofList] at h
    obtain ⟨rfl, -⟩ := List.cons.inj h
    decide

/-- Lower case does not change the characters of a number. -/
theorem toLower_of_toNat_lt (h : c.toNat < 58) : c.toLower = c := by
  have hall : ∀ n < 58, (Char.ofNat n).toLower = Char.ofNat n := by decide
  rw [← Char.ofNat_toNat c]
  exact hall c.toNat h

/-- **A written number is not a word**, also not in another case. -/
theorem map_toLower_str_ne (v : ℤ) (hc : 58 ≤ c.toNat) (l : List Char) :
    (str v).toList.map Char.toLower ≠ c :: l := by
  intro h
  obtain ⟨c', l', hl, hlower, -⟩ := map_eq_cons_iff.mp h
  have hhead : c'.toNat < 58 := head_str v hl
  rw [toLower_of_toNat_lt hhead] at hlower
  rw [hlower] at hhead
  omega

end Voltha.Decimal
