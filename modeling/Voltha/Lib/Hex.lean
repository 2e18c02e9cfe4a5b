import Mathlib

/-!
# Hexadecimal numerals

Numbers written with lower-case hexadecimal digits, filled up with zeros to a width, and numerals
read in a base.  Texts are lists of characters, ordered lexicographically.

* `format`: a number in at least so many digits; `fixed`: in exactly so many.
* `int_format`: **what is read in base 16 is what was written**.
* `format_eq_fixed`: a number that is small enough is written in exactly the width.
* `format_lt_format_iff`: **numerals of one width are ordered as their numbers**.
* `int_ten_format`: read in base 10, a numeral gives its number only if it has one digit.
-/

namespace Voltha.Hex

open List Option

/-- A text, character by character. -/
abbrev Text := List Char

instance : LawfulBEq Text := inferInstance

/-! ## Digits -/

/-- The character of a digit. -/
def digit (d : ℕ) : Char := if d < 10 then Char.ofNat (48 + d) else Char.ofNat (87 + d)

/-- The digit that a character is. -/
def digitValue (c : Char) : Option ℕ :=
  if 48 ≤ c.toNat ∧ c.toNat ≤ 57 then some (c.toNat - 48)
  else if 97 ≤ c.toNat ∧ c.toNat ≤ 102 then some (c.toNat - 87)
  else if 65 ≤ c.toNat ∧ c.toNat ≤ 70 then some (c.toNat - 55)
  else none

variable {d m : ℕ}

theorem digitValue_digit (h : d < 16) : digitValue (digit d) = some d := by
  interval_cases d <;> decide

theorem digit_lt_digit_iff {e : ℕ} (hd : d < 16) (he : e < 16) : digit d < digit e ↔ d < e := by
  interval_cases d <;> interval_cases e <;> decide

theorem digit_injOn {e : ℕ} (hd : d < 16) (he : e < 16) (h : digit d = digit e) : d = e := by
  have hval := digitValue_digit hd
  rw [h, digitValue_digit he] at hval
  exact (some_inj.1 hval).symm

/-! ## Writing -/

/-- The digits of a number, the most significant one first; `fuel` bounds their number. -/
def digits : ℕ → ℕ → Text
  | 0, _ => []
  | fuel + 1, n => if n < 16 then [digit n] else digits fuel (n / 16) ++ [digit (n % 16)]

/-- A number in hexadecimal. -/
def hex (n : ℕ) : Text := digits (n + 1) n

/-- A number in hexadecimal, filled up with zeros to a width. -/
def format (width n : ℕ) : Text := (hex n).leftpad width '0'

/-- The last digits of a number. -/
def fixed : ℕ → ℕ → Text
  | 0, _ => []
  | width + 1, n => fixed width (n / 16) ++ [digit (n % 16)]

theorem digits_eq_digits : ∀ (f g : ℕ) {n : ℕ}, n < f → n < g → digits f n = digits g n
  | f + 1, g + 1, n, h, h' => by
    rw [digits, digits]
    split
    · rfl
    · rw [digits_eq_digits f g (by omega) (by omega)]

variable {n width : ℕ}

theorem hex_of_lt (h : n < 16) : hex n = [digit n] := if_pos h

theorem hex_of_le (h : 16 ≤ n) : hex n = hex (n / 16) ++ [digit (n % 16)] := by
  rw [hex, digits, if_neg (Nat.not_lt.2 h), hex,
    digits_eq_digits n (n / 16 + 1) (by omega) (Nat.lt_succ_self _)]

@[simp] theorem length_fixed (width n : ℕ) : (fixed width n).length = width := by
  induction width generalizing n with
  | zero => rfl
  | succ width ih => rw [fixed, length_append, ih, length_singleton]

theorem fixed_zero (width : ℕ) : fixed width 0 = replicate width '0' := by
  induction width with
  | zero => rfl
  | succ width ih =>
    rw [fixed, Nat.zero_div, ih, Nat.zero_mod, replicate_succ']
    rfl

theorem leftpad_append_singleton (width : ℕ) (s : Text) (c : Char) :
    (s ++ [c]).leftpad (width + 1) '0' = s.leftpad width '0' ++ [c] := by
  simp only [leftpad, length_append, length_singleton, Nat.add_sub_add_right,
    append_assoc]

/-- **A number that is small enough is written in exactly the width.** -/
theorem format_eq_fixed (hw : 0 < width) (h : n < 16 ^ width) : format width n = fixed width n := by
  induction width generalizing n with
  | zero => exact absurd hw (Nat.lt_irrefl 0)
  | succ width ih =>
    rw [format, fixed]
    rcases Nat.lt_or_ge n 16 with hn | hn
    · rw [hex_of_lt hn, ← nil_append [digit n], leftpad_append_singleton, Nat.mod_eq_of_lt hn,
        Nat.div_eq_of_lt hn, fixed_zero]
      simp [leftpad]
    · have hdiv : n / 16 < 16 ^ width := by
        rw [Nat.div_lt_iff_lt_mul (by decide), ← Nat.pow_succ]
        exact h
      have hpos : 0 < width := by
        rcases Nat.eq_zero_or_pos width with rfl | hpos
        · omega
        · exact hpos
      rw [hex_of_le hn, leftpad_append_singleton, ← ih hpos hdiv]
      rfl

theorem length_format (hw : 0 < width) (h : n < 16 ^ width) : (format width n).length = width := by
  rw [format_eq_fixed hw h, length_fixed]

/-! ## Reading -/

/-- One more digit of a numeral. -/
def readDigit (base n : ℕ) (c : Char) : Option ℕ :=
  (digitValue c).bind fun d => if d < base then some (base * n + d) else none

/-- A numeral read in a base, after digits that stand for `n`. -/
def readFrom (base n : ℕ) (s : Text) : Option ℕ := s.foldlM (readDigit base) n

/-- `int(s, base)` for a text of digits; any other text is an error. -/
def int (base : ℕ) (s : Text) : Option ℕ := if s = [] then none else readFrom base 0 s

theorem readFrom_append (base n : ℕ) (s t : Text) :
    readFrom base n (s ++ t) = (readFrom base n s).bind fun m => readFrom base m t :=
  foldlM_append

theorem readDigit_digit {base : ℕ} (hbase : base ≤ 16) (h : d < base) (n : ℕ) :
    readDigit base n (digit d) = some (base * n + d) := by
  rw [readDigit, digitValue_digit (by omega), bind_some, if_pos h]

theorem readFrom_hex (n : ℕ) : readFrom 16 0 (hex n) = some n := by
  induction n using Nat.strong_induction_on with
  | _ n ih =>
    rcases Nat.lt_or_ge n 16 with hn | hn
    · rw [hex_of_lt hn, readFrom, foldlM_cons, readDigit_digit le_rfl hn]
      simp
    · rw [hex_of_le hn, readFrom_append, ih (n / 16) (by omega), bind_some, readFrom,
        foldlM_cons, readDigit_digit le_rfl (Nat.mod_lt n (by decide))]
      simp only [foldlM_nil, Option.bind_eq_bind, Option.bind_some, Option.pure_def,
        some_inj]
      omega

theorem readFrom_zeros (base : ℕ) (hbase : 0 < base) (k : ℕ) :
    readFrom base 0 (replicate k '0') = some 0 := by
  induction k with
  | zero => rfl
  | succ k ih =>
    have hzero : readDigit base 0 '0' = some 0 := by
      rw [readDigit, show digitValue '0' = some 0 from rfl, bind_some, if_pos hbase,
        Nat.mul_zero]
    rw [replicate_succ, readFrom, foldlM_cons, hzero]
    exact ih

theorem hex_ne_nil (n : ℕ) : hex n ≠ [] := by
  rcases Nat.lt_or_ge n 16 with hn | hn
  · rw [hex_of_lt hn]
    exact cons_ne_nil _ _
  · rw [hex_of_le hn]
    exact append_ne_nil_of_right_ne_nil _ (cons_ne_nil _ _)

theorem format_ne_nil (width n : ℕ) : format width n ≠ [] :=
  append_ne_nil_of_right_ne_nil _ (hex_ne_nil n)

theorem readFrom_format (width n : ℕ) : readFrom 16 0 (format width n) = some n := by
  rw [format, leftpad, readFrom_append, readFrom_zeros 16 (by decide), bind_some,
    readFrom_hex]

/-- **What is read is what was written.** -/
theorem int_format (width n : ℕ) : int 16 (format width n) = some n := by
  rw [int, if_neg (format_ne_nil width n), readFrom_format]

/-- More zeros in front do not matter. -/
theorem int_zeros_append (k width n : ℕ) :
    int 16 (replicate k '0' ++ format width n) = some n := by
  rw [int, if_neg (append_ne_nil_of_right_ne_nil _ (format_ne_nil width n)), readFrom_append,
    readFrom_zeros 16 (by decide), bind_some, readFrom_format]

/-- A text that can be read has only digits. -/
theorem isSome_digitValue_of_readFrom {base v : ℕ} :
    ∀ {s : Text} {n : ℕ}, readFrom base n s = some v → ∀ c ∈ s, (digitValue c).isSome
  | [], _, _ => nofun
  | c :: s, n, h => by
    rw [readFrom, foldlM_cons] at h
    obtain ⟨m, hm, hrest⟩ := bind_eq_some_iff.1 h
    obtain ⟨d, hd, -⟩ := bind_eq_some_iff.1 hm
    refine forall_mem_cons.2 ⟨?_, isSome_digitValue_of_readFrom hrest⟩
    rw [hd, isSome_some]

theorem format_injective (width : ℕ) : Function.Injective (format width) := fun m n h => by
  have hread := int_format width m
  rw [h, int_format] at hread
  exact (some_inj.1 hread).symm

/-! ## The order of numerals -/

theorem append_singleton_lt_iff {x y : Char} :
    ∀ {s t : Text}, s.length = t.length → (s ++ [x] < t ++ [y] ↔ s < t ∨ s = t ∧ x < y)
  | [], [], _ => by simp [cons_lt_cons_iff]
  | a :: s, b :: t, h => by
    have hlen : s.length = t.length := by simpa using h
    simp only [cons_append, cons_lt_cons_iff, append_singleton_lt_iff hlen,
      cons.injEq]
    tauto

theorem fixed_injOn (hm : m < 16 ^ width) (hn : n < 16 ^ width)
    (h : fixed width m = fixed width n) :
    m = n := by
  induction width generalizing m n with
  | zero => omega
  | succ width ih =>
    have hlen : (fixed width (m / 16)).length = (fixed width (n / 16)).length := by simp
    obtain ⟨hhigh, hlow⟩ := append_inj h hlen
    have hdiv := ih (by rw [Nat.div_lt_iff_lt_mul (by decide), ← Nat.pow_succ]; exact hm)
      (by rw [Nat.div_lt_iff_lt_mul (by decide), ← Nat.pow_succ]; exact hn) hhigh
    have hmod := digit_injOn (Nat.mod_lt m (by decide)) (Nat.mod_lt n (by decide))
      (cons.inj hlow).1
    omega

theorem fixed_lt_fixed_iff (hm : m < 16 ^ width) (hn : n < 16 ^ width) :
    fixed width m < fixed width n ↔ m < n := by
  induction width generalizing m n with
  | zero =>
    have hm0 : m = 0 := by simpa using hm
    have hn0 : n = 0 := by simpa using hn
    simp [hm0, hn0]
  | succ width ih =>
    have hm' : m / 16 < 16 ^ width := by
      rw [Nat.div_lt_iff_lt_mul (by decide), ← Nat.pow_succ]
      exact hm
    have hn' : n / 16 < 16 ^ width := by
      rw [Nat.div_lt_iff_lt_mul (by decide), ← Nat.pow_succ]
      exact hn
    have hlen : (fixed width (m / 16)).length = (fixed width (n / 16)).length := by simp
    rw [fixed, fixed, append_singleton_lt_iff hlen, ih hm' hn',
      digit_lt_digit_iff (Nat.mod_lt m (by decide)) (Nat.mod_lt n (by decide))]
    constructor
    · rintro (h | ⟨heq, h⟩)
      · omega
      · have := fixed_injOn hm' hn' heq
        omega
    · intro h
      rcases Nat.lt_or_ge (m / 16) (n / 16) with h' | h'
      · exact Or.inl h'
      · have heq : m / 16 = n / 16 := by omega
        exact Or.inr ⟨by rw [heq], by omega⟩

/-- **Numerals of one width are ordered as their numbers.** -/
theorem format_lt_format_iff (hw : 0 < width) (hm : m < 16 ^ width) (hn : n < 16 ^ width) :
    format width m < format width n ↔ m < n := by
  rw [format_eq_fixed hw hm, format_eq_fixed hw hn, fixed_lt_fixed_iff hm hn]

/-! ## Hexadecimal numerals read in base 10 -/

/-- Read in base 10, a hexadecimal numeral stands for at most its number, and for less if it has
more than one digit. -/
theorem readFrom_ten_hex {v : ℕ} (h : readFrom 10 0 (hex n) = some v) :
    v ≤ n ∧ (10 ≤ n → v < n) := by
  induction n using Nat.strong_induction_on generalizing v with
  | _ n ih =>
    have hdigit : ∀ {m d w : ℕ}, d < 16 → readDigit 10 m (digit d) = some w →
        w = 10 * m + d ∧ d < 10 := by
      intro m d w hd hw
      rw [readDigit, digitValue_digit hd, bind_some] at hw
      split at hw
      · next hlt => exact ⟨(some_inj.1 hw).symm, hlt⟩
      · cases hw
    rcases Nat.lt_or_ge n 16 with hn | hn
    · rw [hex_of_lt hn, readFrom, foldlM_cons] at h
      obtain ⟨w, hw, hv⟩ := bind_eq_some_iff.1 h
      obtain ⟨rfl, hlt⟩ := hdigit hn hw
      cases hv
      omega
    · rw [hex_of_le hn, readFrom_append] at h
      obtain ⟨m, hm, hlast⟩ := bind_eq_some_iff.1 h
      rw [readFrom, foldlM_cons] at hlast
      obtain ⟨w, hw, hv⟩ := bind_eq_some_iff.1 hlast
      obtain ⟨rfl, hlt⟩ := hdigit (Nat.mod_lt n (by decide)) hw
      cases hv
      have := (ih (n / 16) (by omega) hm).1
      omega

theorem int_ten_format_eq (width n : ℕ) : int 10 (format width n) = readFrom 10 0 (hex n) := by
  rw [int, if_neg (format_ne_nil width n), format, leftpad, readFrom_append,
    readFrom_zeros 10 (by decide), bind_some]

theorem le_of_int_ten_format {v : ℕ} (h : int 10 (format width n) = some v) : v ≤ n := by
  rw [int_ten_format_eq] at h
  exact (readFrom_ten_hex h).1

/-- **Read in base 10, a numeral gives its number only if it has one digit.** -/
theorem int_ten_format : int 10 (format width n) = some n ↔ n < 10 := by
  rw [int_ten_format_eq]
  constructor
  · intro h
    by_contra hge
    exact Nat.lt_irrefl n ((readFrom_ten_hex h).2 (Nat.not_lt.1 hge))
  · intro h
    rw [hex_of_lt (by omega), readFrom, foldlM_cons, readDigit_digit (by decide) h]
    simp

end Voltha.Hex
