import Voltha.Common.IndexPool
import Voltha.Lib.Run

/-!
# Calls of an index pool with any integers

`IndexPool` of `indexpool.py` as its callers can use it: the offset and the arguments are any
integers, `pre_allocate` takes a number or a tuple.  A number is turned into a bit position by
subtracting the offset; `BitArray.set` counts a negative position from the end, so that a number
below the range may mean a bit of the range.  `allocate` checks the range before it touches a bit,
`release` and `pre_allocate` do not.

* `IntPool.ofIndexPool`: the model with natural numbers is the restriction of this one.
* `Tracked`: a pool with the numbers in use by the history of its calls.
* `Agrees.correct_iff`: as long as the bits that are set are those of the numbers in use, a call is
  right exactly if no number outside the range that it passes on to the bit array changes a bit.
* `pool_calls_correct_iff`: the same for all calls of a run.
-/

namespace Voltha.Common

open List IndexPool

/-- A pool; `indices` has the positions of the bits that are set. -/
structure IntPool where
  maxEntries : ℕ
  offset : ℤ
  indices : List ℕ
  deriving DecidableEq

/-- What a call is given: a number, or a tuple of numbers. -/
inductive Arg where
  | int (i : ℤ)
  | tuple (l : List ℤ)
  deriving DecidableEq

inductive PoolCall where
  | getNext
  | allocate (index : Arg)
  | release (index : Arg)
  | preAllocate (index : Arg)
  deriving DecidableEq

/-- What a call ends with. -/
inductive Outcome where
  | returned (index : Option ℤ)
  | typeError
  | indexError
  deriving DecidableEq

/-- The numbers that a call is given. -/
def PoolCall.numbers : PoolCall → List ℤ
  | .getNext => []
  | .allocate (.int i) | .release (.int i) | .preAllocate (.int i) => [i]
  | .allocate (.tuple l) | .release (.tuple l) | .preAllocate (.tuple l) => l

namespace IntPool

/-! ## The operations -/

/-- `IndexPool(max_entries, offset)`. -/
def new (maxEntries : ℕ) (offset : ℤ) : IntPool := ⟨maxEntries, offset, []⟩

/-- The number belongs to a bit of the array. -/
def InRange (pool : IntPool) (index : ℤ) : Prop :=
  pool.offset ≤ index ∧ index < pool.offset + pool.maxEntries

instance (pool : IntPool) (index : ℤ) : Decidable (pool.InRange index) :=
  inferInstanceAs (Decidable (_ ∧ _))

/-- The number is in use. -/
def IsAllocated (pool : IntPool) (index : ℤ) : Prop :=
  pool.offset ≤ index ∧ (index - pool.offset).toNat ∈ pool.indices

instance (pool : IntPool) (index : ℤ) : Decidable (pool.IsAllocated index) :=
  inferInstanceAs (Decidable (_ ∧ _))

def setBit (pool : IntPool) (pos : ℕ) : IntPool :=
  { pool with indices := if pos ∈ pool.indices then pool.indices else pool.indices ++ [pos] }

def clearBit (pool : IntPool) (pos : ℕ) : IntPool :=
  { pool with indices := pool.indices.filter (· ≠ pos) }

/-- The bit that `BitArray.set` takes a position for; none where it raises `IndexError`. -/
def bitAt (pool : IntPool) (pos : ℤ) : Option ℕ :=
  let p := if pos < 0 then pos + pool.maxEntries else pos
  if 0 ≤ p ∧ p < pool.maxEntries then some p.toNat else none

/-- `get_next`. -/
def getNext (pool : IntPool) : Option ℤ × IntPool :=
  match findZero pool.indices pool.maxEntries 0 with
  | none => (none, pool)
  | some pos => (some (pool.offset + pos), pool.setBit pos)

/-- `allocate`. -/
def allocate (pool : IntPool) (index : ℤ) : Option ℤ × IntPool :=
  if ¬ pool.InRange index then (none, pool)
  else if (index - pool.offset).toNat ∈ pool.indices then (none, pool)
  else (some index, pool.setBit (index - pool.offset).toNat)

/-- `release`. -/
def release (pool : IntPool) (index : ℤ) : IntPool :=
  match pool.bitAt (index - pool.offset) with
  | none => pool
  | some pos => pool.clearBit pos

/-- `pre_allocate` of a tuple: the bits up to the first `IndexError` are set. -/
def preAllocate (pool : IntPool) : List ℤ → Outcome × IntPool
  | [] => (.returned none, pool)
  | index :: indices => match pool.bitAt (index - pool.offset) with
    | none => (.indexError, pool)
    | some pos => (pool.setBit pos).preAllocate indices

/-- One call.  A tuple minus a number raises `TypeError`; `pre_allocate` does nothing with a
number. -/
def step (pool : IntPool) : PoolCall → Outcome × IntPool
  | .getNext => (.returned pool.getNext.1, pool.getNext.2)
  | .allocate (.int i) => (.returned (pool.allocate i).1, (pool.allocate i).2)
  | .allocate (.tuple _) => (.typeError, pool)
  | .release (.int i) => (.returned none, pool.release i)
  | .release (.tuple _) => (.typeError, pool)
  | .preAllocate (.int _) => (.returned none, pool)
  | .preAllocate (.tuple l) => pool.preAllocate l

/-! ## What the operations do to the numbers in use -/

variable {pool : IntPool} {j index : ℤ} {pos : ℕ}

theorem isAllocated_setBit :
    (pool.setBit pos).IsAllocated j ↔ pool.IsAllocated j ∨ j = pool.offset + pos := by
  simp only [IsAllocated, setBit, IndexPool.mem_set]
  constructor
  · rintro ⟨hle, h | h⟩
    · exact .inl ⟨hle, h⟩
    · exact .inr (by omega)
  · rintro (h | rfl)
    · exact ⟨h.1, .inl h.2⟩
    · exact ⟨by omega, .inr (by omega)⟩

theorem isAllocated_clearBit :
    (pool.clearBit pos).IsAllocated j ↔ pool.IsAllocated j ∧ j ≠ pool.offset + pos := by
  rw [IsAllocated, IsAllocated, clearBit]
  dsimp only
  rw [mem_filter, decide_eq_true_iff, and_assoc]
  refine and_congr_right fun hle => and_congr_right fun _ => ?_
  omega

/-- The number in the range whose bit a number stands for: a number below the range counts from
its end. -/
def target (pool : IntPool) (index : ℤ) : ℤ :=
  if index < pool.offset then index + pool.maxEntries else index

/-- The numbers that stand for a bit. -/
def Reaches (pool : IntPool) (index : ℤ) : Prop := pool.InRange (pool.target index)

instance (pool : IntPool) (index : ℤ) : Decidable (pool.Reaches index) :=
  inferInstanceAs (Decidable (pool.InRange _))

theorem target_of_inRange (h : pool.InRange index) :
    pool.target index = index := if_neg (not_lt.2 h.1)

/-- The bit of a number, or none if it stands for no bit. -/
theorem bitAt_eq (pool : IntPool) (index : ℤ) :
    pool.bitAt (index - pool.offset) =
      if pool.Reaches index then some (pool.target index - pool.offset).toNat else none := by
  have hpos : (if index - pool.offset < 0 then index - pool.offset + pool.maxEntries
      else index - pool.offset) = pool.target index - pool.offset := by
    rw [target]
    split <;> split <;> omega
  simp only [bitAt, hpos]
  refine if_congr ?_ rfl rfl
  rw [Reaches, InRange]
  omega

/-- A number that stands for no bit is released without effect, any other frees the number it
stands for. -/
theorem isAllocated_release :
    (pool.release index).IsAllocated j ↔
      pool.IsAllocated j ∧ ¬ (pool.Reaches index ∧ j = pool.target index) := by
  rw [release, bitAt_eq]
  by_cases hr : pool.Reaches index
  · have hpos : pool.offset + ((pool.target index - pool.offset).toNat : ℤ) =
        pool.target index := by
      have := hr.1
      omega
    rw [if_pos hr]
    rw [isAllocated_clearBit, hpos]
    simp only [hr, true_and, ne_eq]
  · rw [if_neg hr]
    simp only [hr, false_and, not_false_eq_true, and_true]

/-- `pre_allocate` takes the numbers up to the first one that stands for no bit. -/
theorem isAllocated_preAllocate {j : ℤ} :
    ∀ {indices : List ℤ} {pool : IntPool}, ((pool.preAllocate indices).2.IsAllocated j ↔
      pool.IsAllocated j ∨
        ∃ i ∈ indices.takeWhile fun i => decide (pool.Reaches i), j = pool.target i)
  | [], pool => by simp [preAllocate]
  | index :: indices, pool => by
    rw [preAllocate, bitAt_eq]
    by_cases hr : pool.Reaches index
    · have hpos : pool.offset + ((pool.target index - pool.offset).toNat : ℤ) =
          pool.target index := by
        have := hr.1
        omega
      have htake : ((index :: indices).takeWhile fun i => decide (pool.Reaches i)) =
          index :: indices.takeWhile fun i => decide (pool.Reaches i) :=
        takeWhile_cons_of_pos (by simpa using hr)
      rw [if_pos hr, htake]
      rw [isAllocated_preAllocate, isAllocated_setBit, hpos, or_assoc]
      simp only [mem_cons, exists_eq_or_imp]
      exact Iff.rfl
    · rw [if_neg hr, takeWhile_cons_of_neg (by simpa using hr)]
      simp

theorem preAllocate_ne_some : ∀ (l : List ℤ) (pool : IntPool) (i : ℤ),
    (pool.preAllocate l).1 ≠ .returned (some i)
  | [], _, _ => nofun
  | index :: l, pool, i => by
    rw [preAllocate]
    split
    · exact nofun
    · exact preAllocate_ne_some l _ i

theorem findZero_eq_none {indices : List ℕ} {n : ℕ} (h : findZero indices n pos = none) :
    ∀ p, pos ≤ p → p < pos + n → p ∈ indices := by
  induction n generalizing pos with
  | zero => exact fun p hle hlt => absurd hlt (by omega)
  | succ n ih =>
    rw [findZero] at h
    split at h
    · next hmem =>
      intro p hle hlt
      rcases Nat.eq_or_lt_of_le hle with rfl | hlt'
      · exact hmem
      · exact ih h p hlt' (by omega)
    · cases h

/-- A pool that has nothing to hand out is used up. -/
theorem isAllocated_of_getNext_eq_none (h : pool.getNext.1 = none) (hj : pool.InRange j) :
    pool.IsAllocated j := by
  rw [getNext] at h
  split at h
  · next hnone =>
    have hle := hj.1
    have hlt := hj.2
    exact ⟨hle, findZero_eq_none hnone _ (Nat.zero_le _) (by omega)⟩
  · cases h

/-- A number that a pool hands out is in its range, was free, and is in use now. -/
theorem getNext_eq_some {i : ℤ} (h : pool.getNext.1 = some i) :
    pool.InRange i ∧ ¬ pool.IsAllocated i ∧
      ∀ j, pool.getNext.2.IsAllocated j ↔ pool.IsAllocated j ∨ j = i := by
  rw [getNext] at h ⊢
  split at h
  · cases h
  · next pos hpos =>
    obtain ⟨-, hlt, hnot⟩ := findZero_spec hpos
    cases h
    refine ⟨⟨by omega, by omega⟩, fun hall => hnot ?_, fun j => isAllocated_setBit⟩
    have hmem := hall.2
    rwa [show (pool.offset + (pos : ℤ) - pool.offset).toNat = pos by omega] at hmem

theorem allocate_eq_some {i : ℤ} (h : (pool.allocate index).1 = some i) :
    i = index ∧ pool.InRange i ∧ ¬ pool.IsAllocated i ∧
      ∀ j, (pool.allocate index).2.IsAllocated j ↔ pool.IsAllocated j ∨ j = i := by
  rw [allocate] at h ⊢
  split at h
  · cases h
  · next hrange =>
    split at h
    · cases h
    · next hnot =>
      cases h
      have hin : pool.InRange index := not_not.1 hrange
      rw [if_neg hrange, if_neg hnot]
      refine ⟨rfl, hin, fun hall => hnot hall.2, fun j => ?_⟩
      have hle := hin.1
      rw [isAllocated_setBit, show pool.offset + ((index - pool.offset).toNat : ℤ) = index by omega]

/-! ## Pools of natural numbers -/

/-- A pool of natural numbers. -/
def ofIndexPool (pool : IndexPool) : IntPool := ⟨pool.maxEntries, pool.offset, pool.indices⟩

section

variable (pool : IndexPool)

@[simp] theorem offset_ofIndexPool : (ofIndexPool pool).offset = pool.offset :=
  rfl

@[simp] theorem maxEntries_ofIndexPool : (ofIndexPool pool).maxEntries = pool.maxEntries := rfl

omit pool in
theorem inRange_ofIndexPool {pool : IndexPool} {index : ℕ} :
    (ofIndexPool pool).InRange index ↔ pool.InRange index := by
  rw [InRange, IndexPool.InRange, offset_ofIndexPool, maxEntries_ofIndexPool]
  omega

theorem bitAt_ofIndexPool (index : ℕ) :
    (ofIndexPool pool).bitAt (index - (ofIndexPool pool).offset) = pool.bitAt index := by
  rw [bitAt_eq, IndexPool.bitAt]
  by_cases hin : pool.InRange index
  · have hin' := inRange_ofIndexPool.2 hin
    have htarget := target_of_inRange hin'
    rw [if_pos hin, if_pos (show (ofIndexPool pool).Reaches index by rwa [Reaches, htarget]),
      htarget, Option.some_inj, offset_ofIndexPool]
    omega
  · rw [if_neg hin]
    by_cases hlow : index < pool.offset ∧ pool.offset ≤ index + pool.maxEntries
    · have htarget : (ofIndexPool pool).target index = index + pool.maxEntries :=
        if_pos (Int.ofNat_lt.2 hlow.1)
      have hreach : (ofIndexPool pool).Reaches index := by
        rw [Reaches, htarget, InRange, offset_ofIndexPool, maxEntries_ofIndexPool]
        omega
      rw [if_pos hlow, if_pos hreach, htarget, Option.some_inj, offset_ofIndexPool]
      omega
    · have hnot : ¬ (ofIndexPool pool).Reaches index := by
        rw [Reaches, target, InRange, offset_ofIndexPool, maxEntries_ofIndexPool]
        rw [IndexPool.InRange] at hin
        split <;> omega
      rw [if_neg hlow, if_neg hnot]

theorem getNext_ofIndexPool :
    (ofIndexPool pool).getNext = match pool.getNext with
      | none => (none, ofIndexPool pool)
      | some (index, pool') => (some (index : ℤ), ofIndexPool pool') := by
  rw [getNext, IndexPool.getNext]
  show (match findZero pool.indices pool.maxEntries 0 with
    | none => (none, ofIndexPool pool)
    | some pos => (some ((ofIndexPool pool).offset + pos), (ofIndexPool pool).setBit pos)) = _
  cases findZero pool.indices pool.maxEntries 0 with
  | none => rfl
  | some pos =>
    dsimp only [Option.map_some]
    rw [Int.natCast_add]
    rfl

theorem allocate_ofIndexPool (index : ℕ) :
    (ofIndexPool pool).allocate index = match pool.allocate index with
      | none => (none, ofIndexPool pool)
      | some (index', pool') => (some (index' : ℤ), ofIndexPool pool') := by
  have hpos : ((index : ℤ) - (ofIndexPool pool).offset).toNat = index - pool.offset := by
    rw [offset_ofIndexPool]
    omega
  rw [allocate, IndexPool.allocate, hpos]
  by_cases hin : pool.InRange index
  · rw [if_neg (not_not.2 hin), if_neg (not_not.2 (inRange_ofIndexPool.2 hin))]
    by_cases hused : index - pool.offset ∈ pool.indices
    · rw [if_pos hused]
      exact if_pos hused
    · rw [if_neg hused]
      exact if_neg hused
  · rw [if_pos hin, if_pos (mt inRange_ofIndexPool.1 hin)]

theorem release_ofIndexPool (index : ℕ) :
    (ofIndexPool pool).release index = ofIndexPool (pool.release index) := by
  rw [release, IndexPool.release, bitAt_ofIndexPool]
  cases pool.bitAt index <;> rfl

end

theorem preAllocate_ofIndexPool :
    ∀ {indices : List ℕ} {pool pool' : IndexPool}, pool.preAllocate indices = some pool' →
      (ofIndexPool pool).preAllocate (indices.map (↑)) = (.returned none, ofIndexPool pool')
  | [], pool, pool', h => by
    cases h
    rfl
  | index :: indices, pool, pool', h => by
    rw [IndexPool.preAllocate] at h
    obtain ⟨pos, hpos, hrest⟩ := Option.bind_eq_some_iff.1 h
    rw [map_cons, preAllocate, bitAt_ofIndexPool, hpos]
    exact preAllocate_ofIndexPool hrest

/-! ## The numbers in use by the history of calls -/

/-- The pool after a call. -/
def next (pool : IntPool) (c : PoolCall) : IntPool := (pool.step c).2

theorem range_preAllocate : ∀ (l : List ℤ) (pool : IntPool),
    (pool.preAllocate l).2.offset = pool.offset ∧
      (pool.preAllocate l).2.maxEntries = pool.maxEntries
  | [], _ => ⟨rfl, rfl⟩
  | index :: l, pool => by
    rw [preAllocate]
    split
    · exact ⟨rfl, rfl⟩
    · next pos _ => exact range_preAllocate l (pool.setBit pos)

/-- The calls do not change the range. -/
theorem inRange_next (pool : IntPool) (c : PoolCall) : (pool.next c).InRange j ↔ pool.InRange j := by
  have hrange : (pool.next c).offset = pool.offset ∧
      (pool.next c).maxEntries = pool.maxEntries := by
    rcases c with _ | (i | l) | (i | l) | (i | l)
    · show pool.getNext.2.offset = _ ∧ pool.getNext.2.maxEntries = _
      rw [getNext]
      split <;> exact ⟨rfl, rfl⟩
    · show (pool.allocate i).2.offset = _ ∧ (pool.allocate i).2.maxEntries = _
      rw [allocate]
      split_ifs <;> exact ⟨rfl, rfl⟩
    · exact ⟨rfl, rfl⟩
    · show (pool.release i).offset = _ ∧ (pool.release i).maxEntries = _
      rw [release]
      split <;> exact ⟨rfl, rfl⟩
    · exact ⟨rfl, rfl⟩
    · exact ⟨rfl, rfl⟩
    · exact range_preAllocate l pool
  rw [InRange, InRange, hrange.1, hrange.2]

/-- A pool with the numbers that are in use by the history of its calls. -/
structure Tracked where
  pool : IntPool
  held : Set ℤ

namespace Tracked

/-- The numbers in use after a call: one that was handed out comes in, so do those of a tuple that
lies in the range, and one that was released goes. -/
def hold (t : Tracked) : PoolCall → Outcome → Set ℤ
  | .getNext, .returned (some i) => insert i t.held
  | .allocate _, .returned (some i) => insert i t.held
  | .release (.int i), _ => t.held \ {i}
  | .preAllocate (.tuple l), _ => t.held ∪ {i | i ∈ l ∧ ∀ k ∈ l, t.pool.InRange k}
  | _, _ => t.held

/-- A call, and what it does to the numbers in use. -/
def next (t : Tracked) (c : PoolCall) : Tracked := ⟨t.pool.next c, t.hold c (t.pool.step c).1⟩

/-- The bits that are set are those of the numbers in use, which lie in the range. -/
structure Agrees (t : Tracked) : Prop where
  bits : ∀ j, t.pool.IsAllocated j ↔ j ∈ t.held
  inRange : ∀ j ∈ t.held, t.pool.InRange j

/-- A call is right: a number that is returned lies in the range and was not in use, a number
outside the range changes nothing, `get_next` returns `None` only if all numbers are in use, and
the bits go on to be those of the numbers in use. -/
structure Correct (t : Tracked) (c : PoolCall) : Prop where
  returned : ∀ i, (t.pool.step c).1 = .returned (some i) → t.pool.InRange i ∧ i ∉ t.held
  outside : (∃ i ∈ c.numbers, ¬ t.pool.InRange i) →
    ∀ j, (t.next c).pool.IsAllocated j ↔ t.pool.IsAllocated j
  none : c = .getNext → (t.pool.step c).1 = .returned none → ∀ j, t.pool.InRange j → j ∈ t.held
  agrees : (t.next c).Agrees

/-- The numbers outside the range that a call passes on to the bit array change no bit: a number
to release does not stand for a number in use, and those that a tuple has before the first one that
stands for no bit all stand for numbers in use. -/
def Harmless (t : Tracked) : PoolCall → Prop
  | .release (.int i) => ¬ t.pool.InRange i → t.pool.Reaches i → t.pool.target i ∉ t.held
  | .preAllocate (.tuple l) => (∃ i ∈ l, ¬ t.pool.InRange i) →
    ∀ i ∈ l.takeWhile fun i => decide (t.pool.Reaches i), t.pool.target i ∈ t.held
  | _ => True

variable {t : Tracked} {c : PoolCall}

/-- A number that is returned lies in the range, and was free. -/
theorem Agrees.returned (h : t.Agrees) {i : ℤ} (hi : (t.pool.step c).1 = .returned (some i)) :
    t.pool.InRange i ∧ i ∉ t.held := by
  rw [← h.bits]
  rcases c with _ | (index | l) | (index | l) | (index | l)
  · obtain ⟨hin, hfree, -⟩ := getNext_eq_some (by simpa [step] using hi)
    exact ⟨hin, hfree⟩
  · obtain ⟨-, hin, hfree, -⟩ := allocate_eq_some (by simpa [step] using hi)
    exact ⟨hin, hfree⟩
  · cases hi
  · cases hi
  · cases hi
  · cases hi
  · exact absurd hi (preAllocate_ne_some l _ i)

/-- Only numbers of the range come into use. -/
theorem Agrees.inRange_hold (h : t.Agrees) (hj : j ∈ t.hold c (t.pool.step c).1) :
    t.pool.InRange j := by
  unfold hold at hj
  split at hj
  · next heq =>
    rcases hj with rfl | hj
    · exact (h.returned heq).1
    · exact h.inRange j hj
  · next heq =>
    rcases hj with rfl | hj
    · exact (h.returned heq).1
    · exact h.inRange j hj
  · exact h.inRange j hj.1
  · rcases hj with hj | ⟨hj, hin⟩
    · exact h.inRange j hj
    · exact hin j hj
  · exact h.inRange j hj

/-- **A harmless call keeps the bits those of the numbers in use.** -/
theorem Agrees.bits_next (h : t.Agrees) (hharm : t.Harmless c) (j : ℤ) :
    (t.pool.next c).IsAllocated j ↔ j ∈ t.hold c (t.pool.step c).1 := by
  rcases c with _ | (i | l) | (i | l) | (i | l)
  · show t.pool.getNext.2.IsAllocated j ↔ j ∈ t.hold .getNext (.returned t.pool.getNext.1)
    cases hres : t.pool.getNext.1 with
    | none =>
      rw [getNext] at hres ⊢
      split at hres
      · exact h.bits j
      · cases hres
    | some i =>
      rw [(getNext_eq_some hres).2.2, h.bits, or_comm]
      rfl
  · show (t.pool.allocate i).2.IsAllocated j ↔
      j ∈ t.hold (.allocate (.int i)) (.returned (t.pool.allocate i).1)
    cases hres : (t.pool.allocate i).1 with
    | none =>
      rw [allocate] at hres ⊢
      split_ifs at hres ⊢
      · exact h.bits j
      · exact h.bits j
    | some k =>
      rw [(allocate_eq_some hres).2.2.2, h.bits, or_comm]
      rfl
  · exact h.bits j
  · show (t.pool.release i).IsAllocated j ↔ j ∈ t.held \ {i}
    rw [isAllocated_release, h.bits, Set.mem_sdiff, Set.mem_singleton_iff]
    refine and_congr_right fun hj => not_congr ⟨?_, ?_⟩
    · rintro ⟨hr, rfl⟩
      by_contra hne
      -- a number below the range would stand for one in use
      exact hharm (fun hi => hne (target_of_inRange hi)) hr hj
    · rintro rfl
      have htarget := target_of_inRange (h.inRange j hj)
      exact ⟨by rw [Reaches, htarget]; exact h.inRange j hj, htarget.symm⟩
  · exact h.bits j
  · exact h.bits j
  · show (t.pool.preAllocate l).2.IsAllocated j ↔ j ∈ t.held ∪ _
    rw [isAllocated_preAllocate, h.bits]
    by_cases hall : ∀ i ∈ l, t.pool.InRange i
    · have hreach : ∀ i ∈ l, decide (t.pool.Reaches i) = true := fun i hi =>
        decide_eq_true (by rw [Reaches, target_of_inRange (hall i hi)]; exact hall i hi)
      rw [takeWhile_eq_self_iff.2 hreach]
      refine or_congr_right ⟨?_, ?_⟩
      · rintro ⟨i, hi, rfl⟩
        rw [target_of_inRange (hall i hi)]
        exact ⟨hi, hall⟩
      · rintro ⟨hi, -⟩
        exact ⟨j, hi, (target_of_inRange (hall j hi)).symm⟩
    · have hout : ∃ i ∈ l, ¬ t.pool.InRange i := by simpa using hall
      have htaken : (∃ i ∈ l.takeWhile fun i => decide (t.pool.Reaches i), j = t.pool.target i) →
          j ∈ t.held := by
        rintro ⟨i, hi, rfl⟩
        exact hharm hout i hi
      exact ⟨fun hj => .inl (hj.elim id htaken), fun hj => hj.imp_right fun hk => absurd hk.2 hall⟩

/-- A number outside the range does not come into use, and was not. -/
theorem Agrees.hold_of_outside (h : t.Agrees) (hout : ∃ i ∈ c.numbers, ¬ t.pool.InRange i) :
    t.hold c (t.pool.step c).1 = t.held := by
  obtain ⟨i, hi, hout⟩ := hout
  rcases c with _ | (k | l) | (k | l) | (k | l)
  · cases hi
  · obtain rfl := mem_singleton.1 hi
    rw [step, allocate, if_pos hout]
    rfl
  · rfl
  · obtain rfl := mem_singleton.1 hi
    exact Set.sdiff_singleton_eq_self fun hheld => hout (h.inRange i hheld)
  · rfl
  · rfl
  · refine Set.union_eq_left.2 fun k hk => ?_
    exact absurd (hk.2 i hi) hout

/-- **A call is right exactly if its numbers outside the range are harmless.** -/
theorem Agrees.correct_iff (h : t.Agrees) (c : PoolCall) : t.Harmless c ↔ t.Correct c := by
  constructor
  · intro hharm
    refine ⟨fun i => h.returned, fun hout j => ?_, fun hc hnone j hj => ?_, h.bits_next hharm,
      fun j hj => (inRange_next t.pool c).2 (h.inRange_hold hj)⟩
    · rw [h.bits, ← h.hold_of_outside hout]
      exact h.bits_next hharm j
    · subst hc
      exact (h.bits j).1 (isAllocated_of_getNext_eq_none (by simpa [step] using hnone) hj)
  · intro hright
    rcases c with _ | (i | l) | (i | l) | (i | l)
    · trivial
    · trivial
    · trivial
    · intro hout hr hheld
      have hkept := (hright.outside ⟨i, mem_singleton_self i, hout⟩ (t.pool.target i)).2
        ((h.bits _).2 hheld)
      exact (isAllocated_release.1 hkept).2 ⟨hr, rfl⟩
    · trivial
    · trivial
    · intro hout i hi
      rw [← h.bits]
      exact (hright.outside hout (t.pool.target i)).1
        (isAllocated_preAllocate.2 (.inr ⟨i, hi, rfl⟩))

end Tracked

/-- **In a run all calls are right exactly if all their numbers outside the range are harmless.** -/
theorem pool_calls_correct_iff (maxEntries : ℕ) (offset : ℤ) (calls : List PoolCall) :
    AllAlong Tracked.next Tracked.Harmless ⟨new maxEntries offset, ∅⟩ calls ↔
      AllAlong Tracked.next Tracked.Correct ⟨new maxEntries offset, ∅⟩ calls := by
  refine allAlong_congr (I := Tracked.Agrees) (fun t c h hc => ((h.correct_iff c).1 hc).agrees)
    (fun t c h => h.correct_iff c) ⟨fun j => ?_, nofun⟩
  simp [IsAllocated, new]

/-- With all numbers of a pool in use, releasing the number just below the range frees the last
one, and `get_next` hands it out a second time. -/
theorem release_below_frees :
    let pool := [PoolCall.getNext, PoolCall.getNext].foldl next (new 2 5)
    pool.IsAllocated 6 ∧ ¬ pool.InRange 4 ∧ ¬ (pool.next (.release (.int 4))).IsAllocated 6 ∧
      ((pool.next (.release (.int 4))).step .getNext).1 = .returned (some 6) := by
  decide

end IntPool

end Voltha.Common
