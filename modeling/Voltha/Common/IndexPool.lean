import Mathlib

/-!
# Pools of indices

An `IndexPool` hands out the numbers `offset`, `offset + 1`, ... , one for each bit of a bit array;
the bit is set while the number is in use.

* `IsAllocated`: the number is in use.
* `getNext_spec`, `allocate_spec`, `isAllocated_release`, `preAllocate_spec`: what the operations do
  to the numbers in use.
-/

namespace Voltha.Common

open List

/-- A pool; `indices` has the positions of the bits that are set. -/
structure IndexPool where
  maxEntries : ℕ
  offset : ℕ
  indices : List ℕ
  deriving DecidableEq

namespace IndexPool

/-- `IndexPool(max_entries, offset)`. -/
def new (maxEntries offset : ℕ) : IndexPool := ⟨maxEntries, offset, []⟩

/-- `indices.set(1, (pos,))` for a position of the bit array. -/
def setBit (pool : IndexPool) (pos : ℕ) : IndexPool :=
  { pool with indices := if pos ∈ pool.indices then pool.indices else pool.indices ++ [pos] }

/-- `indices.set(0, (pos,))` for a position of the bit array. -/
def clearBit (pool : IndexPool) (pos : ℕ) : IndexPool :=
  { pool with indices := pool.indices.filter (· ≠ pos) }

/-- The first of `n` positions from `pos` on whose bit is not set. -/
def findZero (indices : List ℕ) : ℕ → ℕ → Option ℕ
  | 0, _ => none
  | n + 1, pos => if pos ∈ indices then findZero indices n (pos + 1) else some pos

/-- `get_next`. -/
def getNext (pool : IndexPool) : Option (ℕ × IndexPool) :=
  (findZero pool.indices pool.maxEntries 0).map fun pos => (pool.offset + pos, pool.setBit pos)

/-- The index belongs to a bit of the array. -/
def InRange (pool : IndexPool) (index : ℕ) : Prop :=
  pool.offset ≤ index ∧ index < pool.offset + pool.maxEntries

instance (pool : IndexPool) (index : ℕ) : Decidable (pool.InRange index) :=
  inferInstanceAs (Decidable (_ ∧ _))

/-- The index is in use. -/
def IsAllocated (pool : IndexPool) (index : ℕ) : Prop :=
  pool.offset ≤ index ∧ index - pool.offset ∈ pool.indices

instance (pool : IndexPool) (index : ℕ) : Decidable (pool.IsAllocated index) :=
  inferInstanceAs (Decidable (_ ∧ _))

/-- `allocate`. -/
def allocate (pool : IndexPool) (index : ℕ) : Option (ℕ × IndexPool) :=
  if ¬ pool.InRange index then none
  else if index - pool.offset ∈ pool.indices then none
  else some (index, pool.setBit (index - pool.offset))

/-- The bit that a position means, which counts from the end if it is negative; no bit where the bit
array raises `IndexError`. -/
def bitAt (pool : IndexPool) (index : ℕ) : Option ℕ :=
  if pool.InRange index then some (index - pool.offset)
  else if index < pool.offset ∧ pool.offset ≤ index + pool.maxEntries then
    some (index + pool.maxEntries - pool.offset)
  else none

/-- `release`. -/
def release (pool : IndexPool) (index : ℕ) : IndexPool :=
  match pool.bitAt index with
  | none => pool
  | some pos => pool.clearBit pos

/-- `pre_allocate`; nothing if it raises `IndexError`. -/
def preAllocate (pool : IndexPool) : List ℕ → Option IndexPool
  | [] => some pool
  | index :: indices => (pool.bitAt index).bind fun pos => (pool.setBit pos).preAllocate indices

/-! ## The numbers in use -/

variable {index : ℕ} {pool : IndexPool}

theorem not_isAllocated_new {n offset : ℕ} : ¬ (new n offset).IsAllocated index :=
  fun h => absurd h.2 not_mem_nil

theorem mem_set {l : List ℕ} {i pos : ℕ} :
    i ∈ (if pos ∈ l then l else l ++ [pos]) ↔ i ∈ l ∨ i = pos := by
  split
  · next hpos => exact ⟨.inl, fun h => h.elim id fun h => h ▸ hpos⟩
  · rw [mem_append, mem_singleton]

theorem isAllocated_setBit {pos : ℕ} :
    (pool.setBit pos).IsAllocated index ↔
      pool.IsAllocated index ∨ index = pool.offset + pos := by
  simp only [IsAllocated, setBit, mem_set]
  constructor
  · rintro ⟨hle, h | h⟩
    · exact .inl ⟨hle, h⟩
    · exact .inr (by omega)
  · rintro (h | rfl)
    · exact ⟨h.1, .inl h.2⟩
    · exact ⟨Nat.le_add_right .., .inr (Nat.add_sub_cancel_left ..)⟩

theorem findZero_spec {indices : List ℕ} {n pos p : ℕ} (h : findZero indices n pos = some p) :
    pos ≤ p ∧ p < pos + n ∧ p ∉ indices := by
  induction n generalizing pos with
  | zero => exact nomatch h
  | succ n ih =>
    rw [findZero] at h
    split at h
    · obtain ⟨hle, hlt, hnot⟩ := ih h
      exact ⟨by omega, by omega, hnot⟩
    · next hnot =>
      cases h
      exact ⟨Nat.le_refl _, by omega, hnot⟩

/-- A pool from which a number was taken. -/
structure Taken (pool : IndexPool) (index : ℕ) (pool' : IndexPool) : Prop where
  free : ¬ pool.IsAllocated index
  inRange : pool.InRange index
  isAllocated : ∀ j, pool'.IsAllocated j ↔ pool.IsAllocated j ∨ j = index
  maxEntries : pool'.maxEntries = pool.maxEntries
  offset : pool'.offset = pool.offset

theorem getNext_spec {pool' : IndexPool} (h : pool.getNext = some (index, pool')) :
    Taken pool index pool' := by
  obtain ⟨pos, hpos, heq⟩ := Option.map_eq_some_iff.mp h
  cases heq
  obtain ⟨-, hlt, hnot⟩ := findZero_spec hpos
  refine ⟨fun hall => hnot ?_, ⟨Nat.le_add_right .., by omega⟩, fun j => isAllocated_setBit, rfl,
    rfl⟩
  have hmem := hall.2
  rwa [Nat.add_sub_cancel_left] at hmem

theorem allocate_spec {pool' : IndexPool} {index' : ℕ}
    (h : pool.allocate index = some (index', pool')) : index' = index ∧ Taken pool index pool' := by
  rw [allocate] at h
  split at h
  · exact nomatch h
  · next hrange =>
    split at h
    · exact nomatch h
    · next hnot =>
      cases h
      have hin : pool.InRange index := not_not.mp hrange
      refine ⟨rfl, fun hall => hnot hall.2, hin, fun j => ?_, rfl, rfl⟩
      rw [isAllocated_setBit, Nat.add_sub_cancel' hin.1]

theorem bitAt_of_inRange (h : pool.InRange index) :
    pool.bitAt index = some (index - pool.offset) := if_pos h

theorem isAllocated_release (h : pool.InRange index) (j : ℕ) :
    (pool.release index).IsAllocated j ↔ pool.IsAllocated j ∧ j ≠ index := by
  rw [release, bitAt_of_inRange h]
  dsimp only
  rw [clearBit, IsAllocated, IsAllocated]
  dsimp only
  rw [mem_filter, decide_eq_true_iff]
  have hle := h.1
  constructor
  · rintro ⟨hj, hmem, hne⟩
    exact ⟨⟨hj, hmem⟩, fun heq => hne (by rw [heq])⟩
  · rintro ⟨⟨hj, hmem⟩, hne⟩
    exact ⟨hj, hmem, by omega⟩

theorem release_range (pool : IndexPool) (index : ℕ) :
    (pool.release index).maxEntries = pool.maxEntries ∧
      (pool.release index).offset = pool.offset := by
  rw [release]
  split
  · exact ⟨rfl, rfl⟩
  · exact ⟨rfl, rfl⟩

/-- Indices of the pool can be allocated in advance, also more than once. -/
theorem preAllocate_spec {indices : List ℕ} :
    ∀ {pool : IndexPool}, (∀ i ∈ indices, pool.InRange i) →
      ∃ pool', pool.preAllocate indices = some pool' ∧
        (∀ j, pool'.IsAllocated j ↔ pool.IsAllocated j ∨ j ∈ indices) ∧
        pool'.maxEntries = pool.maxEntries ∧ pool'.offset = pool.offset := by
  induction indices with
  | nil => exact fun {pool} _ => ⟨pool, rfl, fun j => by simp, rfl, rfl⟩
  | cons index indices ih =>
    intro pool h
    have hin := h index mem_cons_self
    have hrest : ∀ i ∈ indices, (pool.setBit (index - pool.offset)).InRange i :=
      fun i hi => h i (mem_cons_of_mem _ hi)
    obtain ⟨pool', hrun, hall, hmax, hoff⟩ := ih hrest
    refine ⟨pool', ?_, fun j => ?_, hmax, hoff⟩
    · rw [preAllocate, bitAt_of_inRange hin]
      exact hrun
    · rw [hall, isAllocated_setBit, Nat.add_sub_cancel' hin.1, mem_cons, or_assoc]

end IndexPool

end Voltha.Common
