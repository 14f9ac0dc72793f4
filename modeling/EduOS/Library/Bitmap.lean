import Mathlib

/-!
# Packed bitmaps

An array of 32-bit words read as one long bit vector: bit `i` is bit `i % 32`
of word `i / 32`.  The three operations are the mask operations every C bitmap
performs; `test_set` and `test_clear` are the only facts about them that the
rest of the development uses, so no later proof looks inside a word.

`clearCount w n` counts the clear bits below `n`.  Setting a clear bit below
`n` takes one away (`clearCount_set`), clearing a set one adds one
(`clearCount_clear`), and nothing else changes the count.
-/

namespace EduOS

open Function

/-- An array of 32-bit words. -/
abbrev Words := ℕ → BitVec 32

namespace Words

/-- The mask selecting bit `i` inside its word: `1 << (i % 32)`. -/
def mask (i : ℕ) : BitVec 32 := 1#32 <<< (i % 32)

/-- `w[i / 32] |= 1 << (i % 32)` -/
def set (w : Words) (i : ℕ) : Words :=
  update w (i / 32) (w (i / 32) ||| mask i)

/-- `w[i / 32] &= ~(1 << (i % 32))` -/
def clear (w : Words) (i : ℕ) : Words :=
  update w (i / 32) (w (i / 32) &&& ~~~ mask i)

/-- `(w[i / 32] & (1 << (i % 32))) != 0` -/
def test (w : Words) (i : ℕ) : Bool :=
  (w (i / 32) &&& mask i) != 0#32

/-- The mask of `i` has exactly the bit `i % 32`. -/
theorem getLsbD_mask (i k : ℕ) : (mask i).getLsbD k = decide (k = i % 32) := by
  unfold mask
  have small : i % 32 < 32 := Nat.mod_lt _ (by omega)
  by_cases same : k = i % 32
  · subst same
    simp [small]
  have : k - i % 32 = 0 → k < i % 32 := by omega
  by_cases below : k < i % 32
  · simp [below, same]
  · have positive : k - i % 32 ≠ 0 := fun zero => below (this zero)
    simp [same, positive]

/-- A masked word is non-zero exactly when it has the masked bit. -/
theorem and_mask_ne_zero (x : BitVec 32) (i : ℕ) :
    ((x &&& mask i) != 0#32) = x.getLsbD (i % 32) := by
  by_cases bit : x.getLsbD (i % 32) = true
  · rw [bit, bne_iff_ne]
    intro zero
    have := congrArg (fun y => BitVec.getLsbD y (i % 32)) zero
    simp [getLsbD_mask, bit] at this
  · have zero : x &&& mask i = 0#32 := by
      apply BitVec.eq_of_getLsbD_eq
      intro k _
      by_cases same : k = i % 32
      · simp [same, bit]
      · simp [getLsbD_mask, same]
    simp [zero, bit]

theorem test_eq_getLsbD (w : Words) (i : ℕ) : w.test i = (w (i / 32)).getLsbD (i % 32) :=
  and_mask_ne_zero _ _

variable {i j n : ℕ} {w : Words}

/-- Two positions in the same word with the same offset are equal. -/
theorem eq_of_div_mod (word : i / 32 = j / 32) (offset : i % 32 = j % 32) : i = j := by
  omega

theorem test_set (w : Words) (i j : ℕ) : (w.set i).test j = (decide (i = j) || w.test j) := by
  rw [test_eq_getLsbD, test_eq_getLsbD, set]
  by_cases word : j / 32 = i / 32
  · rw [word, update_self, BitVec.getLsbD_or, getLsbD_mask, Bool.or_comm]
    by_cases offset : j % 32 = i % 32
    · simp [offset, eq_of_div_mod word.symm offset.symm]
    · have : i ≠ j := fun same => offset (by rw [same])
      simp [offset, this]
  · have : i ≠ j := fun same => word (by rw [same])
    rw [update_of_ne word]
    simp [this]

theorem test_clear (w : Words) (i j : ℕ) : (w.clear i).test j = (!decide (i = j) && w.test j) := by
  rw [test_eq_getLsbD, test_eq_getLsbD, clear]
  by_cases word : j / 32 = i / 32
  · have small : j % 32 < 32 := Nat.mod_lt _ (by omega)
    rw [word, update_self, BitVec.getLsbD_and, BitVec.getLsbD_not, getLsbD_mask, Bool.and_comm]
    by_cases offset : j % 32 = i % 32
    · simp [offset, eq_of_div_mod word.symm offset.symm]
    · have : i ≠ j := fun same => offset (by rw [same])
      simp [offset, small, this]
  · have : i ≠ j := fun same => word (by rw [same])
    rw [update_of_ne word]
    simp [this]

theorem ext_test {w' : Words} (same : ∀ i, w.test i = w'.test i) : w = w' := by
  funext k
  refine BitVec.eq_of_getLsbD_eq fun j lt => ?_
  have bit := same (32 * k + j)
  have word : (32 * k + j) / 32 = k := by omega
  have offset : (32 * k + j) % 32 = j := by omega
  rwa [test_eq_getLsbD, test_eq_getLsbD, word, offset] at bit

@[simp] theorem test_set_self (w : Words) (i : ℕ) : (w.set i).test i = true := by
  simp [test_set]

theorem test_set_of_ne (w : Words) (different : i ≠ j) : (w.set i).test j = w.test j := by
  simp [test_set, different]

@[simp] theorem test_clear_self (w : Words) (i : ℕ) : (w.clear i).test i = false := by
  simp [test_clear]

theorem test_clear_of_ne (w : Words) (different : i ≠ j) : (w.clear i).test j = w.test j := by
  simp [test_clear, different]

/-- The array every word of which is all ones (`memset 0xFF`). -/
def full : Words := fun _ => BitVec.allOnes 32

@[simp] theorem test_full (i : ℕ) : full.test i = true := by
  have small : i % 32 < 32 := Nat.mod_lt _ (by omega)
  rw [test_eq_getLsbD, full, BitVec.getLsbD_allOnes]
  exact decide_eq_true small

/-- The array of zero words (`memset 0`). -/
def zero : Words := fun _ => 0#32

@[simp] theorem test_zero (i : ℕ) : zero.test i = false := by
  simp [test_eq_getLsbD, zero]

/-! ## Counting clear bits -/

/-- How many of the bits `0 … n - 1` are clear. -/
def clearCount (w : Words) (n : ℕ) : ℕ :=
  Nat.count (fun i => w.test i = false) n

theorem clearCount_succ (w : Words) (n : ℕ) :
    w.clearCount (n + 1) = w.clearCount n + if w.test n = false then 1 else 0 :=
  Nat.count_succ _ _

theorem clearCount_le (w : Words) (n : ℕ) : w.clearCount n ≤ n :=
  Nat.count_le _

/-- The count depends only on the bits it counts. -/
theorem clearCount_congr {w' : Words} (agree : ∀ i, i < n → w'.test i = w.test i) :
    w'.clearCount n = w.clearCount n := by
  induction n with
  | zero => rfl
  | succ n ih =>
    rw [clearCount_succ, clearCount_succ, ih fun i lt => agree i (by omega), agree n (by omega)]

theorem clearCount_set (below : i < n) (free : w.test i = false) :
    (w.set i).clearCount n + 1 = w.clearCount n := by
  induction n with
  | zero => omega
  | succ n ih =>
    rw [clearCount_succ, clearCount_succ]
    by_cases last : i = n
    · subst last
      rw [clearCount_congr fun j lt => test_set_of_ne w (Nat.ne_of_gt lt)]
      simp [free]
    · rw [test_set_of_ne w last]
      omega

theorem clearCount_clear (below : i < n) (used : w.test i = true) :
    (w.clear i).clearCount n = w.clearCount n + 1 := by
  induction n with
  | zero => omega
  | succ n ih =>
    rw [clearCount_succ, clearCount_succ]
    by_cases last : i = n
    · subst last
      rw [clearCount_congr fun j lt => test_clear_of_ne w (Nat.ne_of_gt lt)]
      simp [used]
    · rw [test_clear_of_ne w last]
      omega

@[simp] theorem clearCount_full (n : ℕ) : full.clearCount n = 0 :=
  Nat.count_iff_forall_not.mpr fun i _ => by simp

@[simp] theorem clearCount_zero (n : ℕ) : zero.clearCount n = n :=
  Nat.count_of_forall fun i _ => test_zero i

/-- The bits that are not clear are set. -/
theorem count_test_add_clearCount (w : Words) (n : ℕ) :
    Nat.count (fun i => w.test i = true) n + w.clearCount n = n := by
  induction n with
  | zero => rfl
  | succ n ih =>
    rw [Nat.count_succ, clearCount_succ]
    cases w.test n <;> simp <;> omega

/-! ## Setting a range of bits -/

/-- `for (j = 0; j < count; j++)` set bit `start + j`. -/
def setRange (w : Words) (start count : ℕ) : Words :=
  (List.range count).foldl (fun w j => w.set (start + j)) w

@[simp] theorem setRange_zero (w : Words) (start : ℕ) : w.setRange start 0 = w := rfl

theorem setRange_succ (w : Words) (start count : ℕ) :
    w.setRange start (count + 1) = (w.setRange start count).set (start + count) := by
  simp [setRange, List.range_succ]

theorem test_setRange (w : Words) (start count j : ℕ) :
    (w.setRange start count).test j = (decide (start ≤ j ∧ j < start + count) || w.test j) := by
  induction count with
  | zero =>
    have : ¬(start ≤ j ∧ j < start) := by omega
    simp [this]
  | succ count ih =>
    rw [setRange_succ, test_set, ih, ← Bool.or_assoc, ← Bool.decide_or]
    congr 1
    apply decide_eq_decide.mpr
    omega

/-- Clearing the first bit of a range again. -/
theorem clear_setRange {start : ℕ} (free : w.test start = false) (count : ℕ) :
    (w.setRange start (count + 1)).clear start = w.setRange (start + 1) count := by
  refine ext_test fun i => ?_
  rw [test_clear, test_setRange, test_setRange]
  by_cases first : start = i
  · subst first
    simp [free]
  · have same : start ≤ i ∧ i < start + (count + 1) ↔ start + 1 ≤ i ∧ i < start + 1 + count := by
      omega
    simp [first, same]

/-- Setting `count` clear bits below `n` takes `count` away from the count of
clear ones. -/
theorem clearCount_setRange {start count : ℕ} (below : start + count ≤ n)
    (free : ∀ j, j < count → w.test (start + j) = false) :
    (w.setRange start count).clearCount n + count = w.clearCount n := by
  induction count with
  | zero => simp
  | succ count ih =>
    have earlier := ih (by omega) fun j lt => free j (by omega)
    have last : (w.setRange start count).test (start + count) = false := by
      have : ¬(start ≤ start + count ∧ start + count < start + count) := by omega
      simp only [test_setRange, this, decide_false, Bool.false_or]
      exact free count (by omega)
    rw [setRange_succ]
    have := clearCount_set (n := n) (by omega) last
    omega

end Words

end EduOS
