import EduOS.Library.Bitmap
import EduOS.Library.Run

/-!
# `include/bitmap.h`

The inline bitmap operations that the swap manager is built on.  `unsigned long`
has 32 bits on the target, so a bitmap is an array of 32-bit words.

`find_first_zero_bit` is two searches: whole words first, skipping the words that
are all ones, then the bits of the last, partial word one by one.
`findFirstZeroBit_cases` says that together they find the least clear bit.
-/

namespace EduOS

def bitsPerLong : ℕ := 32

/-- `set_bit` -/
def setBit (nr : ℕ) (addr : Words) : Words := addr.set nr

/-- `clear_bit` -/
def clearBit (nr : ℕ) (addr : Words) : Words := addr.clear nr

/-- `test_bit`: `1UL & (addr[nr / BITS_PER_LONG] >> (nr % BITS_PER_LONG))` -/
def testBit (nr : ℕ) (addr : Words) : Bool :=
  (1#32 &&& (addr (nr / bitsPerLong) >>> (nr % bitsPerLong))) != 0#32

/-- The inner loop of `find_first_zero_bit`: the bits of one word. -/
def findZeroBitInWord (addr : Words) (idx : ℕ) : Unit ⊕ ℕ :=
  let body (bit : ℕ) (_ : Unit) : Unit ⊕ ℕ :=
    if addr idx &&& (1#32 <<< bit) = 0#32 then Sum.inr (idx * bitsPerLong + bit)
    else Sum.inl ()
  scan body 0 bitsPerLong ()

/-- `find_first_zero_bit` -/
def findFirstZeroBit (addr : Words) (size : ℕ) : ℕ :=
  let words (idx : ℕ) (_ : Unit) : Unit ⊕ ℕ :=
    if addr idx ≠ BitVec.allOnes 32 then findZeroBitInWord addr idx else Sum.inl ()
  let rest (result : ℕ) (_ : Unit) : Unit ⊕ ℕ :=
    if !testBit result addr then Sum.inr result else Sum.inl ()
  match scan words 0 (size / bitsPerLong) () with
  | Sum.inr result => result
  | Sum.inl _ =>
    match scan rest (size / bitsPerLong * bitsPerLong) (size % bitsPerLong) () with
    | Sum.inr result => result
    | Sum.inl _ => size

/-- `bitmap_zero`: the whole array is cleared. -/
def bitmapZero : Words := Words.zero

/-! ## What they compute -/

theorem testBit_eq_test (nr : ℕ) (addr : Words) : testBit nr addr = addr.test nr := by
  rw [Words.test_eq_getLsbD, testBit, bitsPerLong, BitVec.and_comm]
  have first := Words.and_mask_ne_zero (addr (nr / 32) >>> (nr % 32)) 0
  exact first

/-- What a search has established before it looks at bit `i`. -/
def SetBelow (addr : Words) (i : ℕ) : Prop := ∀ j, j < i → addr.test j = true

/-- What a search returns: the least clear bit. -/
def FirstZero (addr : Words) (size r : ℕ) : Prop :=
  r < size ∧ addr.test r = false ∧ SetBelow addr r

/-- Bit `bit` of word `idx`, as a bit of the whole array. -/
theorem and_shift_eq_zero {addr : Words} {idx bit : ℕ} (small : bit < 32) :
    addr idx &&& (1#32 <<< bit) = 0#32 ↔ addr.test (idx * 32 + bit) = false := by
  have word : (idx * 32 + bit) / 32 = idx := by omega
  have offset : (idx * 32 + bit) % 32 = bit := by omega
  have mask : Words.mask (idx * 32 + bit) = 1#32 <<< bit := by rw [Words.mask, offset]
  rw [Words.test, word, mask, bne_eq_false_iff_eq]

/-- The inner loop returns the least clear bit of its word, if there is one. -/
theorem findZeroBitInWord_cases {addr : Words} {idx : ℕ} (below : SetBelow addr (idx * 32)) :
    (findZeroBitInWord addr idx = Sum.inl () ∧ SetBelow addr ((idx + 1) * 32)) ∨
      ∃ r, findZeroBitInWord addr idx = Sum.inr r ∧ FirstZero addr ((idx + 1) * 32) r := by
  rw [Nat.succ_mul]
  refine scan_first_each _ (fun r => r) addr.test false (idx * 32) rfl below fun bit small => ?_
  simp only [and_shift_eq_zero small, bitsPerLong]

/-- A word of all ones has no clear bit. -/
theorem setBelow_of_allOnes {addr : Words} {idx : ℕ} (below : SetBelow addr (idx * 32))
    (ones : addr idx = BitVec.allOnes 32) : SetBelow addr ((idx + 1) * 32) := by
  intro j lt
  by_cases earlier : j < idx * 32
  · exact below j earlier
  · have word : j / 32 = idx := by omega
    rw [Words.test_eq_getLsbD, word, ones, BitVec.getLsbD_allOnes]
    exact decide_eq_true (Nat.mod_lt _ (by omega))

/-- **`find_first_zero_bit` finds the least clear bit below `size`**, and returns
`size` if there is none. -/
theorem findFirstZeroBit_cases (addr : Words) (size : ℕ) :
    FirstZero addr size (findFirstZeroBit addr size) ∨
      findFirstZeroBit addr size = size ∧ SetBelow addr size := by
  have inWords := scan_first
    (fun idx _ => if addr idx ≠ BitVec.allOnes 32 then findZeroBitInWord addr idx else Sum.inl ())
    (fun r => r) addr.test false (· * 32) (Nat.zero_add (size / 32)) (fun j lt => by omega) ?pass
  case pass =>
    intro idx below set
    by_cases ones : addr idx = BitVec.allOnes 32
    · exact Or.inl ⟨if_neg (not_not.mpr ones), setBelow_of_allOnes set ones⟩
    · rw [if_pos ones]
      rcases findZeroBitInWord_cases set with next | ⟨r, result, inside, first⟩
      · exact Or.inl next
      · exact Or.inr ⟨r, result, by omega, first⟩
  have inRest := fun start => scan_first_each
    (fun result _ => if !testBit result addr then Sum.inr result else Sum.inl ()) (fun r => r)
    addr.test false 0
    (Nat.div_add_mod' size 32) start fun i _ => by simp [testBit_eq_test]
  rw [Nat.zero_add, Nat.zero_add] at inRest
  unfold findFirstZeroBit
  rcases inWords with ⟨result, set⟩ | ⟨r, result, inside, first⟩
  · rcases inRest set with ⟨result', set'⟩ | ⟨r, result', first⟩
    · exact Or.inr ⟨by simp only [bitsPerLong, result, result'], set'⟩
    · refine Or.inl ?_
      simp only [bitsPerLong, result, result']
      exact first
  · refine Or.inl ?_
    simp only [bitsPerLong, result]
    exact ⟨by omega, first⟩

end EduOS
