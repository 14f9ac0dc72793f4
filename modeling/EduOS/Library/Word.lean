import Mathlib

/-!
# Unsigned 32-bit arithmetic

C's `uint32_t` values are natural numbers below `2 ^ 32`; every operation that
can leave that range is followed by an explicit reduction.  `omega` understands
the reductions once `u32` and `sub32` are unfolded, so the proofs stay linear.

Masks with the complement of a power of two minus one are the one place where
the bit level matters: `land_compl_mask` turns them into division.

A `Pointer` is a non-`NULL` 32-bit address; a nullable pointer is an
`Option Pointer`.  There are fewer than `2 ^ 32` of them, so a list of distinct
pointers is shorter than that (`Pointer.length_lt`): this bounds every walk over
a well-formed pointer structure.
-/

namespace EduOS

/-- Reduction into the range of `uint32_t`. -/
def u32 (n : ℕ) : ℕ := n % 2 ^ 32

/-- `a - b` on `uint32_t`. -/
def sub32 (a b : ℕ) : ℕ := u32 (a + 2 ^ 32 - b)

theorem u32_lt (n : ℕ) : u32 n < 2 ^ 32 := Nat.mod_lt _ (by positivity)

variable {n a b k addr : ℕ} {flags mask other : BitVec 32}

theorem u32_of_lt (small : n < 2 ^ 32) : u32 n = n := Nat.mod_eq_of_lt small

theorem sub32_of_le (le : b ≤ a) (small : a < 2 ^ 32) : sub32 a b = a - b := by
  unfold sub32 u32
  omega

/-- `ALIGN_UP(addr, align)`: `(addr + align - 1) & ~(align - 1)`. -/
def alignUp (addr align : ℕ) : ℕ :=
  u32 (addr + align - 1) &&& sub32 (2 ^ 32 - 1) (align - 1)

/-- Masking away the low `k` bits of a 32-bit word rounds it down to a
multiple of `2 ^ k`. -/
theorem land_compl_mask {x : ℕ} (small : x < 2 ^ 32) (k_le : k ≤ 32) :
    x &&& (2 ^ 32 - 2 ^ k) = x / 2 ^ k * 2 ^ k := by
  have factor : 2 ^ 32 - 2 ^ k = 2 ^ k * (2 ^ (32 - k) - 1) := by
    have split : (2 : ℕ) ^ 32 = 2 ^ k * 2 ^ (32 - k) := by
      rw [← pow_add]
      congr 1
      omega
    rw [split, Nat.mul_sub, Nat.mul_one]
  apply Nat.eq_of_testBit_eq
  intro i
  rw [Nat.testBit_land, factor, Nat.testBit_two_pow_mul, Nat.testBit_two_pow_sub_one,
    Nat.mul_comm (x / 2 ^ k), Nat.testBit_two_pow_mul, Nat.testBit_div_two_pow]
  by_cases low : k ≤ i
  · have back : k + (i - k) = i := by omega
    rw [Nat.add_comm, back]
    by_cases high : i < 32
    · have : i - k < 32 - k := by omega
      simp [low, this]
    · have out : x.testBit i = false :=
        Nat.testBit_lt_two_pow (lt_of_lt_of_le small (Nat.pow_le_pow_right (by omega) (by omega)))
      simp [out]
  · simp [low]

/-- Rounding up to a power of two, as division. -/
theorem alignUp_eq (k_le : k ≤ 31) :
    alignUp addr (2 ^ k) = u32 (addr + 2 ^ k - 1) / 2 ^ k * 2 ^ k := by
  have positive : 0 < 2 ^ k := by positivity
  have bound : (2 : ℕ) ^ k ≤ 2 ^ 31 := Nat.pow_le_pow_right (by omega) k_le
  have mask : sub32 (2 ^ 32 - 1) (2 ^ k - 1) = 2 ^ 32 - 2 ^ k := by
    rw [sub32_of_le (by omega) (by omega)]
    omega
  unfold alignUp
  rw [mask, land_compl_mask (u32_lt _) (by omega)]

/-- Rounding up to a power of two, when nothing wraps. -/
theorem alignUp_of_le (k_le : k ≤ 31) (small : addr + 2 ^ k ≤ 2 ^ 32) :
    alignUp addr (2 ^ k) = (addr + 2 ^ k - 1) / 2 ^ k * 2 ^ k := by
  rw [alignUp_eq k_le, u32_of_lt (by omega)]

/-- Reduction into the range of `uint64_t`. -/
def u64 (n : ℕ) : ℕ := n % 2 ^ 64

/-- `a - b` on `uint64_t`. -/
def sub64 (a b : ℕ) : ℕ := (a + 2 ^ 64 - b) % 2 ^ 64

theorem u64_of_lt (small : n < 2 ^ 64) : u64 n = n := Nat.mod_eq_of_lt small

theorem sub64_of_le (le : b ≤ a) (small : a < 2 ^ 64) : sub64 a b = a - b := by
  rw [sub64, Nat.add_comm, Nat.add_sub_assoc le, Nat.add_mod_left, Nat.mod_eq_of_lt (by omega)]

/-! ## Flag words -/

/-- `flags & mask`, as a condition. -/
def hasFlag (flags mask : BitVec 32) : Bool := flags &&& mask != 0

/-- Setting one flag does not change another. -/
theorem hasFlag_set_of_apart (apart : mask &&& other = 0) :
    hasFlag (flags ||| mask) other = hasFlag flags other := by
  simp [hasFlag, BitVec.and_or_distrib_right, apart]

/-- Clearing one flag does not change another. -/
theorem hasFlag_clear_of_apart (apart : mask &&& other = 0) :
    hasFlag (flags &&& ~~~mask) other = hasFlag flags other := by
  have same : (flags &&& ~~~mask) &&& other = flags &&& other := by
    ext i below
    have bit := congrArg (fun w => w.getLsbD i) apart
    grind
  rw [hasFlag, hasFlag, same]

theorem hasFlag_set_self (some_bit : mask ≠ 0) : hasFlag (flags ||| mask) mask = true := by
  have same : (flags ||| mask) &&& mask = mask := by
    ext i below
    grind
  simpa [hasFlag, same] using some_bit

theorem hasFlag_clear_self (flags mask : BitVec 32) : hasFlag (flags &&& ~~~mask) mask = false := by
  have same : (flags &&& ~~~mask) &&& mask = 0 := by
    ext i below
    simp
  simp [hasFlag, same]

/-! ## Pointers -/

/-- A non-`NULL` address. -/
abbrev Pointer := { address : BitVec 32 // address ≠ 0#32 }

theorem pagePointer_ne_zero : ∀ k : BitVec 4, BitVec.ofNat 32 (4096 * (k.toNat + 1)) ≠ 0#32 := by
  decide

/-- The pointers to the pages from the second one on. -/
def pagePointer (k : BitVec 4) : Pointer :=
  ⟨BitVec.ofNat 32 (4096 * (k.toNat + 1)), pagePointer_ne_zero k⟩

/-- Distinct pointers are fewer than there are addresses: `NULL` is not among
them. -/
theorem Pointer.length_lt {l : List Pointer} (nodup : l.Nodup) : l.length < 2 ^ 32 := by
  have zero_notMem : (0 : Fin (2 ^ 32)) ∉ l.map fun p => p.1.toFin := by
    intro mem
    obtain ⟨p, _, zero⟩ := List.mem_map.mp mem
    exact p.2 (BitVec.toFin_inj.mp (by simpa using zero))
  have injective : Function.Injective fun p : Pointer => p.1.toFin := by
    intro p q same
    exact Subtype.ext (BitVec.toFin_inj.mp same)
  have distinct : ((0 : Fin (2 ^ 32)) :: l.map fun p => p.1.toFin).Nodup :=
    List.nodup_cons.mpr ⟨zero_notMem, nodup.map injective⟩
  have bound := distinct.length_le_card
  rw [List.length_cons, List.length_map, Fintype.card_fin] at bound
  exact bound

end EduOS
