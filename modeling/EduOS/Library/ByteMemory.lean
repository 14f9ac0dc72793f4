import Mathlib

/-!
# Byte memory

Memory as an array of bytes with little-endian 32-bit words on top, for code that
lays out its data in raw memory.

A word that was stored is read back (`load32_store32_self`); a store is not seen by
a load, or at a byte, that lies apart from it (`load32_store32`, `store32_apply`,
`store8_apply`).  The side conditions are linear, so with a
description of the layout in the context `simp (disch := omega)` evaluates a load
after any number of stores.
-/

namespace EduOS

open Function

/-- Memory, byte by byte. -/
abbrev Bytes := ℕ → BitVec 8

namespace Bytes

/-- The little-endian word at `a`. -/
def load32 (m : Bytes) (a : ℕ) : ℕ :=
  (m a).toNat + 2 ^ 8 * (m (a + 1)).toNat + 2 ^ 16 * (m (a + 2)).toNat + 2 ^ 24 * (m (a + 3)).toNat

def store8 (m : Bytes) (a v : ℕ) : Bytes := update m a (BitVec.ofNat 8 v)

def store32 (m : Bytes) (a v : ℕ) : Bytes :=
  (((m.store8 a v).store8 (a + 1) (v / 2 ^ 8)).store8 (a + 2) (v / 2 ^ 16)).store8 (a + 3)
    (v / 2 ^ 24)

theorem load32_lt (m : Bytes) (a : ℕ) : m.load32 a < 2 ^ 32 := by
  unfold load32
  omega

variable {m m' : Bytes} {a b x dest src count : ℕ}

/-- Words with the same bytes, possibly at different places. -/
theorem load32_moved (agree : ∀ i, i < 4 → m' (b + i) = m (a + i)) : m'.load32 b = m.load32 a := by
  have h₀ := agree 0 (by omega)
  rw [Nat.add_zero, Nat.add_zero] at h₀
  rw [load32, load32, h₀, agree 1 (by omega), agree 2 (by omega), agree 3 (by omega)]

/-- A word only depends on its own bytes. -/
theorem load32_congr (agree : ∀ i, i < 4 → m' (a + i) = m (a + i)) : m'.load32 a = m.load32 a :=
  load32_moved agree

@[simp] theorem store8_self (m : Bytes) (a v : ℕ) : m.store8 a v a = BitVec.ofNat 8 v :=
  update_self ..

@[simp] theorem store8_apply (apart : x ≠ a) (m : Bytes) (v : ℕ) : m.store8 a v x = m x :=
  update_of_ne apart ..

@[simp] theorem store32_apply (apart : x < a ∨ a + 4 ≤ x) (m : Bytes) (v : ℕ) :
    m.store32 a v x = m x := by
  unfold store32
  rw [store8_apply (by omega), store8_apply (by omega), store8_apply (by omega),
    store8_apply (by omega)]

@[simp] theorem load32_store32 (apart : b + 4 ≤ a ∨ a + 4 ≤ b) (m : Bytes) (v : ℕ) :
    (m.store32 a v).load32 b = m.load32 b :=
  load32_congr fun _ _ => store32_apply (by omega) m v

@[simp] theorem load32_store32_self {v : ℕ} (small : v < 2 ^ 32) (m : Bytes) (a : ℕ) :
    (m.store32 a v).load32 a = v := by
  have h₀ : m.store32 a v a = BitVec.ofNat 8 v := by
    unfold store32
    rw [store8_apply (by omega), store8_apply (by omega), store8_apply (by omega), store8_self]
  have h₁ : m.store32 a v (a + 1) = BitVec.ofNat 8 (v / 2 ^ 8) := by
    unfold store32
    rw [store8_apply (by omega), store8_apply (by omega), store8_self]
  have h₂ : m.store32 a v (a + 2) = BitVec.ofNat 8 (v / 2 ^ 16) := by
    unfold store32
    rw [store8_apply (by omega), store8_self]
  have h₃ : m.store32 a v (a + 3) = BitVec.ofNat 8 (v / 2 ^ 24) := store8_self ..
  rw [load32, h₀, h₁, h₂, h₃]
  simp only [BitVec.toNat_ofNat]
  omega

/-! ## Copying and filling -/

/-- `memcpy(dest, src, count)`: byte by byte, upwards. -/
def copy (m : Bytes) (dest src count : ℕ) : Bytes :=
  (List.range count).foldl (fun m i => update m (dest + i) (m (src + i))) m

/-- `memset(dest, value, count)` -/
def fill (m : Bytes) (dest value count : ℕ) : Bytes :=
  (List.range count).foldl (fun m i => m.store8 (dest + i) value) m

theorem copy_succ (m : Bytes) (dest src count : ℕ) :
    m.copy dest src (count + 1) =
      update (m.copy dest src count) (dest + count) (m.copy dest src count (src + count)) := by
  simp [copy, List.range_succ]

theorem copy_outside (outside : x < dest ∨ dest + count ≤ x) (m : Bytes) :
    m.copy dest src count x = m x := by
  induction count with
  | zero => rfl
  | succ count ih => rw [copy_succ, update_of_ne (by omega), ih (by omega)]

/-- Between ranges that do not overlap, `copy` copies. -/
theorem copy_inside {i : ℕ} (apart : src + count ≤ dest ∨ dest + count ≤ src)
    (lt : i < count) (m : Bytes) : m.copy dest src count (dest + i) = m (src + i) := by
  induction count with
  | zero => omega
  | succ count ih =>
    rw [copy_succ]
    by_cases last : i = count
    · subst last
      rw [update_self]
      exact copy_outside (by omega) m
    · rw [update_of_ne (by omega), ih (by omega) (by omega)]

theorem fill_succ (m : Bytes) (dest value count : ℕ) :
    m.fill dest value (count + 1) = (m.fill dest value count).store8 (dest + count) value := by
  simp [fill, List.range_succ]

theorem fill_outside {value : ℕ} (outside : x < dest ∨ dest + count ≤ x)
    (m : Bytes) : m.fill dest value count x = m x := by
  induction count with
  | zero => rfl
  | succ count ih => rw [fill_succ, store8_apply (by omega), ih (by omega)]

end Bytes

end EduOS
