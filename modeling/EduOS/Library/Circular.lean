import Mathlib

/-!
# Circular buffers

A queue in an array of fixed size: the entries lie one behind the other from a
position on, and go on at the front of the array where its end is reached.

`circular` reads the queue off the array.  An entry is taken at the position
(`circular_succ`) and added behind the last one (`circular_push`), and the position
itself only matters modulo the size of the array (`circular_mod`).
-/

namespace EduOS

open Function

universe u

variable {α : Type u} {n : ℕ} {cells : ℕ → α}

/-- The `size` entries from `pos` on, in an array of `n` cells. -/
def circular (n : ℕ) (cells : ℕ → α) (pos size : ℕ) : List α :=
  (List.range size).map fun i => cells ((pos + i) % n)

@[simp] theorem length_circular (pos size : ℕ) : (circular n cells pos size).length = size := by
  simp [circular]

theorem circular_mod (pos size : ℕ) :
    circular n cells (pos % n) size = circular n cells pos size := by
  simp [circular]

/-- The first entry, and the others. -/
theorem circular_succ (pos size : ℕ) :
    circular n cells pos (size + 1) = cells (pos % n) :: circular n cells ((pos + 1) % n) size := by
  rw [circular_mod]
  simp only [circular, List.range_succ_eq_map, List.map_cons, List.map_map, Nat.add_zero]
  congr 1
  refine List.map_congr_left fun i _ => ?_
  rw [comp_apply, Nat.succ_eq_add_one, Nat.add_comm i, Nat.add_assoc]

/-- Cells apart from the queue do not matter. -/
theorem circular_update {pos size free : ℕ} (x : α) (apart : ∀ i < size, (pos + i) % n ≠ free) :
    circular n (update cells free x) pos size = circular n cells pos size := by
  refine List.map_congr_left fun i mem => ?_
  exact update_of_ne (apart i (List.mem_range.mp mem)) x cells

/-- An entry is added behind the others. -/
theorem circular_push {pos size : ℕ} (room : size < n) (x : α) :
    circular n (update cells ((pos + size) % n) x) pos (size + 1) =
      circular n cells pos size ++ [x] := by
  have apart : ∀ i < size, (pos + i) % n ≠ (pos + size) % n := by
    intro i before same
    have differ := Nat.ModEq.add_left_cancel' pos same
    have equal := Nat.ModEq.eq_of_lt_of_lt differ (by omega) room
    omega
  rw [circular, List.range_succ, List.map_append]
  congr 1
  · exact circular_update x apart
  · simp

end EduOS
