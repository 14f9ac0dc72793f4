import Mathlib

/-!
# Queues by priority

A queue that serves the highest priority first, and within a priority in the order of
arrival, can be kept as one list in the order of service.  `ByPriority key order arrived`
says that `order` is that list for the entries `arrived`, which are in the order of
arrival: priorities do not increase along it, and for each priority it has the same
entries in the same order.

`ByPriority.insert` adds an entry behind all others of its priority;
`ByPriority.first` says what the first entry is, and that without it the list is again in
order.
-/

namespace EduOS

open List

universe u

variable {α : Type u} {key : α → ℕ} {order front back arrived : List α} {x : α}

structure ByPriority (key : α → ℕ) (order arrived : List α) : Prop where
  sorted : order.Pairwise fun x y => key y ≤ key x
  stable : ∀ k, order.filter (fun x => key x = k) = arrived.filter fun x => key x = k

namespace ByPriority

theorem nil : ByPriority key [] [] := ⟨List.Pairwise.nil, fun _ => rfl⟩

theorem mem_iff (byPriority : ByPriority key order arrived) : x ∈ order ↔ x ∈ arrived := by
  have same := byPriority.stable (key x)
  have left : x ∈ order ↔ x ∈ order.filter fun y => key y = key x := by simp
  rw [left, same]
  simp

/-- An entry is added behind those of its priority and above. -/
theorem insert (byPriority : ByPriority key (front ++ back) arrived)
    (above : ∀ y ∈ front, key x ≤ key y) (below : ∀ y ∈ back, key y < key x) :
    ByPriority key (front ++ x :: back) (arrived ++ [x]) := by
  obtain ⟨front_sorted, back_sorted, across⟩ := pairwise_append.mp byPriority.sorted
  constructor
  · refine pairwise_append.mpr ⟨front_sorted, ?_, ?_⟩
    · exact pairwise_cons.mpr ⟨fun y mem => Nat.le_of_lt (below y mem), back_sorted⟩
    · intro y y_mem z z_mem
      rcases mem_cons.mp z_mem with rfl | z_mem
      · exact above y y_mem
      · exact across y y_mem z z_mem
  · intro k
    have same := byPriority.stable k
    rw [filter_append] at same ⊢
    rw [filter_append, ← same]
    by_cases this : key x = k
    · -- nothing behind the place has the priority of the new entry
      have none_behind : back.filter (fun y => key y = k) = [] := by
        refine filter_eq_nil_iff.mpr fun y mem => ?_
        have := below y mem
        simp only [decide_eq_true_eq]
        omega
      simp [this, none_behind]
    · simp [this]

/-- The first entry is the earliest one of the highest priority. -/
theorem first (byPriority : ByPriority key (x :: order) arrived) :
    ∃ earlier later, arrived = earlier ++ x :: later ∧ (∀ y ∈ earlier, key y < key x) ∧
      (∀ y ∈ later, key y ≤ key x) ∧ ByPriority key order (earlier ++ later) := by
  obtain ⟨highest, sorted⟩ := pairwise_cons.mp byPriority.sorted
  have at_most : ∀ y ∈ arrived, key y ≤ key x := by
    intro y mem
    rcases mem_cons.mp (byPriority.mem_iff.mpr mem) with rfl | mem
    · exact Nat.le_refl _
    · exact highest y mem
  have same := byPriority.stable (key x)
  rw [filter_cons_of_pos (by simp)] at same
  obtain ⟨earlier, later, rfl, others, _, _⟩ := filter_eq_cons_iff.mp same.symm
  refine ⟨earlier, later, rfl, ?_, fun y mem => at_most y (by simp [mem]), sorted, ?_⟩
  · intro y mem
    have := at_most y (by simp [mem])
    have : key y ≠ key x := by simpa using others y mem
    omega
  intro k
  have same := byPriority.stable k
  by_cases this : key x = k
  · have none_before : earlier.filter (fun y => key y = k) = [] := by
      refine filter_eq_nil_iff.mpr fun y mem => ?_
      rw [← this]
      exact others y mem
    simpa [this, none_before] using same
  · simpa [this] using same

/-- The list has the entries that have arrived. -/
theorem perm (byPriority : ByPriority key order arrived) : order.Perm arrived := by
  induction order generalizing arrived with
  | nil =>
    have empty : arrived = [] :=
      eq_nil_iff_forall_not_mem.mpr fun y mem =>
        not_mem_nil (byPriority.mem_iff.mpr mem)
    rw [empty]
  | cons x order ih =>
    obtain ⟨earlier, later, rfl, _, _, rest⟩ := byPriority.first
    exact ((ih rest).cons x).trans perm_middle.symm

theorem length_eq (byPriority : ByPriority key order arrived) : order.length = arrived.length :=
  byPriority.perm.length_eq

end ByPriority

end EduOS
