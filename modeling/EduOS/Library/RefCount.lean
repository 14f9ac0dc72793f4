import Mathlib

/-!
# Reference counts

Places of type `ι` refer to objects of type `α`, and every live object has a counter.
`Counted place count` says that the counters are right: the counter of a live object is the
number of places that refer to it, and no place refers to an object that is not live.

The three edits keep that: a new object with one reference (`Counted.create`), one more
reference (`Counted.acquire`), and one fewer, where an object without references dies
(`Counted.release`).
-/

namespace EduOS

open Function

universe u v

variable {ι : Type u} {α : Type v}

/-- The places that refer to an object. -/
def holders (place : ι → Option α) (a : α) : Set ι := {i | place i = some a}

theorem mem_holders {place : ι → Option α} {a : α} {i : ι} :
    i ∈ holders place a ↔ place i = some a := Iff.rfl

/-- The counters are right.  An object is live if it has a counter. -/
structure Counted (place : ι → Option α) (count : α → Option ℕ) : Prop where
  finite : ∀ a, (holders place a).Finite
  exact : ∀ a n, count a = some n → n = (holders place a).ncard
  live : ∀ a, count a = none → holders place a = ∅

section

variable [DecidableEq ι] {place : ι → Option α} {a b : α} {i : ι}

theorem holders_update_self (vacant : place i = none) :
    holders (update place i (some a)) a = insert i (holders place a) := by
  ext j
  by_cases same : j = i
  · subst same
    simp [holders]
  · simp [holders, same]

theorem holders_update_of_ne {x : Option α} (old : place i ≠ some b) (new : x ≠ some b) :
    holders (update place i x) b = holders place b := by
  ext j
  by_cases same : j = i
  · subst same
    simp [holders, old, new]
  · simp [holders, same]

theorem holders_update_none : holders (update place i none) a = holders place a \ {i} := by
  ext j
  by_cases same : j = i
  · subst same
    simp [holders]
  · simp [holders, same]

end

namespace Counted

variable [DecidableEq ι] [DecidableEq α] {place : ι → Option α} {count : α → Option ℕ} {a : α}
  {i : ι} {n : ℕ}

omit [DecidableEq ι] in
/-- Only one object's counter and references change. -/
private theorem of_one {place' : ι → Option α} {x : Option ℕ} (counted : Counted place count)
    (others : ∀ b, b ≠ a → holders place' b = holders place b) (finite : (holders place' a).Finite)
    (exact : ∀ m, x = some m → m = (holders place' a).ncard)
    (live : x = none → holders place' a = ∅) : Counted place' (update count a x) := by
  refine ⟨fun b => ?_, fun b m found => ?_, fun b dead => ?_⟩
  all_goals by_cases same : b = a
  · rw [same]
    exact finite
  · rw [others b same]
    exact counted.finite b
  · subst same
    rw [update_self] at found
    exact exact m found
  · rw [update_of_ne same] at found
    rw [others b same]
    exact counted.exact b m found
  · subst same
    rw [update_self] at dead
    exact live dead
  · rw [update_of_ne same] at dead
    rw [others b same]
    exact counted.live b dead

section

variable (counted : Counted place count) (vacant : place i = none)
include counted vacant

/-- One more reference to an object, in a place that has none. -/
private theorem add :
    Counted (update place i (some a)) (update count a (some ((holders place a).ncard + 1))) := by
  have absent : i ∉ holders place a := by
    simp [mem_holders, vacant]
  have grown := holders_update_self (a := a) vacant
  refine counted.of_one (fun b other => holders_update_of_ne (by simp [vacant]) ?_) ?_ ?_ ?_
  · simpa using Ne.symm other
  · rw [grown]
    exact (counted.finite a).insert i
  · rintro m same
    rw [grown, Set.ncard_insert_of_notMem absent (counted.finite a)]
    exact (Option.some.inj same).symm
  · intro none_left
    cases none_left

theorem acquire (found : count a = some n) :
    Counted (update place i (some a)) (update count a (some (n + 1))) := by
  rw [counted.exact a n found]
  exact counted.add vacant

/-- A new object. -/
theorem create (fresh : count a = none) :
    Counted (update place i (some a)) (update count a (some 1)) := by
  have none_yet : (holders place a).ncard = 0 := by rw [counted.live a fresh, Set.ncard_empty]
  have added := counted.add (a := a) vacant
  rwa [none_yet] at added

end

/-- What a counter becomes: an object without references has none. -/
def dropped (n : ℕ) : Option ℕ := if n - 1 = 0 then none else some (n - 1)

theorem release (counted : Counted place count) (held : place i = some a)
    (found : count a = some n) :
    Counted (update place i none) (update count a (dropped n)) := by
  have number := counted.exact a n found
  have shrunk : (holders (update place i none) a).ncard = n - 1 := by
    have mem : i ∈ holders place a := held
    rw [holders_update_none, Set.ncard_sdiff_singleton_of_mem mem, number]
  have finite : (holders (update place i none) a).Finite := by
    rw [holders_update_none]
    exact (counted.finite a).sdiff
  refine counted.of_one (fun b other => holders_update_of_ne ?_ (by simp)) finite ?_ ?_
  · rw [held]
    simpa using Ne.symm other
  · intro m same
    rw [shrunk]
    unfold dropped at same
    split at same
    · cases same
    · exact (Option.some.inj same).symm
  · intro dead
    unfold dropped at dead
    split at dead
    · rename_i zero
      exact (Set.ncard_eq_zero finite).mp (shrunk.trans zero)
    · cases dead

omit [DecidableEq ι] [DecidableEq α] in
/-- A place refers to a live object, which has a positive counter. -/
theorem pos (counted : Counted place count) (held : place i = some a) :
    ∃ n, count a = some n ∧ 0 < n := by
  cases found : count a with
  | none =>
    have mem : i ∈ holders place a := held
    rw [counted.live a found] at mem
    exact absurd mem (Set.notMem_empty i)
  | some n =>
    refine ⟨n, rfl, ?_⟩
    rw [counted.exact a n found]
    exact (Set.ncard_pos (counted.finite a)).mpr ⟨i, held⟩

end Counted

end EduOS
