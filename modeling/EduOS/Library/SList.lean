import EduOS.Library.Run

/-!
# Singly linked lists

A head pointer and one `next` field in every element; `none` is `NULL`.

The idioms are the ones of C: `push` in front, `find` by walking from the head, and
`unlink` with a pointer to the field that leads to the current element.  That field is
the head or the `next` of the element before, so it is named by an `Option` as well
(`field`, `store`).

`Holds L xs` says that walking from the head visits `xs` and ends at `NULL`.  Such a walk
is deterministic, so it repeats nothing (`Holds.nodup`) and ends within any number of
passes greater than its length.
-/

namespace EduOS

open Function List

universe u

/-- A head and the links of all elements. -/
structure SList (P : Type u) where
  head : Option P
  next : P → Option P

namespace SList

variable {P : Type u}

/-! ## Walks -/

/-- Following `next` from `start` visits `xs` and ends at `NULL`. -/
def Walk (next : P → Option P) : Option P → List P → Prop
  | start, [] => start = none
  | start, x :: xs => start = some x ∧ Walk next (next x) xs

variable {xs front back : List P} {L : SList P}

section

variable {next next' : P → Option P}

variable {start : Option P}

theorem Walk.unique {ys : List P} (first : Walk next start xs) (second : Walk next start ys) :
    xs = ys := by
  induction xs generalizing start ys with
  | nil =>
    cases ys with
    | nil => rfl
    | cons y ys => exact absurd (first.symm.trans second.1) (by simp)
  | cons x xs ih =>
    cases ys with
    | nil => exact absurd (second.symm.trans first.1) (by simp)
    | cons y ys =>
      obtain rfl : x = y := Option.mem_unique first.1 second.1
      rw [ih first.2 second.2]

theorem Walk.suffix {x : P} (walk : Walk next start (front ++ x :: back)) :
    Walk next (next x) back := by
  induction front generalizing start with
  | nil => exact walk.2
  | cons y front ih => exact ih walk.2

/-- A walk that came back to an element would not end. -/
theorem Walk.nodup (walk : Walk next start xs) : xs.Nodup := by
  induction xs generalizing start with
  | nil => exact nodup_nil
  | cons x xs ih =>
    refine nodup_cons.mpr ⟨fun again => ?_, ih walk.2⟩
    obtain ⟨front, back, rfl⟩ := append_of_mem again
    have same := walk.2.unique walk.2.suffix
    have length := congrArg List.length same
    rw [length_append, length_cons] at length
    omega

theorem Walk.congr (walk : Walk next start xs) (same : ∀ x ∈ xs, next' x = next x) :
    Walk next' start xs := by
  induction xs generalizing start with
  | nil => exact walk
  | cons x xs ih =>
    refine ⟨walk.1, ?_⟩
    rw [same x mem_cons_self]
    exact ih walk.2 fun y mem => same y (mem_cons_of_mem x mem)

end

/-- The list has the elements `xs`, in this order. -/
def Holds (L : SList P) (xs : List P) : Prop := Walk L.next L.head xs

theorem Holds.nodup (holds : L.Holds xs) : xs.Nodup :=
  Walk.nodup holds

/-! ## Finding -/

/-- One pass of `while (p) { if (test(p)) return p; p = p->next; } return NULL;` -/
def findPass (L : SList P) (test : P → Bool) : Option P → Option (Option P ⊕ Option P)
  | none => some (Sum.inr none)
  | some p => if test p then some (Sum.inr (some p)) else some (Sum.inl (L.next p))

/-- The walk from the head, cut after `passes` passes. -/
def find (L : SList P) (test : P → Bool) (passes : ℕ) : Option (Option P) :=
  loop (L.findPass test) passes L.head

theorem Holds.find (holds : L.Holds xs) (test : P → Bool) {passes : ℕ}
    (enough : xs.length < passes) : L.find test passes = some (xs.find? test) := by
  -- the walk from any point on
  have walks : ∀ (xs : List P) (start : Option P) (n : ℕ), Walk L.next start xs →
      xs.length < n → loop (L.findPass test) n start = some (xs.find? test) := by
    intro xs
    induction xs with
    | nil =>
      rintro start (_ | n) walk short
      · exact absurd short (by simp)
      · obtain rfl : start = none := walk
        exact loop_of_leave n rfl
    | cons x xs ih =>
      rintro start (_ | n) walk short
      · exact absurd short (by simp)
      obtain ⟨rfl, later⟩ := walk
      by_cases hit : test x = true
      · rw [find?_cons_of_pos hit]
        exact loop_of_leave n (if_pos hit)
      · have pass : L.findPass test (some x) = some (Sum.inl (L.next x)) := if_neg hit
        rw [find?_cons_of_neg hit, loop_of_continue n pass]
        exact ih _ n later (by simpa using short)
  exact walks xs L.head passes holds enough

/-! ## Fields -/

/-- What a field holds that leads to an element: the head, or the `next` of an
element. -/
def field (L : SList P) : Option P → Option P
  | none => L.head
  | some p => L.next p

theorem Walk.field_getLast (walk : Walk L.next L.head (front ++ back)) :
    L.field front.getLast? = back.head? := by
  rcases eq_nil_or_concat' front with rfl | ⟨init, p, rfl⟩
  · cases back with
    | nil => exact walk
    | cons x back => exact walk.1
  have later : Walk L.next (L.next p) back := by
    rw [append_assoc] at walk
    exact walk.suffix
  rw [getLast?_concat]
  cases back with
  | nil => exact later
  | cons x back => exact later.1

/-! ## Pushing -/

variable [DecidableEq P]

/-- `entry->next = head; head = entry;` -/
def push (L : SList P) (p : P) : SList P :=
  ⟨some p, update L.next p L.head⟩

theorem Holds.push {p : P} (holds : L.Holds xs) (fresh : p ∉ xs) : (L.push p).Holds (p :: xs) := by
  refine ⟨rfl, ?_⟩
  show Walk (update L.next p L.head) (update L.next p L.head p) xs
  rw [update_self]
  refine Walk.congr holds fun x mem => update_of_ne ?_ _ _
  rintro rfl
  exact fresh mem

/-! ## Unlinking -/

/-- `*prev = value` -/
def store (L : SList P) (prev value : Option P) : SList P :=
  match prev with
  | none => { L with head := value }
  | some p => { L with next := update L.next p value }

/-- One pass of
`while (p) { if (test(p)) { *prev = p->next; break; } prev = &p->next; p = p->next; }` -/
def unlinkPass (L : SList P) (test : P → Bool) (prev : Option P) :
    Option (Option P ⊕ (SList P × Option P)) :=
  match L.field prev with
  | none => some (Sum.inr (L, none))
  | some p =>
    if test p then some (Sum.inr (L.store prev (L.next p), some p))
    else some (Sum.inl (some p))

/-- Unlink the first element that passes the test. -/
def unlink (L : SList P) (test : P → Bool) (passes : ℕ) : Option (SList P × Option P) :=
  loop (L.unlinkPass test) passes none

/-- Nothing is changed if nothing is found. -/
theorem unlink_none {L' : SList P} {test : P → Bool} {passes : ℕ}
    (ran : L.unlink test passes = some (L', none)) : L' = L := by
  refine loop_post (fun _ => True) (fun r : SList P × Option P => r.2 = none → r.1 = L)
    (fun _ _ _ _ => trivial) ?_ passes none (L', none) trivial ran rfl
  intro prev r _ left
  unfold unlinkPass at left
  split at left
  · cases left
    exact fun _ => rfl
  · split_ifs at left <;> cases left
    nofun

/-- Leading a field past the element after it. -/
theorem Holds.store {x : P} (holds : L.Holds (front ++ x :: back)) :
    (L.store front.getLast? (L.next x)).Holds (front ++ back) := by
  have nodup := holds.nodup
  have tail : Walk L.next (L.next x) back := Walk.suffix holds
  rcases eq_nil_or_concat' front with rfl | ⟨init, p, rfl⟩
  · exact tail
  rw [getLast?_concat]
  -- only `p` has its link changed, and `p` stands at no other place
  have apart : p ∉ init ∧ p ∉ back := by
    simp only [append_assoc, cons_append, nil_append, nodup_append, nodup_cons, mem_cons] at nodup
    exact ⟨fun mem => nodup.2.2 p mem p (Or.inl rfl) rfl, fun mem => nodup.2.1.1 (Or.inr mem)⟩
  have spliced : ∀ (init : List P) (start : Option P), p ∉ init →
      Walk L.next start (init ++ p :: x :: back) →
      Walk (update L.next p (L.next x)) start (init ++ p :: back) := by
    intro init
    induction init with
    | nil =>
      intro start _ walk
      refine ⟨walk.1, ?_⟩
      rw [update_self]
      refine tail.congr fun y mem => update_of_ne ?_ _ _
      rintro rfl
      exact apart.2 mem
    | cons y init ih =>
      intro start off walk
      have other : y ≠ p := ne_of_mem_of_not_mem mem_cons_self off
      refine ⟨walk.1, ?_⟩
      rw [update_of_ne other]
      exact ih _ (fun mem => off (mem_cons_of_mem y mem)) walk.2
  have whole : Walk L.next L.head (init ++ p :: x :: back) := by simpa [Holds] using holds
  rw [append_assoc]
  exact spliced init L.head apart.1 whole

theorem Holds.unlink (holds : L.Holds xs) (test : P → Bool) {passes : ℕ}
    (enough : xs.length < passes) :
    ∃ L', L.unlink test passes = some (L', xs.find? test) ∧ L'.Holds (xs.eraseP test) := by
  -- `front` has been passed, `prev` is the field after it
  have walks : ∀ (back front : List P) (n : ℕ), L.Holds (front ++ back) → back.length < n →
      ∃ L', loop (L.unlinkPass test) n front.getLast? = some (L', back.find? test) ∧
        L'.Holds (front ++ back.eraseP test) := by
    intro back
    induction back with
    | nil =>
      rintro front (_ | n) holds short
      · exact absurd short (by simp)
      · refine ⟨L, loop_of_leave n ?_, holds⟩
        have last := Walk.field_getLast holds
        simp only [unlinkPass, last, head?_nil]
        rfl
    | cons x back ih =>
      rintro front (_ | n) holds short
      · exact absurd short (by simp)
      have here := Walk.field_getLast holds
      by_cases hit : test x = true
      · refine ⟨L.store front.getLast? (L.next x), ?_, ?_⟩
        · rw [find?_cons_of_pos hit]
          refine loop_of_leave n ?_
          simp [unlinkPass, here, head?_cons, if_pos hit]
        · rw [eraseP_cons_of_pos hit]
          exact holds.store
      · have pass : L.unlinkPass test front.getLast? = some (Sum.inl (some x)) := by
          simp [unlinkPass, here, head?_cons, if_neg hit]
        rw [loop_of_continue n pass, find?_cons_of_neg hit, eraseP_cons_of_neg hit]
        obtain ⟨L', ran, holds'⟩ := ih (front ++ [x]) n (by simpa using holds)
          (by simpa using short)
        rw [getLast?_concat] at ran
        exact ⟨L', ran, by simpa using holds'⟩
  exact walks xs [] passes holds enough

end SList

end EduOS
