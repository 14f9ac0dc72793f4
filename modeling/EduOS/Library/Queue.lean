import EduOS.Library.Ring

/-!
# Families of intrusive queues

Several `NULL`-terminated doubly linked lists that share one pair of link fields:
every element has one `next` and one `prev`, and list `i` has a head and a tail
pointer.  Run queues are of this kind.

List `i` is the ring around `NULL` whose links at `NULL` are the head and tail
pointers (`view`), so appending is a splice before `NULL` and removal is an
unlink.  The two C idioms are `pushBack` and `remove`, store by store; the
second one also clears the links of the removed element.

`Family Q lists` says that list `i` has exactly the elements `lists i`, for all
`i` at once, and that the lists have no element in common.  `Family.pushBack`
and `Family.remove` are the only two facts the schedulers need.
-/

namespace EduOS

open Function List

universe u v

/-- The links of all elements and the ends of all lists. -/
structure Queues (ι : Type u) (P : Type v) where
  next : P → Option P
  prev : P → Option P
  head : ι → Option P
  tail : ι → Option P

namespace Queues

variable {ι : Type u} {P : Type v}

/-- All ends set to `NULL`; the links of the elements are whatever they were. -/
def reset (Q : Queues ι P) : Queues ι P where
  next := Q.next
  prev := Q.prev
  head _ := none
  tail _ := none

/-- List `i` as a ring around `NULL`. -/
def view (Q : Queues ι P) (i : ι) : Links (Option P) where
  next
    | none => Q.head i
    | some p => Q.next p
  prev
    | none => Q.tail i
    | some p => Q.prev p

@[simp] theorem view_next_none (Q : Queues ι P) (i : ι) : (Q.view i).next none = Q.head i := rfl

@[simp] theorem view_next_some (Q : Queues ι P) (i : ι) (p : P) :
    (Q.view i).next (some p) = Q.next p := rfl

@[simp] theorem view_prev_none (Q : Queues ι P) (i : ι) : (Q.view i).prev none = Q.tail i := rfl

@[simp] theorem view_prev_some (Q : Queues ι P) (i : ι) (p : P) :
    (Q.view i).prev (some p) = Q.prev p := rfl

/-- List `i` is well formed and has the elements `xs`: following `next` from the
head pointer visits `xs` and ends in `NULL`, and `prev` is the way back. -/
def Holds (Q : Queues ι P) (i : ι) (xs : List P) : Prop :=
  (Q.view i).Ring none (xs.map some)

theorem headD_map_some (xs : List P) : (xs.map some).headD none = xs.head? := by
  cases xs <;> rfl

theorem getLastD_map_some (xs : List P) : (xs.map some).getLastD none = xs.getLast? := by
  rcases eq_nil_or_concat' xs with rfl | ⟨init, p, rfl⟩ <;> simp

namespace Holds

variable {Q : Queues ι P} {i : ι} {xs front back : List P} {p : P}

theorem head_eq (holds : Q.Holds i xs) : Q.head i = xs.head? := by
  have := holds.next_head
  rwa [headD_map_some] at this

theorem tail_eq (holds : Q.Holds i xs) : Q.tail i = xs.getLast? := by
  have := holds.prev_head
  rwa [getLastD_map_some] at this

theorem next_eq (holds : Q.Holds i (front ++ p :: back)) : Q.next p = back.head? := by
  rw [Holds, map_append, map_cons] at holds
  have := holds.next_mem
  rwa [headD_map_some] at this

theorem prev_eq (holds : Q.Holds i (front ++ p :: back)) : Q.prev p = front.getLast? := by
  rw [Holds, map_append, map_cons] at holds
  have := holds.prev_mem
  rwa [getLastD_map_some] at this

theorem nodup (holds : Q.Holds i xs) : xs.Nodup :=
  List.Nodup.of_map _ holds.members_nodup

theorem absent (holds : Q.Holds i (front ++ p :: back)) : p ∉ front ++ back :=
  (nodup_cons.mp (nodup_middle.mp holds.nodup)).1

theorem no_loop (holds : Q.Holds i (front ++ p :: back)) : Q.prev p ≠ some p := by
  rw [holds.prev_eq]
  exact fun last => holds.absent (mem_append_left _ (mem_of_getLast? last))

/-- A list has only one list of elements. -/
theorem unique {ys : List P} (first : Q.Holds i xs) (second : Q.Holds i ys) : xs = ys := by
  -- walk both lists from the head pointer; `pre` is what has been walked
  have walk : ∀ (rest rest' pre : List P), Q.Holds i (pre ++ rest) → Q.Holds i (pre ++ rest') →
      rest.head? = rest'.head? → rest = rest' := by
    intro rest
    induction rest with
    | nil =>
      intro rest' pre _ _ same
      cases rest' with
      | nil => rfl
      | cons q rest' => simp at same
    | cons p rest ih =>
      intro rest' pre holds holds' same
      cases rest' with
      | nil => simp at same
      | cons q rest' =>
        have : p = q := by simpa using same
        subst this
        congr 1
        refine ih rest' (pre ++ [p]) (by simpa using holds) (by simpa using holds') ?_
        rw [← holds.next_eq, ← holds'.next_eq]
  refine walk xs ys [] first second ?_
  rw [← first.head_eq, ← second.head_eq]

/-- A list depends only on its ends and on the links of its elements. -/
theorem frame {Q' : Queues ι P} (holds : Q.Holds i xs)
    (head_eq : Q'.head i = Q.head i) (tail_eq : Q'.tail i = Q.tail i)
    (next_eq : ∀ p ∈ xs, Q'.next p = Q.next p) (prev_eq : ∀ p ∈ xs, Q'.prev p = Q.prev p) :
    Q'.Holds i xs := by
  refine Links.Ring.frame holds ?_ ?_
  · intro x mem
    cases x with
    | none => exact head_eq
    | some p => exact next_eq p (by simpa using mem)
  · intro x mem
    cases x with
    | none => exact tail_eq
    | some p => exact prev_eq p (by simpa using mem)

end Holds

theorem holds_reset (Q : Queues ι P) (i : ι) : Q.reset.Holds i [] := by
  refine ⟨⟨rfl, rfl, trivial⟩, ?_⟩
  simp

/-! ## The two C idioms -/

variable [DecidableEq ι] [DecidableEq P]

/-- Append to list `i`:
`proc->next = NULL; proc->prev = queue->tail;`
`if (queue->tail) queue->tail->next = proc; else queue->head = proc;`
`queue->tail = proc;` -/
def pushBack (Q : Queues ι P) (i : ι) (p : P) : Queues ι P :=
  match Q.tail i with
  | some last =>
    { Q with
      next := update (update Q.next p none) last (some p)
      prev := update Q.prev p (some last)
      tail := update Q.tail i (some p) }
  | none =>
    { next := update Q.next p none
      prev := update Q.prev p none
      head := update Q.head i (some p)
      tail := update Q.tail i (some p) }

/-- `if (proc->prev) proc->prev->next = proc->next; else queue->head = proc->next;` -/
def bypassNext (Q : Queues ι P) (i : ι) (p : P) : Queues ι P :=
  match Q.prev p with
  | some before => { Q with next := update Q.next before (Q.next p) }
  | none => { Q with head := update Q.head i (Q.next p) }

/-- `if (proc->next) proc->next->prev = proc->prev; else queue->tail = proc->prev;` -/
def bypassPrev (Q : Queues ι P) (i : ι) (p : P) : Queues ι P :=
  match Q.next p with
  | some after => { Q with prev := update Q.prev after (Q.prev p) }
  | none => { Q with tail := update Q.tail i (Q.prev p) }

/-- Take out of list `i`: bypass the element both ways, then
`proc->next = NULL; proc->prev = NULL;`. -/
def remove (Q : Queues ι P) (i : ι) (p : P) : Queues ι P :=
  let Q := (Q.bypassNext i p).bypassPrev i p
  { Q with
    next := update Q.next p none
    prev := update Q.prev p none }

/-- Appending is a splice just before `NULL`. -/
theorem view_pushBack (Q : Queues ι P) (i : ι) (p : P) :
    (Q.pushBack i p).view i = (Q.view i).splice (some p) (Q.tail i) none := by
  unfold pushBack
  cases last : Q.tail i
  all_goals
    simp only [Links.splice, view, Links.mk.injEq]
    constructor
  all_goals
    funext x
    cases x <;> simp [update_apply, last]

section

variable (Q : Queues ι P) (i : ι) (p : P)

theorem pushBack_next_of_ne {q : P} (other : q ≠ p) (not_tail : Q.tail i ≠ some q) :
    (Q.pushBack i p).next q = Q.next q := by
  unfold pushBack
  cases last : Q.tail i with
  | none => simp [other]
  | some t =>
    have : q ≠ t := by
      rintro rfl
      exact not_tail last
    simp [other, this]

theorem pushBack_prev_of_ne {q : P} (other : q ≠ p) : (Q.pushBack i p).prev q = Q.prev q := by
  unfold pushBack
  cases Q.tail i <;> simp [other]

theorem pushBack_head_of_ne {j : ι} (other : j ≠ i) : (Q.pushBack i p).head j = Q.head j := by
  unfold pushBack
  cases Q.tail i <;> simp [other]

theorem pushBack_tail_of_ne {j : ι} (other : j ≠ i) : (Q.pushBack i p).tail j = Q.tail j := by
  unfold pushBack
  cases Q.tail i <;> simp [other]

theorem remove_next_of_ne {q : P} (other : q ≠ p) :
    (Q.remove i p).next q = if Q.prev p = some q then Q.next p else Q.next q := by
  simp only [remove, bypassPrev, bypassNext]
  cases Q.prev p <;> (split <;> simp [other, update_apply, eq_comm])

theorem remove_head (j : ι) :
    (Q.remove i p).head j = if j = i ∧ Q.prev p = none then Q.next p else Q.head j := by
  simp only [remove, bypassPrev, bypassNext]
  cases Q.prev p <;> (split <;> simp [update_apply])

/-- The second bypass reads what the first one left. -/
theorem bypassNext_kept (no_loop : Q.prev p ≠ some p) :
    (Q.bypassNext i p).next p = Q.next p ∧ (Q.bypassNext i p).prev = Q.prev ∧
      (Q.bypassNext i p).tail = Q.tail := by
  unfold bypassNext
  cases before : Q.prev p with
  | none => exact ⟨rfl, rfl, rfl⟩
  | some r =>
    have other : p ≠ r := by
      rintro rfl
      exact no_loop before
    exact ⟨by simp [other], rfl, rfl⟩

theorem remove_prev_of_ne {q : P} (other : q ≠ p) (no_loop : Q.prev p ≠ some p) :
    (Q.remove i p).prev q = if Q.next p = some q then Q.prev p else Q.prev q := by
  simp only [remove, bypassPrev, bypassNext_kept Q i p no_loop]
  cases Q.next p <;> simp [other, update_apply, eq_comm]

theorem remove_tail (no_loop : Q.prev p ≠ some p) (j : ι) :
    (Q.remove i p).tail j = if j = i ∧ Q.next p = none then Q.prev p else Q.tail j := by
  simp only [remove, bypassPrev, bypassNext_kept Q i p no_loop]
  cases Q.next p <;> simp [update_apply]

end

namespace Holds

variable {Q : Queues ι P} {i : ι} {xs front back : List P} {p : P}

/-- Appending an element that is not in the list. -/
theorem pushBack (holds : Q.Holds i xs) (fresh : p ∉ xs) :
    (Q.pushBack i p).Holds i (xs ++ [p]) := by
  have whole : (Q.view i).Ring none (xs.map some ++ []) := by
    rw [append_nil]
    exact holds
  have absent : some p ∉ none :: (xs.map some ++ []) := by simpa using fresh
  have spliced := whole.splice absent
  rw [Holds, view_pushBack, holds.tail_eq, ← getLastD_map_some]
  simpa using spliced

/-- Taking an element out of the list it is in. -/
theorem remove (holds : Q.Holds i (front ++ p :: back)) :
    (Q.remove i p).Holds i (front ++ back) := by
  have ring : (Q.view i).Ring none (front.map some ++ some p :: back.map some) := by
    simpa [Holds] using holds
  have same : ∀ x ∈ none :: (front.map some ++ back.map some),
      ((Q.remove i p).view i).next x = ((Q.view i).unlink (some p)).next x ∧
        ((Q.remove i p).view i).prev x = ((Q.view i).unlink (some p)).prev x := by
    intro x mem
    cases x with
    | none =>
      simp [remove_head, remove_tail Q i p holds.no_loop, Links.unlink, update_apply, eq_comm]
    | some q =>
      have other : q ≠ p := ne_of_mem_of_not_mem (by simpa using mem) holds.absent
      simp [remove_next_of_ne Q i p other, remove_prev_of_ne Q i p other holds.no_loop,
        Links.unlink,
        update_apply, eq_comm]
  rw [Holds, map_append]
  exact Links.Ring.frame ring.unlink (fun x mem => (same x mem).1) fun x mem =>
    (same x mem).2

end Holds

/-! ## All lists at once -/

/-- List `i` has exactly the elements `lists i`, for every `i`, and no element is
in two lists. -/
structure Family (Q : Queues ι P) (lists : ι → List P) : Prop where
  holds : ∀ i, Q.Holds i (lists i)
  disjoint : ∀ i j, i ≠ j → ∀ p ∈ lists i, p ∉ lists j

omit [DecidableEq P] in
theorem mem_update_concat {lists : ι → List P} {i j : ι} {p q : P} :
    q ∈ update lists i (lists i ++ [p]) j ↔ q ∈ lists j ∨ j = i ∧ q = p := by
  by_cases same : j = i
  · subst same
    simp
  · simp [same]

omit [DecidableEq ι] [DecidableEq P] in
theorem family_reset (Q : Queues ι P) : Q.reset.Family fun _ => [] :=
  ⟨holds_reset Q, fun _ _ _ p mem => by simp at mem⟩

namespace Family

variable {Q : Queues ι P} {lists : ι → List P} {i : ι} {front back : List P} {p : P}

/-- Appending an element that is in no list. -/
theorem pushBack (family : Q.Family lists) (fresh : ∀ j, p ∉ lists j) :
    (Q.pushBack i p).Family (update lists i (lists i ++ [p])) := by
  constructor
  · intro j
    by_cases same : j = i
    · subst same
      rw [update_self]
      exact (family.holds j).pushBack (fresh j)
    rw [update_of_ne same]
    refine (family.holds j).frame (pushBack_head_of_ne Q i p same)
      (pushBack_tail_of_ne Q i p same) ?_ ?_
    · intro q mem
      refine pushBack_next_of_ne Q i p ?_ ?_
      · rintro rfl
        exact fresh j mem
      · rw [(family.holds i).tail_eq]
        intro last
        exact family.disjoint j i same q mem (mem_of_getLast? last)
    · intro q mem
      refine pushBack_prev_of_ne Q i p ?_
      rintro rfl
      exact fresh j mem
  · intro j k different q in_j in_k
    rcases mem_update_concat.mp in_j with old | ⟨rfl, rfl⟩
    · rcases mem_update_concat.mp in_k with old' | ⟨rfl, rfl⟩
      · exact family.disjoint j k different q old old'
      · exact fresh j old
    · rcases mem_update_concat.mp in_k with old' | ⟨rfl, -⟩
      · exact fresh k old'
      · exact different rfl

omit [DecidableEq P] in
/-- What is left when an element is taken out of the list it is in. -/
theorem mem_update_remove (family : Q.Family lists) (at_p : lists i = front ++ p :: back) {j : ι}
    {q : P} : q ∈ update lists i (front ++ back) j ↔ q ∈ lists j ∧ q ≠ p := by
  have holds := family.holds i
  by_cases same : j = i
  · subst same
    rw [at_p] at holds
    have absent := holds.absent
    rw [update_self, at_p, perm_middle.mem_iff, mem_cons]
    exact ⟨fun mem => ⟨Or.inr mem, fun eq => absent (eq ▸ mem)⟩, fun both =>
      both.1.resolve_left both.2⟩
  · rw [update_of_ne same]
    refine ⟨fun mem => ⟨mem, ?_⟩, And.left⟩
    rintro rfl
    exact family.disjoint j i same q mem (by simp [at_p])

/-- Taking an element out of the list it is in. -/
theorem remove (family : Q.Family lists) (at_p : lists i = front ++ p :: back) :
    (Q.remove i p).Family (update lists i (front ++ back)) := by
  have holds := family.holds i
  rw [at_p] at holds
  have here : p ∈ lists i := by simp [at_p]
  have kept : ∀ q ∈ front ++ back, q ∈ lists i := fun q mem => by
    rw [at_p, perm_middle.mem_iff]
    exact mem_cons_of_mem p mem
  constructor
  · intro j
    by_cases same : j = i
    · subst same
      rw [update_self]
      exact holds.remove
    rw [update_of_ne same]
    -- the stores hit `p` and its two neighbours, all of them in list `i`
    refine (family.holds j).frame (by simp [remove_head, same])
      (by simp [remove_tail Q i p holds.no_loop, same]) ?_ ?_
    all_goals
      intro q mem
      have away : q ∉ lists i := family.disjoint j i same q mem
      have other : q ≠ p := (ne_of_mem_of_not_mem here away).symm
    · rw [remove_next_of_ne Q i p other, if_neg]
      rw [holds.prev_eq]
      exact fun last => away (kept q (mem_append_left _ (mem_of_getLast? last)))
    · rw [remove_prev_of_ne Q i p other holds.no_loop, if_neg]
      rw [holds.next_eq]
      exact fun first => away (kept q (mem_append_right _ (mem_of_head? first)))
  · intro j k different q in_j in_k
    exact family.disjoint j k different q ((family.mem_update_remove at_p).mp in_j).1
      ((family.mem_update_remove at_p).mp in_k).1

end Family

end Queues

end EduOS
