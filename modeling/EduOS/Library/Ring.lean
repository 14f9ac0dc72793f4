import Mathlib

/-!
# Rings of links

A doubly linked list is edited locally: two stores splice a node in, two stores
take one out.  The view in which those edits are local is the *seam* view.
`Chain L l` says that consecutive entries of `l` are linked both ways, and a
chain falls apart at any entry (`chain_append_cons`).  A list with sentinel
`head` and members `xs` is the chain `head :: xs ++ [head]` on distinct nodes.

Both kinds of list that C code uses are rings: a circular list has a node as its
sentinel, and a `NULL`-terminated list with head and tail pointers has `NULL` as
its sentinel, whose `next` is the head pointer and whose `prev` is the tail
pointer.

The edits are `splice` and `unlink`; `Ring.splice` and `Ring.unlink` say what
they do to a ring, at any position, and `Ring.frame` that a ring does not notice
edits of other nodes.
-/

namespace EduOS

open Function List

universe u

/-- The link fields of all nodes. -/
structure Links (α : Type u) where
  next : α → α
  prev : α → α

namespace Links

variable {α : Type u}

/-- Consecutive entries are linked both ways. -/
def Chain (L : Links α) : List α → Prop
  | x :: y :: rest => L.next x = y ∧ L.prev y = x ∧ L.Chain (y :: rest)
  | _ => True

@[simp] theorem chain_singleton (L : Links α) (x : α) : L.Chain [x] := trivial

variable {x y p n : α}

theorem chain_cons_cons {L : Links α} {rest : List α} :
    L.Chain (x :: y :: rest) ↔ L.next x = y ∧ L.prev y = x ∧ L.Chain (y :: rest) :=
  Iff.rfl

/-- A chain falls apart at any of its entries. -/
theorem chain_append_cons {L : Links α} :
    ∀ (front : List α) (x : α) (back : List α),
      L.Chain (front ++ x :: back) ↔ L.Chain (front ++ [x]) ∧ L.Chain (x :: back)
  | [], x, back => by simp
  | [a], x, back => by
    show (L.next a = x ∧ L.prev x = a ∧ L.Chain (x :: back)) ↔
      (L.next a = x ∧ L.prev x = a ∧ True) ∧ L.Chain (x :: back)
    tauto
  | a :: b :: front, x, back => by
    have ih := chain_append_cons (L := L) (b :: front) x back
    show (L.next a = b ∧ L.prev b = a ∧ L.Chain (b :: front ++ x :: back)) ↔
      (L.next a = b ∧ L.prev b = a ∧ L.Chain (b :: front ++ [x])) ∧ L.Chain (x :: back)
    rw [ih]
    tauto

/-- The seam between two halves of a chain. -/
theorem chain_seam {L : Links α} (front : List α) (p n : α) (back : List α) :
    L.Chain (front ++ p :: n :: back) ↔
      L.Chain (front ++ [p]) ∧ (L.next p = n ∧ L.prev n = p) ∧ L.Chain (n :: back) := by
  rw [chain_append_cons, chain_cons_cons]
  tauto

/-- A chain reads `next` at all its entries but the last and `prev` at all but
the first. -/
theorem Chain.congr {L L' : Links α} :
    ∀ {l : List α}, L.Chain l → (∀ x ∈ l.dropLast, L'.next x = L.next x) →
      (∀ x ∈ l.tail, L'.prev x = L.prev x) → L'.Chain l
  | [], _, _, _ => trivial
  | [_], _, _, _ => trivial
  | x :: y :: rest, ⟨next_eq, prev_eq, more⟩, next_agree, prev_agree => by
    refine ⟨?_, ?_, Chain.congr more ?_ ?_⟩
    · rw [next_agree x (by simp), next_eq]
    · rw [prev_agree y (by simp), prev_eq]
    · intro z mem
      exact next_agree z (by simp [mem])
    · intro z mem
      exact prev_agree z (by simp [mem_of_mem_tail mem])

/-- Cut a ring at any place: the front half ends in the entry `p` before the
place, the back half starts with the entry `n` after it. -/
theorem exists_halves (head : α) (front back : List α) :
    ∃ left p n right, front.getLastD head = p ∧ back.headD head = n ∧
      head :: front = left ++ [p] ∧ back ++ [head] = n :: right ∧
      ∀ middle, head :: (front ++ (middle ++ back)) ++ [head] =
        left ++ p :: (middle ++ n :: right) := by
  obtain ⟨left, left_eq⟩ : ∃ left, head :: front = left ++ [front.getLastD head] := by
    rcases eq_nil_or_concat' front with rfl | ⟨init, p, rfl⟩
    · exact ⟨[], rfl⟩
    · exact ⟨head :: init, by simp⟩
  obtain ⟨right, right_eq⟩ : ∃ right, back ++ [head] = back.headD head :: right := by
    cases back with
    | nil => exact ⟨[], rfl⟩
    | cons n rest => exact ⟨rest ++ [head], rfl⟩
  refine ⟨left, _, _, right, rfl, rfl, left_eq, right_eq, fun middle => ?_⟩
  calc head :: (front ++ (middle ++ back)) ++ [head]
      = (head :: front) ++ (middle ++ (back ++ [head])) := by simp
    _ = _ := by rw [left_eq, right_eq]; simp

/-- The ring with sentinel `head` and members `members`, in `next` order. -/
structure Ring (L : Links α) (head : α) (members : List α) : Prop where
  linked : L.Chain (head :: members ++ [head])
  nodup : (head :: members).Nodup

namespace Ring

variable {L L' : Links α} {head : α} {members front back : List α}

theorem members_nodup (ring : L.Ring head members) : members.Nodup :=
  (nodup_cons.mp ring.nodup).2

/-- The links around the place between two halves of a ring. -/
theorem seam (ring : L.Ring head (front ++ back)) :
    L.next (front.getLastD head) = back.headD head ∧
      L.prev (back.headD head) = front.getLastD head := by
  obtain ⟨left, p, n, right, rfl, rfl, -, -, shape⟩ := exists_halves head front back
  have linked := ring.linked
  rw [show head :: (front ++ back) ++ [head] = _ from shape [], nil_append, chain_seam] at linked
  exact linked.2.1

theorem next_head (ring : L.Ring head members) : L.next head = members.headD head := by
  have whole : L.Ring head ([] ++ members) := ring
  exact whole.seam.1

theorem prev_head (ring : L.Ring head members) : L.prev head = members.getLastD head := by
  have whole : L.Ring head (members ++ []) := by simpa using ring
  exact whole.seam.2

theorem next_mem (ring : L.Ring head (front ++ x :: back)) : L.next x = back.headD head := by
  have cut : L.Ring head ((front ++ [x]) ++ back) := by simpa using ring
  simpa using cut.seam.1

theorem prev_mem (ring : L.Ring head (front ++ x :: back)) : L.prev x = front.getLastD head :=
  ring.seam.2

/-- Only the empty ring has its sentinel as its own successor. -/
theorem next_head_eq_iff (ring : L.Ring head members) : L.next head = head ↔ members = [] := by
  rw [ring.next_head]
  cases members with
  | nil => simp
  | cons x rest =>
    have different : x ≠ head := ne_of_mem_of_not_mem (by simp) (nodup_cons.mp ring.nodup).1
    simp [different]

/-- The entries around a place of a ring are on the ring. -/
theorem neighbours_mem (head : α) (front back : List α) :
    front.getLastD head ∈ head :: (front ++ back) ∧ back.headD head ∈ head :: (front ++ back) := by
  constructor
  · rcases eq_nil_or_concat' front with rfl | ⟨init, p, rfl⟩
    · simp
    · simp
  · cases back <;> simp

/-- A ring is closed under going to the next node. -/
theorem next_mem_ring (ring : L.Ring head members) (mem : x ∈ head :: members) :
    L.next x ∈ head :: members := by
  rcases mem_cons.mp mem with rfl | mem
  · rw [ring.next_head]
    exact (neighbours_mem x [] members).2
  obtain ⟨front, back, rfl⟩ := append_of_mem mem
  rw [ring.next_mem]
  cases back with
  | nil => exact mem_cons_self
  | cons y back => simp

/-- What a chain of `L` leads to from a ring of `L'` is on that ring, if `L'` has the
same `next` pointers on the way. -/
theorem chain_mem (ring : L'.Ring head members) :
    ∀ (path : List α) (x : α), x ∈ head :: members → L.Chain (x :: path ++ [y]) →
      (∀ z ∈ x :: path, L'.next z = L.next z) → y ∈ head :: members
  | [], x, mem, linked, same => by
    have step : L.next x = y := linked.1
    rw [← step, ← same x mem_cons_self]
    exact ring.next_mem_ring mem
  | z :: path, x, mem, linked, same => by
    have step : L.next x = z := linked.1
    refine chain_mem ring path z ?_ linked.2.2 fun w w_mem => same w (mem_cons_of_mem x w_mem)
    rw [← step, ← same x mem_cons_self]
    exact ring.next_mem_ring mem

/-- A ring does not notice edits of nodes that are not on it. -/
theorem frame (ring : L.Ring head members)
    (next_agree : ∀ x ∈ head :: members, L'.next x = L.next x)
    (prev_agree : ∀ x ∈ head :: members, L'.prev x = L.prev x) :
    L'.Ring head members := by
  refine ⟨ring.linked.congr ?_ ?_, ring.nodup⟩
  · intro x mem
    apply next_agree
    rwa [dropLast_concat] at mem
  · intro x mem
    apply prev_agree
    have : x ∈ members ∨ x = head := by simpa using mem
    simpa using this.symm

/-- An edit that changes `next` only at the node before a place and `prev` only
at the node after it leaves both halves of the ring alone. -/
private theorem halves_frame {left right : List α} (nodup : (head :: (front ++ back)).Nodup)
    (left_eq : head :: front = left ++ [p]) (right_eq : back ++ [head] = n :: right)
    (next_agree : ∀ x ∈ head :: (front ++ back), x ≠ p → L'.next x = L.next x)
    (prev_agree : ∀ x ∈ head :: (front ++ back), x ≠ n → L'.prev x = L.prev x)
    (left_chain : L.Chain (left ++ [p])) (right_chain : L.Chain (n :: right)) :
    L'.Chain (left ++ [p]) ∧ L'.Chain (n :: right) := by
  have left_nodup : (left ++ [p] ++ back).Nodup := by
    rw [← left_eq]
    simpa using nodup
  have right_nodup : (front ++ n :: right).Nodup := by
    rw [← right_eq, ← append_assoc]
    exact nodup_append_comm.mp (by simpa using nodup)
  have in_left : ∀ x ∈ left ++ [p], x ∈ head :: (front ++ back) := by
    intro x mem
    rw [← left_eq] at mem
    exact mem_append_left _ mem
  have in_right : ∀ x ∈ n :: right, x ∈ head :: (front ++ back) := by
    intro x mem
    rw [← right_eq] at mem
    have : x ∈ back ∨ x = head := by simpa using mem
    rcases this with inside | rfl
    · simp [inside]
    · simp
  constructor
  · refine left_chain.congr ?_ ?_
    · intro x mem
      rw [dropLast_concat] at mem
      refine next_agree x (in_left x (mem_append_left _ mem)) ?_
      rintro rfl
      simp [nodup_append] at left_nodup
      exact (left_nodup.2.2 x mem).1 rfl
    · intro x mem
      refine prev_agree x (in_left x (mem_of_mem_tail mem)) ?_
      rw [← left_eq, tail_cons] at mem
      rintro rfl
      simp [nodup_append] at right_nodup
      exact (right_nodup.2.2 x mem).1 rfl
  · refine right_chain.congr ?_ ?_
    · intro x mem
      refine next_agree x (in_right x (dropLast_subset _ mem)) ?_
      rw [← right_eq, dropLast_concat] at mem
      rintro rfl
      simp [nodup_append] at left_nodup
      exact left_nodup.2.1.1 mem
    · intro x mem
      refine prev_agree x (in_right x (mem_of_mem_tail mem)) ?_
      rintro rfl
      simp [nodup_append] at right_nodup
      exact right_nodup.2.1.1 mem

end Ring

/-! ## The two edits -/

variable [DecidableEq α]

/-- Link `new` between `p` and `n`. -/
def splice (L : Links α) (new p n : α) : Links α where
  next := update (update L.next new n) p new
  prev := update (update L.prev new p) n new

/-- Link the neighbours of `x` to each other. -/
def unlink (L : Links α) (x : α) : Links α where
  next := update L.next (L.prev x) (L.next x)
  prev := update L.prev (L.next x) (L.prev x)

namespace Ring

variable {L : Links α} {head : α} {front back : List α}

/-- Splicing a fresh node in, at any place of a ring. -/
theorem splice {new : α} (ring : L.Ring head (front ++ back))
    (fresh : new ∉ head :: (front ++ back)) :
    (L.splice new (front.getLastD head) (back.headD head)).Ring head (front ++ new :: back) := by
  obtain ⟨left, p, n, right, p_eq, n_eq, left_eq, right_eq, shape⟩ := exists_halves head front back
  rw [p_eq, n_eq]
  have linked := ring.linked
  have old_shape : head :: (front ++ back) ++ [head] = left ++ p :: n :: right := shape []
  have new_shape : head :: (front ++ new :: back) ++ [head] = left ++ p :: new :: n :: right :=
    shape [new]
  have apart : new ∉ left ++ p :: n :: right := by
    rw [← old_shape]
    intro mem
    rcases mem_append.mp mem with inside | outside
    · exact fresh inside
    · exact fresh (by simp [mem_singleton.mp outside])
  have not_p : new ≠ p := by rintro rfl; exact apart (by simp)
  have not_n : new ≠ n := by rintro rfl; exact apart (by simp)
  rw [old_shape, chain_seam] at linked
  obtain ⟨left_chain, _, right_chain⟩ := linked
  have halves : (L.splice new p n).Chain (left ++ [p]) ∧ (L.splice new p n).Chain (n :: right) :=
    halves_frame ring.nodup left_eq right_eq
      (fun x mem other => by simp [Links.splice, other, ne_of_mem_of_not_mem mem fresh])
      (fun x mem other => by simp [Links.splice, other, ne_of_mem_of_not_mem mem fresh])
      left_chain right_chain
  refine ⟨?_, ?_⟩
  · rw [new_shape, chain_seam, chain_cons_cons]
    refine ⟨halves.1, ⟨?_, ?_⟩, ?_, ?_, halves.2⟩
    · simp [Links.splice]
    · simp [Links.splice, not_n]
    · simp [Links.splice, not_p]
    · simp [Links.splice]
  · have perm : (head :: (front ++ new :: back)).Perm (new :: head :: (front ++ back)) :=
      (List.Perm.cons head perm_middle).trans (List.Perm.swap new head _)
    exact perm.nodup_iff.mpr (nodup_cons.mpr ⟨fresh, ring.nodup⟩)

/-- Taking a member out of a ring. -/
theorem unlink (ring : L.Ring head (front ++ x :: back)) :
    (L.unlink x).Ring head (front ++ back) := by
  have before : L.prev x = front.getLastD head := ring.prev_mem
  have after : L.next x = back.headD head := ring.next_mem
  obtain ⟨left, p, n, right, p_eq, n_eq, left_eq, right_eq, shape⟩ := exists_halves head front back
  rw [p_eq] at before
  rw [n_eq] at after
  have linked := ring.linked
  have old_shape : head :: (front ++ x :: back) ++ [head] = left ++ p :: x :: n :: right :=
    shape [x]
  have new_shape : head :: (front ++ back) ++ [head] = left ++ p :: n :: right := shape []
  have nodup : (head :: (front ++ back)).Nodup := by
    refine List.Nodup.sublist ?_ ring.nodup
    exact List.Sublist.cons_cons _ (List.Sublist.append_left (sublist_cons_self _ _) _)
  rw [old_shape, chain_seam, chain_cons_cons] at linked
  obtain ⟨left_chain, _, _, _, right_chain⟩ := linked
  have halves : (L.unlink x).Chain (left ++ [p]) ∧ (L.unlink x).Chain (n :: right) :=
    halves_frame nodup left_eq right_eq
      (fun y _ other => by simp [Links.unlink, before, other])
      (fun y _ other => by simp [Links.unlink, after, other])
      left_chain right_chain
  refine ⟨?_, nodup⟩
  rw [new_shape, chain_seam]
  refine ⟨halves.1, ⟨?_, ?_⟩, halves.2⟩
  · simp [Links.unlink, before, after]
  · simp [Links.unlink, before, after]

end Ring

end Links

end EduOS
