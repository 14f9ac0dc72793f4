import EduOS.Library.Ring

/-!
# Kernel lists

`include/list.h`: circular doubly linked lists, the links embedded in the
structures they link.  `Links α` is the memory of all `struct list_head`s, `α`
their addresses and `null : α` the null pointer, which `list_del` leaves behind
in the node it takes out.  An access through a null pointer is a fault: the
operation is then `none`.

`listDel_spec`, `listAdd_spec` and `listAddTail_spec` say what the edits do to a ring that
the node is on (or not on), and that they touch nothing else.
-/

namespace EduOS

open Function

universe u

variable {α : Type u} [DecidableEq α]

def initListHead (L : Links α) (list : α) : Links α where
  next := update L.next list list
  prev := update L.prev list list

/-- `__list_add`, store by store. -/
def listAddBetween (L : Links α) (new prev next : α) : Links α where
  next := update (update L.next new next) prev new
  prev := update (update L.prev next new) new prev

/-- `list_add`: insert after `head`. -/
def listAdd (null : α) (L : Links α) (new head : α) : Option (Links α) :=
  if L.next head = null then none
  else some (listAddBetween L new head (L.next head))

/-- `list_add_tail`: insert before `head`. -/
def listAddTail (null : α) (L : Links α) (new head : α) : Option (Links α) :=
  if L.prev head = null then none
  else some (listAddBetween L new (L.prev head) head)

/-- `__list_del` -/
def listDelBetween (L : Links α) (prev next : α) : Links α where
  next := update L.next prev next
  prev := update L.prev next prev

/-- `list_del`: the entry is left with null links. -/
def listDel (null : α) (L : Links α) (entry : α) : Option (Links α) :=
  if L.prev entry = null ∨ L.next entry = null then none
  else
    let L := listDelBetween L (L.prev entry) (L.next entry)
    some
      { next := update L.next entry null
        prev := update L.prev entry null }

/-- `list_empty` -/
def listEmpty (L : Links α) (head : α) : Bool := L.next head = head

/-! ## What they do to a ring -/

variable {null head : α} {L : Links α} {front back members : List α}

/-- Two memories have the same links at a node. -/
def SameLinks (L L' : Links α) (x : α) : Prop := L'.next x = L.next x ∧ L'.prev x = L.prev x

omit [DecidableEq α] in
theorem Links.Ring.of_sameLinks {L' : Links α} (ring : L.Ring head members)
    (same : ∀ x ∈ head :: members, SameLinks L L' x) : L'.Ring head members :=
  ring.frame (fun x mem => (same x mem).1) fun x mem => (same x mem).2

theorem initListHead_ring (L : Links α) (list : α) : (initListHead L list).Ring list [] := by
  refine ⟨⟨?_, ?_, trivial⟩, by simp⟩ <;> simp [initListHead]

theorem initListHead_sameLinks {list x : α} (other : x ≠ list) :
    SameLinks L (initListHead L list) x := by
  simp [SameLinks, initListHead, other]

/-- Taking an entry off the ring it is on. -/
theorem listDel_spec {entry : α} (ring : L.Ring head (front ++ entry :: back))
    (nonnull : null ∉ head :: (front ++ back)) :
    ∃ L', listDel null L entry = some L' ∧ L'.Ring head (front ++ back) ∧
      ∀ x, x ∉ head :: (front ++ entry :: back) → SameLinks L L' x := by
  have before : L.prev entry = front.getLastD head := ring.prev_mem
  have after : L.next entry = back.headD head := ring.next_mem
  obtain ⟨before_mem, after_mem⟩ := Links.Ring.neighbours_mem head front back
  have safe : ¬(L.prev entry = null ∨ L.next entry = null) := by
    rintro (bad | bad)
    · exact nonnull (by rw [← bad, before]; exact before_mem)
    · exact nonnull (by rw [← bad, after]; exact after_mem)
  have absent : entry ∉ head :: (front ++ back) := by
    have perm : (head :: (front ++ entry :: back)).Perm (entry :: head :: (front ++ back)) :=
      (List.Perm.cons head List.perm_middle).trans (List.Perm.swap entry head _)
    exact (List.nodup_cons.mp (perm.nodup_iff.mp ring.nodup)).1
  have grown : ∀ x, x ∈ head :: (front ++ back) → x ∈ head :: (front ++ entry :: back) := by
    intro x mem
    simp only [List.mem_cons, List.mem_append] at mem ⊢
    tauto
  refine ⟨_, by rw [listDel, if_neg safe], ?_, ?_⟩
  · refine ring.unlink.of_sameLinks ?_
    intro x mem
    have other : x ≠ entry := ne_of_mem_of_not_mem mem absent
    simp [SameLinks, listDelBetween, Links.unlink, other]
  intro x outside
  have not_entry : x ≠ entry := (ne_of_mem_of_not_mem (by simp) outside).symm
  have not_before : x ≠ L.prev entry := by
    rintro rfl
    exact outside (grown _ (by rw [before]; exact before_mem))
  have not_after : x ≠ L.next entry := by
    rintro rfl
    exact outside (grown _ (by rw [after]; exact after_mem))
  simp [SameLinks, listDelBetween, not_entry, not_before, not_after]

/-- Adding a node that is not on the ring, between two neighbours. -/
theorem listAddBetween_spec {new : α} (ring : L.Ring head (front ++ back))
    (fresh : new ∉ head :: (front ++ back)) :
    (listAddBetween L new (front.getLastD head) (back.headD head)).Ring head
        (front ++ new :: back) ∧
      ∀ x, x ∉ new :: head :: (front ++ back) →
        SameLinks L (listAddBetween L new (front.getLastD head) (back.headD head)) x := by
  obtain ⟨before_mem, after_mem⟩ := Links.Ring.neighbours_mem head front back
  have not_new : back.headD head ≠ new := ne_of_mem_of_not_mem after_mem fresh
  constructor
  · have stores : listAddBetween L new (front.getLastD head) (back.headD head) =
        L.splice new (front.getLastD head) (back.headD head) := by
      simp only [listAddBetween, Links.splice, Links.mk.injEq, true_and]
      exact update_comm not_new _ _ _
    rw [stores]
    exact ring.splice fresh
  · intro x outside
    have apart : ∀ y ∈ head :: (front ++ back), x ≠ y := by
      rintro y mem rfl
      exact outside (List.mem_cons_of_mem _ mem)
    have other : x ≠ new := (ne_of_mem_of_not_mem List.mem_cons_self outside).symm
    simp only [SameLinks, listAddBetween, update_of_ne other, update_of_ne (apart _ before_mem),
      update_of_ne (apart _ after_mem), and_self]

/-- Adding a node that is not on the ring, right after the head. -/
theorem listAdd_spec {new : α} (ring : L.Ring head members)
    (nonnull : null ∉ head :: members) (fresh : new ∉ head :: members) :
    ∃ L', listAdd null L new head = some L' ∧ L'.Ring head (new :: members) ∧
      ∀ x, x ∉ new :: head :: members → SameLinks L L' x := by
  have whole : L.Ring head ([] ++ members) := ring
  have after : L.next head = members.headD head := ring.next_head
  have safe : L.next head ≠ null := by
    intro bad
    exact nonnull (by rw [← bad, after]; exact (Links.Ring.neighbours_mem head [] members).2)
  exact ⟨_, by rw [listAdd, if_neg safe, after]; rfl, listAddBetween_spec whole fresh⟩

/-- Adding a node that is not on the ring, before any node of the ring. -/
theorem listAddTail_spec {new : α} (ring : L.Ring head (front ++ back))
    (nonnull : null ∉ head :: (front ++ back)) (fresh : new ∉ head :: (front ++ back)) :
    ∃ L', listAddTail null L new (back.headD head) = some L' ∧
      L'.Ring head (front ++ new :: back) ∧
      ∀ x, x ∉ new :: head :: (front ++ back) → SameLinks L L' x := by
  have before : L.prev (back.headD head) = front.getLastD head := ring.seam.2
  have safe : L.prev (back.headD head) ≠ null := by
    intro bad
    exact nonnull (by rw [← bad, before]; exact (Links.Ring.neighbours_mem head front back).1)
  exact ⟨_, by rw [listAddTail, if_neg safe, before], listAddBetween_spec ring fresh⟩

end EduOS
