import EduOS.Include.List

/-!
# Families of kernel lists

An array of list heads, and elements with one `struct list_head` each, so that an element
is on at most one list at a time.  `ListFamily L lists` says that the list with head `i`
has the elements `lists i`, for all heads at once; `ListFamily.del` and
`ListFamily.addTail` are what `list_del` and `list_add_tail` do to it.
-/

namespace EduOS

open Function (update update_self update_of_ne)
open List

universe u v

/-- The `struct list_head`s of a family: the null pointer, the heads, and the one inside
each element. -/
inductive FamilyNode (ι : Type u) (P : Type v) where
  | null
  | head (i : ι)
  | member (p : P)
deriving DecidableEq

variable {ι : Type u} {P : Type v}

/-- Every head has its list, and no element is on two of them. -/
structure ListFamily (L : Links (FamilyNode ι P)) (lists : ι → List P) : Prop where
  ring : ∀ i, L.Ring (.head i) ((lists i).map .member)
  disjoint : ∀ {i j p}, p ∈ lists i → p ∈ lists j → i = j

namespace ListFamily

variable {L : Links (FamilyNode ι P)} {lists : ι → List P} {i : ι} {p : P}

theorem nodup (family : ListFamily L lists) (i : ι) : (lists i).Nodup :=
  List.Nodup.of_map _ (family.ring i).members_nodup

/-- The first element of a list that is not empty. -/
theorem next_head (family : ListFamily L lists) {rest : List P} (starts : lists i = p :: rest) :
    L.next (.head i) = .member p := by
  rw [(family.ring i).next_head, starts]
  rfl

variable [DecidableEq ι]

/-- An edit of list `i` that leaves the links alone of everything but its head and the
elements `touched`. -/
theorem edit {L' : Links (FamilyNode ι P)} {members : List P} (family : ListFamily L lists)
    (touched : List P) (ring : L'.Ring (.head i) (members.map .member))
    (fresh : ∀ q ∈ touched, ∀ j, j ≠ i → q ∉ lists j) (inside : ∀ q ∈ members, q ∈ touched)
    (same : ∀ x, x ∉ FamilyNode.head i :: touched.map .member → SameLinks L L' x) :
    ListFamily L' (update lists i members) := by
  constructor
  · intro j
    by_cases here : j = i
    · subst here
      rw [update_self]
      exact ring
    rw [update_of_ne here]
    refine (family.ring j).of_sameLinks fun x mem => same x fun shared => ?_
    rcases mem_cons.mp mem with rfl | mem
    · simp [here] at shared
    · obtain ⟨q, there, rfl⟩ := mem_map.mp mem
      have : q ∈ touched := by simpa using shared
      exact fresh q this j here there
  · intro j k q first second
    by_cases here : j = i <;> by_cases also : k = i
    · rw [here, also]
    · subst here
      rw [update_self] at first
      rw [update_of_ne also] at second
      exact absurd second (fresh q (inside q first) k also)
    · subst also
      rw [update_self] at second
      rw [update_of_ne here] at first
      exact absurd first (fresh q (inside q second) j here)
    · rw [update_of_ne here] at first
      rw [update_of_ne also] at second
      exact family.disjoint first second

variable [DecidableEq P]

theorem listEmpty_iff (family : ListFamily L lists) (i : ι) :
    listEmpty L (.head i) = true ↔ lists i = [] := by
  rw [listEmpty, decide_eq_true_iff, (family.ring i).next_head_eq_iff, map_eq_nil_iff]

/-- `list_del` of an element takes it off its list. -/
theorem del [BEq P] [LawfulBEq P] (family : ListFamily L lists) (on : p ∈ lists i) :
    ∃ L', listDel .null L (.member p) = some L' ∧
      ListFamily L' (update lists i ((lists i).erase p)) := by
  obtain ⟨front, back, split⟩ := append_of_mem on
  have on_ring : L.Ring (.head i) (front.map .member ++ .member p :: back.map .member) := by
    simpa [split] using family.ring i
  obtain ⟨L', result, ring, same⟩ := listDel_spec on_ring (show FamilyNode.null ∉ _ by simp)
  have nodup := family.nodup i
  rw [split] at nodup
  have absent : p ∉ front := fun mem =>
    (nodup_append.mp nodup).2.2 p mem p mem_cons_self rfl
  have erased : (lists i).erase p = front ++ back := by
    rw [split, erase_append_right _ absent, erase_cons_head]
  refine ⟨L', result, ?_⟩
  rw [erased]
  refine family.edit (lists i) (by simpa using ring) ?_ ?_ ?_
  · exact fun q mem j other there => other (family.disjoint there mem)
  · intro q mem
    rw [split]
    simp only [mem_append, mem_cons] at mem ⊢
    tauto
  · intro x outside
    exact same x (by simpa [split] using outside)

/-- `list_add_tail` of an element that is on no list. -/
theorem addTail (family : ListFamily L lists) (off : ∀ j, p ∉ lists j) (i : ι) :
    ∃ L', listAddTail .null L (.member p) (.head i) = some L' ∧
      ListFamily L' (update lists i (lists i ++ [p])) := by
  have on_ring : L.Ring (.head i) ((lists i).map .member ++ []) := by
    simpa using family.ring i
  obtain ⟨L', result, ring, same⟩ := listAddTail_spec on_ring
    (show FamilyNode.null ∉ _ by simp) (show FamilyNode.member p ∉ _ by simpa using off i)
  refine ⟨L', result, family.edit (p :: lists i) (by simpa using ring) ?_ ?_ ?_⟩
  · intro q mem j other there
    rcases mem_cons.mp mem with rfl | mem
    · exact off j there
    · exact other (family.disjoint there mem)
  · intro q mem
    simp only [mem_append, mem_singleton] at mem
    simp only [mem_cons]
    tauto
  · intro x outside
    refine same x ?_
    simp only [map_cons, mem_cons, append_nil] at outside ⊢
    tauto

end ListFamily

end EduOS
