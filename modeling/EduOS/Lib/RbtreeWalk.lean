import EduOS.Lib.RbtreeLaws

/-!
# Walking and searching the tree

`rb_first` and `rb_next` follow the in-order sequence, `rb_prev` goes back.  The two
searches that users of the library write out, down to a node with a given key and down
to the empty place for a new node, are the loops `rbSearch` and `rbSearchSlot` here, with
the comparison as a parameter.
-/

namespace EduOS

open Tree

/-! ## First and next -/

variable {m : RbMemory} {t : Tree RbNode} {context : List (Frame RbNode)} {x : RbNode}

/-- `rb_first` and `rb_last` return the ends of the in-order sequence. -/
theorem rbOutermost_spec (holds : Holds m t) (side : Side) :
    rbOutermost m side = some (t.edge side) := by
  unfold rbOutermost
  rw [holds.root]
  cases root : t.root with
  | none => rw [edge_eq_none.mpr root]
  | some x =>
    cases edge : t.edge side with
    | none => exact absurd (edge_eq_none.mp edge) (by simp [root])
    | some y =>
      show (descend m side x).map some = _
      rw [descend_spec holds.stored holds.nodup root edge]
      rfl

theorem rbFirst_spec (holds : Holds m t) :
    rbFirst m = some t.toList.head? := rbOutermost_spec holds .left

/-- The walk up ends at the next node of the context. -/
theorem ascend_spec {side : Side} (holds : Holds m (plug context t)) (root : t.root = some x) :
    loop (ascendPass m side) (2 ^ 32) x = some (beyond side context) := by
  obtain ⟨_, looped, rfl⟩ := loop_ranked (ascendPass m side)
    (fun k node => ∃ context' t', context'.length = k ∧ Holds m (plug context' t') ∧
      t'.root = some node ∧ beyond side context' = beyond side context)
    (fun r => r = beyond side context)
    (by
      rintro _ node ⟨context', t', rfl, holds', root', same⟩
      obtain ⟨near, far, eq⟩ := exists_branch side root'
      rw [eq] at holds' root'
      have parent := holds'.node.parent
      cases context' with
      | nil =>
        refine Or.inr ⟨none, ?_, ?_⟩
        · simp only [ascendPass, parent]
          rfl
        · rw [← same]
          cases side <;> rfl
      | cons f up =>
        have above : Holds m (plug up (Tree.branch f.side f.colour
            (Tree.branch side t'.colour near node far) f.label f.sibling)) := holds'
        have near_f := above.node.near
        rw [beyond_cons] at same
        by_cases same_side : f.side = side
        · rw [if_pos same_side] at same
          refine Or.inl ⟨f.label, _, ?_, Nat.lt_succ_self _, up, _, rfl, above, by simp, same⟩
          rw [same_side] at near_f
          simp [ascendPass, parent, holder, near_f]
        rw [if_neg same_side] at same
        refine Or.inr ⟨some f.label, ?_, same⟩
        have other : m.child side f.label ≠ some node := by
          obtain rfl : side = f.side.flip := Side.eq_flip_of_ne (Ne.symm same_side)
          rw [above.node.far]
          exact root_ne_of_disjoint (root_mem root')
            (nodup_branch.mp (nodup_plug.mp above.nodup).1).2.2
        simp [ascendPass, parent, holder, if_neg other])
    (2 ^ 32) context.length x ⟨context, t, rfl, holds, root, rfl⟩ holds.length_lt
  exact looped

theorem rbNeighbour_spec {side : Side} {c : Colour} {near far : Tree RbNode}
    (holds : Holds m (plug context (Tree.branch side c near x far))) :
    rbNeighbour m side x = some ((near.edge side.flip).or (beyond side context)) := by
  have node := holds.node
  have not_cleared : rbParent m x ≠ some x := by
    rw [node.parent]
    cases context with
    | nil => exact nofun
    | cons f up =>
      intro same
      refine (nodup_plug.mp holds.nodup).2.2 (mem_branch.mpr (Or.inl rfl)) ?_
      exact mem_labels_cons.mpr (Or.inl (Option.some.inj same).symm)
  unfold rbNeighbour
  rw [if_neg not_cleared, node.near]
  cases near_root : near.root with
  | none =>
    rw [edge_eq_none.mpr near_root]
    exact ascend_spec holds root_branch
  | some next =>
    obtain ⟨-, stored_near, -⟩ := stored_branch.mp (holds_plug.mp holds).1.2.2
    have nodup_near := (nodup_branch.mp (nodup_plug.mp holds.nodup).1).2.1.1
    cases edge : near.edge side.flip with
    | none => exact absurd (edge_eq_none.mp edge) (by simp [near_root])
    | some y =>
      show (descend m side.flip next).map some = _
      rw [descend_spec stored_near nodup_near near_root edge]
      rfl

/-- What is left and right of a node in the order of its tree. -/
theorem order_split {front back : List RbNode} {c : Colour} {l r : Tree RbNode}
    (nodup : (plug context (.node c l x r)).toList.Nodup)
    (order : (plug context (.node c l x r)).toList = front ++ x :: back) :
    before context ++ l.toList = front ∧ r.toList ++ after context = back := by
  have split : before context ++ l.toList ++ x :: (r.toList ++ after context) =
      front ++ x :: back := by
    rw [← order, toList_plug, Tree.toList]
    simp
  rw [order, ← split] at nodup
  obtain ⟨-, nodup_back, apart⟩ := List.nodup_append'.mp nodup
  have x_left : x ∉ before context ++ l.toList := fun mem => apart mem List.mem_cons_self
  obtain ⟨same, -, same'⟩ :=
    (List.append_cons_inj_of_notMem x_left (List.nodup_cons.mp nodup_back).1).mp split
  exact ⟨same, same'⟩

section

variable {front back : List RbNode} (holds : Holds m t) (order : t.toList = front ++ x :: back)
include holds order

/-- `rb_next` returns the next node in order. -/
theorem rbNext_spec : rbNext m x = some back.head? := by
  obtain ⟨context, c, l, r, rfl⟩ := exists_plug (show x ∈ t.toList by simp [order])
  have next :=
    rbNeighbour_spec (show Holds m (plug context (Tree.branch .right c r x l)) from holds)
  rw [rbNext, next, ← (order_split holds.nodup order).2]
  simp [Tree.edge, beyond, Side.flip, List.head?_append]

/-- `rb_prev` returns the previous one. -/
theorem rbPrev_spec : rbPrev m x = some front.getLast? := by
  obtain ⟨context, c, l, r, rfl⟩ := exists_plug (show x ∈ t.toList by simp [order])
  have prev := rbNeighbour_spec (show Holds m (plug context (Tree.branch .left c l x r)) from holds)
  rw [rbPrev, prev, ← (order_split holds.nodup order).1]
  simp [Tree.edge, beyond, Side.flip, List.getLast?_append]

end

/-- Where `for (x = rb_first(root); x; x = rb_next(x))` is after `k` steps. -/
def rbCursor (m : RbMemory) : ℕ → Option (Option RbNode)
  | 0 => rbFirst m
  | k + 1 => do
    match ← rbCursor m k with
    | none => some none
    | some x => rbNext m x

/-- **The traversal** goes through the nodes in order, each of them once, and is at
`NULL` from then on; `rb_prev` takes a step of it back. -/
theorem rb_traversal (m : RbMemory) (t : Tree RbNode) (holds : Holds m t) :
    t.toList.Nodup ∧ (∀ k, rbCursor m k = some t.toList[k]?) ∧
      ∀ k x y, t.toList[k]? = some x → t.toList[k + 1]? = some y →
        rbNext m x = some (some y) ∧ rbPrev m y = some (some x) := by
  have order : ∀ {k x}, t.toList[k]? = some x →
      t.toList = t.toList.take k ++ x :: t.toList.drop (k + 1) := by
    intro k x at_k
    obtain ⟨inside, rfl⟩ := List.getElem?_eq_some_iff.mp at_k
    rw [List.cons_getElem_drop_succ, List.take_append_drop]
  refine ⟨holds.nodup, fun k => ?_, fun k x y at_k next => ⟨?_, ?_⟩⟩
  · induction k with
    | zero => rw [rbCursor, rbFirst_spec holds, List.head?_eq_getElem?]
    | succ k ih =>
      rw [rbCursor, ih]
      cases at_k : t.toList[k]? with
      | none =>
        rw [List.getElem?_eq_none ((List.getElem?_eq_none_iff.mp at_k).trans k.le_succ)]
        rfl
      | some x =>
        rw [← List.head?_drop]
        exact rbNext_spec holds (order at_k)
  · rw [rbNext_spec holds (order at_k), List.head?_drop, next]
  · rw [rbPrev_spec holds (order next), List.getLast?_take]
    simp [at_k]

/-- The tree of two nodes. -/
theorem rb_traversal_two :
    rbPrev rbTwo (rbNodeAt 3) = some (some (rbNodeAt 7)) ∧
      rbCursor rbTwo 2 = some none := by
  obtain ⟨-, cursor, back⟩ := rb_traversal rbTwo _ rbTwo_holds
  exact ⟨(back 0 _ _ rfl rfl).2, cursor 2⟩

/-! ## Searching -/

/-- `while (node) { ... }`: `go` compares the key with the node and tells which child
to look at next, or that the node is the one. -/
def rbSearchPass (m : RbMemory) (go : RbNode → Option Side) :
    Option RbNode → Option (Option RbNode ⊕ Option RbNode)
  | none => some (.inr none)
  | some x =>
    match go x with
    | none => some (.inr (some x))
    | some side => some (.inl (m.child side x))

def rbSearch (m : RbMemory) (go : RbNode → Option Side) : Option (Option RbNode) :=
  loop (rbSearchPass m go) (2 ^ 32) m.root

/-- `while (*link) { parent = *link; ... link = &parent->...; }`: the empty place
below which a new node is to be linked. -/
def rbSearchSlotPass (m : RbMemory) (go : RbNode → Side) (link : Slot) : Option (Slot ⊕ Slot) :=
  match readSlot m link with
  | none => some (.inr link)
  | some parent => some (.inl (.child (go parent) parent))

def rbSearchSlot (m : RbMemory) (go : RbNode → Side) : Option Slot :=
  loop (rbSearchSlotPass m go) (2 ^ 32) .root

theorem readSlot_slotOf (holds : Holds m (plug context t)) :
    readSlot m (slotOf context) = t.root := by
  cases context with
  | nil => exact holds.root
  | cons f up =>
    exact Holds.node (show Holds m (plug up (Tree.branch f.side f.colour t f.label f.sibling))
      from holds) |>.near

/-- The search for a key ends at a node that `go` accepts, or at the empty place
where such a node would be. -/
theorem rbSearch_spec (holds : Holds m t) (go : RbNode → Option Side)
    (guided : t.toList.Pairwise (Guided go)) :
    ∃ found, rbSearch m go = some found ∧
      (∀ x, found = some x → x ∈ t.toList ∧ go x = none) ∧
      (found = none → ∀ x ∈ t.toList, go x ≠ none) := by
  refine loop_ranked (rbSearchPass m go)
    (fun k node => ∃ context t', t = plug context t' ∧ node = t'.root ∧ t'.toList.length = k ∧
      ∀ f ∈ context, go f.label = some f.side)
    (fun found => (∀ x, found = some x → x ∈ t.toList ∧ go x = none) ∧
      (found = none → ∀ x ∈ t.toList, go x ≠ none)) ?_ (2 ^ 32) t.toList.length m.root
    ⟨[], t, rfl, holds.root, rfl, nofun⟩ (rbNode_length_lt holds.nodup)
  rintro _ node ⟨context, t', rfl, rfl, rfl, frames⟩
  cases root : t'.root with
  | none =>
    refine Or.inr ⟨none, rfl, nofun, fun _ x mem => ?_⟩
    obtain rfl := eq_nil_of_root root
    obtain ⟨on_left, on_right⟩ := guided_sides frames guided
    rw [toList_plug, Tree.toList, List.append_nil, List.mem_append] at mem
    rcases mem with mem | mem
    · simp [on_left x mem]
    · simp [on_right x mem]
  | some x =>
    cases turn : go x with
    | none =>
      refine Or.inr ⟨some x, by simp [rbSearchPass, turn], ?_, fun absent => by cases absent⟩
      rintro y same
      cases same
      exact ⟨mem_plug.mpr (Or.inl (root_mem root)), turn⟩
    | some side =>
      obtain ⟨near, far, eq, smaller⟩ := exists_descent side context root
      refine Or.inl ⟨near.root, near.toList.length, ?_, smaller,
        ⟨side, t'.colour, x, far⟩ :: context, near, eq, rfl, rfl, ?_⟩
      · rw [eq, ← plug_near] at holds
        simp [rbSearchPass, turn, holds.node.near]
      · exact List.forall_mem_cons.mpr ⟨turn, frames⟩

/-- The search for an empty place ends at the hole of a context that `go` leads
down. -/
theorem rbSearchSlot_spec (holds : Holds m t) (go : RbNode → Side)
    (guided : t.toList.Pairwise (Guided fun x => some (go x))) :
    ∃ context, rbSearchSlot m go = some (slotOf context) ∧ t = plug context .nil ∧
      (∀ x ∈ before context, go x = .right) ∧ ∀ x ∈ after context, go x = .left := by
  obtain ⟨_, looped, context, eq, rfl, frames⟩ := loop_ranked (rbSearchSlotPass m go)
    (fun k link => ∃ context t', t = plug context t' ∧ link = slotOf context ∧
      t'.toList.length = k ∧ ∀ f ∈ context, go f.label = f.side)
    (fun link => ∃ context, t = plug context .nil ∧ link = slotOf context ∧
      ∀ f ∈ context, go f.label = f.side)
    (by
      rintro _ link ⟨context, t', rfl, rfl, rfl, frames⟩
      have read := readSlot_slotOf holds
      cases root : t'.root with
      | none =>
        obtain rfl := eq_nil_of_root root
        exact Or.inr ⟨slotOf context, by simp [rbSearchSlotPass, read, root], context, rfl,
          rfl, frames⟩
      | some x =>
        obtain ⟨near, far, eq, smaller⟩ := exists_descent (go x) context root
        refine Or.inl ⟨.child (go x) x, near.toList.length, ?_, smaller,
          ⟨go x, t'.colour, x, far⟩ :: context, near, eq, rfl, rfl, ?_⟩
        · simp [rbSearchSlotPass, read, root]
        · exact List.forall_mem_cons.mpr ⟨rfl, frames⟩)
    (2 ^ 32) t.toList.length .root ⟨[], t, rfl, rfl, rfl, nofun⟩ (rbNode_length_lt holds.nodup)
  rw [eq] at guided
  have frames' : ∀ f ∈ context, some (go f.label) = some f.side :=
    fun f mem => congrArg some (frames f mem)
  obtain ⟨on_left, on_right⟩ := guided_sides frames' guided
  exact ⟨context, looped, eq, fun x mem => Option.some.inj (on_left x mem),
    fun x mem => Option.some.inj (on_right x mem)⟩

end EduOS
