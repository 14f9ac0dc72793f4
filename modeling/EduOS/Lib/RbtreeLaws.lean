import EduOS.Lib.RbtreeErase

/-!
# Insertion and removal as a whole

The library seen by its users.  A *slot* is a pointer a node can hang from; an
empty slot of the tree has one position in the in-order sequence, next to the node
it belongs to.  Hanging a fresh node into any empty slot and recolouring inserts it
there; erasing any node removes it; the tree stays valid.
-/

namespace EduOS

/-- Puts `x` directly before `p` for `.left`, directly after it for `.right`. -/
def insertBeside (side : Side) (p x : RbNode) : List RbNode → List RbNode
  | [] => []
  | y :: rest =>
    if y = p then
      match side with
      | .left => x :: y :: rest
      | .right => y :: x :: rest
    else y :: insertBeside side p x rest

/-- The in-order sequence with `x` in the position of a slot. -/
def Slot.insert (slot : Slot) (x : RbNode) (nodes : List RbNode) : List RbNode :=
  match slot with
  | .root => [x]
  | .child side p => insertBeside side p x nodes

/-- A slot of the tree: the root pointer, or a child pointer of one of its nodes. -/
def Slot.Of (slot : Slot) (t : Tree RbNode) : Prop := ∀ p, slot.parent = some p → p ∈ t.toList

theorem insertBeside_append {side : Side} {p x : RbNode} {front back : List RbNode}
    (notMem : p ∉ front) :
    insertBeside side p x (front ++ p :: back) = front ++ insertBeside side p x (p :: back) := by
  induction front with
  | nil => rfl
  | cons y front ih =>
    rw [List.mem_cons, not_or] at notMem
    have step : insertBeside side p x (y :: (front ++ p :: back)) =
        y :: insertBeside side p x (front ++ p :: back) := if_neg (Ne.symm notMem.1)
    rw [List.cons_append, step, ih notMem.2, List.cons_append]

/-- An empty slot of a tree is the hole of a context. -/
theorem exists_hole {m : RbMemory} {t : Tree RbNode} {slot : Slot} (holds : Holds m t)
    (of_tree : slot.Of t) (empty : readSlot m slot = none) :
    ∃ context, t = plug context .nil ∧ slot = slotOf context := by
  cases slot with
  | root =>
    have rootless : t.root = none := holds.root.symm.trans empty
    exact ⟨[], Tree.eq_nil_of_root rootless, rfl⟩
  | child side p =>
    obtain ⟨context, c, l, r, rfl⟩ := exists_plug (of_tree p rfl)
    obtain ⟨near, far, eq⟩ := Tree.exists_branch side (show (Tree.node c l p r).root = some p from
      rfl)
    rw [eq] at holds ⊢
    have near_nil : near = .nil :=
      Tree.eq_nil_of_root (holds.node.near.symm.trans empty)
    subst near_nil
    exact ⟨⟨side, c, p, far⟩ :: context, rfl, rfl⟩

/-- The position of the hole of a context. -/
theorem slotOf_insert {context : List (Frame RbNode)} (x : RbNode)
    (nodup : (plug context .nil).toList.Nodup) :
    (slotOf context).insert x (plug context .nil).toList =
      before context ++ x :: after context := by
  cases context with
  | nil => rfl
  | cons f up =>
    have labels_nodup := (nodup_plug.mp nodup).2.1
    rw [toList_plug, Tree.toList, List.append_nil]
    obtain ⟨side, c, p, sibling⟩ := f
    obtain ⟨⟨p_sibling, p_up⟩, -⟩ := nodup_labels_cons.mp labels_nodup
    have p_before : p ∉ before up := fun mem => p_up (List.mem_append_left _ mem)
    cases side with
    | left =>
      show insertBeside .left p x (before up ++ (p :: sibling.toList ++ after up)) = _
      rw [List.cons_append, insertBeside_append p_before]
      exact congrArg _ (if_pos rfl)
    | right =>
      show insertBeside .right p x ((before up ++ sibling.toList ++ [p]) ++ after up) = _
      rw [List.append_assoc, List.singleton_append, insertBeside_append]
      · have placed : insertBeside .right p x (p :: after up) = p :: x :: after up := if_pos rfl
        simp [placed, before, after]
      · rw [List.mem_append, not_or]
        exact ⟨p_before, p_sibling⟩

/-- Inserting a fresh node into the hole of a context. -/
theorem rbInsert_spec {m : RbMemory} {context : List (Frame RbNode)} {x : RbNode}
    (holds : Holds m (plug context .nil)) (valid : (plug context .nil).Valid)
    (fresh : x ∉ (plug context .nil).toList) :
    ∃ m' t, rbInsertColor x (rbLinkNode m x (slotOf context).parent (slotOf context)) = some m' ∧
      t.Valid ∧ HoldsInOrder m m' (before context ++ x :: after context) t := by
  have fresh' : x ∉ labels context := fun mem => fresh (mem_plug.mpr (Or.inr mem))
  obtain ⟨linked, outside⟩ := rbLinkNode_spec holds fresh'
  obtain ⟨m', t, inserted, valid', held⟩ := rbInsertColor_spec valid linked
  refine ⟨m', t, inserted, valid', held.holds, held.order,
    Outside.trans (fun y notMem => outside y fun mem => notMem ?_) held.outside⟩
  exact List.perm_middle.mem_iff.mpr mem

/-- **Insertion and removal.**  In a valid red-black tree a fresh node can be hung
into every empty slot, and every node can be erased; both calls return, the tree is
valid afterwards, and its in-order sequence has gained the node in the position of
the slot, or lost the erased node. -/
theorem rbtree_insert_erase (m : RbMemory) (t : Tree RbNode) (holds : Holds m t) (valid : t.Valid) :
    (∀ x slot, x ∉ t.toList → slot.Of t → readSlot m slot = none →
      ∃ m' t', rbInsertColor x (rbLinkNode m x slot.parent slot) = some m' ∧
        Holds m' t' ∧ t'.Valid ∧ t'.toList = slot.insert x t.toList) ∧
    ∀ x ∈ t.toList, ∃ m' t', rbErase x m = some m' ∧
      Holds m' t' ∧ t'.Valid ∧ t'.toList = t.toList.erase x := by
  refine ⟨fun x slot fresh of_tree empty => ?_, fun x member => ?_⟩
  · obtain ⟨context, rfl, rfl⟩ := exists_hole holds of_tree empty
    obtain ⟨m', t', inserted, valid', held⟩ := rbInsert_spec holds valid fresh
    exact ⟨m', t', inserted, held.holds, valid',
      held.order.trans (slotOf_insert x holds.nodup).symm⟩
  · obtain ⟨m', t', erased, valid', held⟩ := rbErase_spec holds valid member
    exact ⟨m', t', erased, held.holds, valid', held.order⟩

/-- A black node at `0x10` with a red left child at `0x20`. -/
def rbTwo : RbMemory where
  parentColor x := if x.1 = 0x10#32 then 1#32 else 0x10#32
  child side x := if side = .left ∧ x.1 = 0x10#32 then some (rbNodeAt 7) else none
  root := some (rbNodeAt 3)

theorem rbTwo_holds : Holds rbTwo (.node .black (.node .red .nil (rbNodeAt 7) .nil)
    (rbNodeAt 3) .nil) := by
  refine ⟨rfl, ⟨⟨?_, ?_, rfl, rfl⟩, ⟨⟨?_, ?_, rfl, rfl⟩, trivial, trivial⟩, trivial⟩, ?_⟩ <;>
    decide

/-- The tree of two nodes: a third one is hung to the left of the red node, and the
root is erased. -/
theorem rbtree_insert_erase_two :
    (∃ m' t', rbInsertColor (rbNodeAt 11) (rbLinkNode rbTwo (rbNodeAt 11)
          (some (rbNodeAt 7)) (.child .left (rbNodeAt 7))) = some m' ∧
        Holds m' t' ∧ t'.Valid ∧ t'.toList =
          [rbNodeAt 11, rbNodeAt 7, rbNodeAt 3]) ∧
      ∃ m' t', rbErase (rbNodeAt 3) rbTwo = some m' ∧
        Holds m' t' ∧ t'.Valid ∧ t'.toList = [rbNodeAt 7] := by
  have valid : (Tree.node .black (.node .red .nil (rbNodeAt 7) .nil)
      (rbNodeAt 3) .nil).Valid := ⟨rfl, 1, 0, rfl, ⟨rfl, rfl, rfl, rfl⟩, rfl⟩
  obtain ⟨insert, erase⟩ := rbtree_insert_erase rbTwo _ rbTwo_holds valid
  exact ⟨insert (rbNodeAt 11) (.child .left (rbNodeAt 7)) (by decide)
    (fun p parent => by obtain rfl := Option.some.inj parent; decide) rfl,
    erase (rbNodeAt 3) (by decide)⟩

end EduOS
