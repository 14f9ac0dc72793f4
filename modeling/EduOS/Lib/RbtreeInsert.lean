import EduOS.Lib.RbtreeShape

/-!
# Inserting a node

`rb_link_node` hangs a red node into an empty place of the tree, and
`rb_insert_color` repairs the colours on the way up.  The invariant of its loop: the
tree is valid but for the colour over the current node, which is red and whose
subtree fits in its place (`Fits`).  One pass recolours and climbs two levels, or
rotates, after which the node has a black parent.
-/

namespace EduOS

open Tree

variable {nodes : List RbNode} {m start : RbMemory} {context up : List (Frame RbNode)}
    {t sibling uncle : Tree RbNode} {side : Side} {p x g node : RbNode}

theorem rbNode_length_lt (nodup : nodes.Nodup) : nodes.length < 2 ^ 32 := by
  have injective : Function.Injective fun x : RbNode => (⟨x.1, x.2.1⟩ : Pointer) :=
    fun x y eq => Subtype.ext (Subtype.mk.inj eq)
  rw [← List.length_map fun x : RbNode => (⟨x.1, x.2.1⟩ : Pointer)]
  exact Pointer.length_lt (nodup.map injective)

/-- A context is shorter than a loop may run. -/
theorem Holds.length_lt (holds : Holds m (plug context t)) : context.length < 2 ^ 32 :=
  lt_of_le_of_lt (length_labels context) (rbNode_length_lt (holds_plug.mp holds).2.2.1)

/-- The test of the source for the side on which a child hangs. -/
theorem side_test {node : Option RbNode} (near : m.child side p = node)
    (far : m.child side.flip p ≠ node) :
    (if m.child .left p = node then Side.left else Side.right) = side := by
  cases side with
  | left => exact if_pos near
  | right => exact if_neg far

/-- The root of a tree is no node of another tree that shares none with it. -/
theorem root_ne_of_disjoint {s : Tree RbNode} (mem : x ∈ s.toList)
    (apart : List.Disjoint s.toList t.toList) : t.root ≠ some x :=
  fun root => apart mem (root_mem root)

/-! ## One pass of the loop -/

/-- The last steps of a pass: the red parent `p` moves over the grandparent. -/
theorem insertColor_rotate (held : HoldsInOrder start m nodes
      (plug up (Tree.branch side .black (Tree.branch side .red t p sibling) g uncle))) :
    ∃ m', rbRotate side.flip g (rbSetRed (rbSetBlack m p) g) = some m' ∧
      HoldsInOrder start m' nodes
        (plug (⟨side, .black, p, Tree.branch side.flip .red uncle g sibling⟩ :: up) t) := by
  have red := (held.recolour_near (recoloured_rbSetBlack m p)).recolour (recoloured_rbSetRed _ g)
  rw [← branch_flip side .red uncle, ← branch_flip side .black sibling] at red
  obtain ⟨m', rotated, held'⟩ := red.rotate
  rw [plug_far, Side.flip_flip] at held'
  exact ⟨m', rotated, held'⟩

/-- The state of the loop at `node`: the tree `plug context t` is held, its nodes in
order are `nodes`, and `t` is red and fits. -/
structure Inserting (start : RbMemory) (nodes : List RbNode) (context : List (Frame RbNode))
    (node : RbNode) (m : RbMemory) : Prop where
  climb : ∃ t n, Holds m (plug context t) ∧ (plug context t).toList = nodes ∧
    t.root = some node ∧ t.colour = .red ∧ t.Balanced n ∧ Fits n context
  outside : Outside start m nodes

/-- A red uncle: the colours of three nodes change, and the loop goes on at the
grandparent. -/
theorem insertColorAt_red {at_side : Side} (inserting : Inserting start nodes
      (⟨at_side, .red, p, sibling⟩ :: ⟨side, .black, g, uncle⟩ :: up) node m)
    (red : uncle.colour = .red) :
    ∃ m', insertColorAt side node p g m = some (g, m') ∧ Inserting start nodes up g m' := by
  obtain ⟨⟨t, n, holds, order, root, t_red, balanced, sibling_balanced, sibling_black, -,
    uncle_balanced, fits⟩, outside⟩ := inserting
  obtain ⟨u, uncle_root⟩ := root_of_red red
  obtain ⟨near, far, rfl⟩ := exists_red_branch side uncle_root red
  have held : HoldsInOrder start m nodes (plug up (Tree.branch side .black
      (Tree.branch at_side .red t p sibling) g (Tree.branch side .red near u far))) :=
    ⟨holds, order, outside⟩
  have held' := ((held.recolour_far (recoloured_rbSetBlack m u)).recolour_near
    (recoloured_rbSetBlack _ p)).recolour (recoloured_rbSetRed _ g)
  refine ⟨_, ?_, ⟨_, n + 1, held'.holds, held'.order, by simp, by simp, ?_, fits⟩, held'.outside⟩
  · have uncle_red : (m.child side.flip g).filter (rbIsRed m) = some u := by
      rw [held.holds.node.far]
      simp [Option.filter, rbIsRed, held.holds.branch_far.1.color]
    simp only [insertColorAt, uncle_red]
  · simp only [balanced_red_branch, colour_branch, balanced_black_branch_succ]
    exact ⟨trivial, trivial, ⟨balanced, sibling_balanced⟩,
      (balanced_red_branch.mp uncle_balanced).2.2⟩

theorem filter_red_of_black {parent : RbNode} (stored : Subtree m (some parent) t)
    (black : t.colour = .black) : t.root.filter (rbIsRed m) = none := by
  cases t with
  | nil => rfl
  | node c l x r =>
    obtain rfl : c = .black := black
    simp [Tree.root, Option.filter, rbIsRed, stored.1.color]

/-- A black uncle: after at most two rotations the node has a black parent. -/
theorem insertColorAt_black {at_side : Side} (inserting : Inserting start nodes
      (⟨at_side, .red, p, sibling⟩ :: ⟨side, .black, g, uncle⟩ :: up) node m)
    (black : uncle.colour = .black) :
    ∃ f node' m', insertColorAt side node p g m = some (node', m') ∧
      Inserting start nodes (f :: up) node' m' := by
  obtain ⟨⟨t, n, holds, order, root, t_red, balanced, sibling_balanced, sibling_black, -,
    uncle_balanced, fits⟩, outside⟩ := inserting
  have held : HoldsInOrder start m nodes (plug up (Tree.branch side .black
      (Tree.branch at_side .red t p sibling) g uncle)) := ⟨holds, order, outside⟩
  have uncle_black : (m.child side.flip g).filter (rbIsRed m) = none := by
    rw [held.holds.node.far]
    exact filter_red_of_black held.holds.branch.2.2 black
  have node_p := held.holds.branch_near.1
  obtain ⟨near, far, rfl⟩ := exists_red_branch side root t_red
  obtain ⟨near_black, far_black, near_balanced, far_balanced⟩ :=
    balanced_red_branch.mp balanced
  by_cases same_side : at_side = side
  · -- the node is an outer grandchild
    subst same_side
    have not_inner : m.child at_side.flip p ≠ some node := by
      rw [node_p.far]
      refine root_ne_of_disjoint (root_mem root) ?_
      exact (nodup_branch.mp (nodup_branch.mp (nodup_plug.mp held.holds.nodup).1).2.1.1).2.2
    obtain ⟨m', rotated, held'⟩ := insertColor_rotate held
    refine ⟨⟨at_side, .black, p, Tree.branch at_side.flip .red uncle g sibling⟩, node, m', ?_,
      ⟨_, n, held'.holds, held'.order, root, t_red, balanced, ?_, fits⟩, held'.outside⟩
    · simp only [insertColorAt, uncle_black, if_neg not_inner]
      show (rbRotate at_side.flip g (rbSetRed (rbSetBlack m p) g) >>= fun m => some (node, m)) = _
      rw [rotated]
      rfl
    · exact balanced_red_branch.mpr ⟨black, sibling_black, uncle_balanced, sibling_balanced⟩
  · -- an inner grandchild is first rotated outwards
    obtain rfl : at_side = side.flip := Side.eq_flip_of_ne same_side
    have inner : m.child side.flip p = some node := node_p.near.trans root
    rw [branch_flip, plug_near] at held
    obtain ⟨m₁, rotated₁, held₁⟩ := held.rotate
    obtain ⟨m', rotated, held'⟩ := insertColor_rotate held₁
    refine ⟨⟨side, .black, node, Tree.branch side.flip .red uncle g far⟩, p, m', ?_,
      ⟨_, n, held'.holds, held'.order, by simp, by simp, ?_, ?_, fits⟩, held'.outside⟩
    · simp only [insertColorAt, uncle_black, if_pos inner, rotated₁, Option.map_some]
      show (rbRotate side.flip g (rbSetRed (rbSetBlack m₁ node) g) >>= fun m => some (p, m)) = _
      rw [rotated]
      rfl
    · exact balanced_red_branch.mpr ⟨sibling_black, near_black, sibling_balanced, near_balanced⟩
    · exact balanced_red_branch.mpr ⟨black, far_black, uncle_balanced, far_balanced⟩

/-! ## The loop -/

/-- What the loop leaves: a tree that is valid once its root is black. -/
def Inserted (start : RbMemory) (nodes : List RbNode) (m : RbMemory) : Prop :=
  ∃ t, Holds m t ∧ t.blacken.Valid ∧ t.toList = nodes ∧ Outside start m nodes

theorem insertColorPass_spec (inserting : Inserting start nodes context node m) :
    (∃ context' node' m', insertColorPass (node, m) = some (.inl (node', m')) ∧
        context'.length < context.length ∧ Inserting start nodes context' node' m') ∨
      ∃ m', insertColorPass (node, m) = some (.inr m') ∧ Inserted start nodes m' := by
  obtain ⟨⟨t, n, holds, order, root, t_red, balanced, fits⟩, outside⟩ := id inserting
  obtain ⟨near, far, rfl⟩ := exists_red_branch .left root t_red
  have parent : rbParent m node = holder none context := holds.node.parent
  match context, fits with
  | [], _ =>
    refine Or.inr ⟨m, ?_, _, holds, balanced.blacken, order, outside⟩
    simp only [insertColorPass, parent]
    rfl
  | ⟨at_side, .black, p, sibling⟩ :: up, fits =>
    have valid := (valid_plug _ _).mpr ⟨n, fits, balanced, nofun⟩
    obtain ⟨-, height, whole_balanced⟩ := valid
    refine Or.inr ⟨m, ?_, _, holds, whole_balanced.blacken, order, outside⟩
    have color : rbColor m p = .black :=
      (Holds.node (show Holds m (plug up (Tree.branch at_side .black
        (Tree.branch .left .red near node far) p sibling)) from holds)).color
    simp [insertColorPass, parent, holder, Option.filter, rbIsRed, color]
  | ⟨at_side, .red, p, sibling⟩ :: ⟨side, .black, g, uncle⟩ :: up, fits =>
    have whole : Holds m (plug up (Tree.branch side .black (Tree.branch at_side .red
        (Tree.branch .left .red near node far) p sibling) g uncle)) := holds
    have node_p := whole.branch_near.1
    have tested : (if m.child .left g = some p then Side.left else Side.right) = side := by
      refine side_test (whole.node.near.trans (by simp)) ?_
      rw [whole.node.far]
      refine root_ne_of_disjoint (s := Tree.branch at_side .red _ p sibling) ?_
        (nodup_branch.mp (nodup_plug.mp whole.nodup).1).2.2
      exact mem_branch.mpr (Or.inl rfl)
    have pass : insertColorPass (node, m) = (insertColorAt side node p g m).map .inl := by
      have parent_red : (rbParent m node).filter (rbIsRed m) = some p := by
        rw [parent]
        simp [holder, Option.filter, rbIsRed, node_p.color]
      simp [insertColorPass, parent_red, node_p.parent, tested]
    rw [pass]
    refine Or.inl ?_
    by_cases red : uncle.colour = .red
    · obtain ⟨m', passed, inserting'⟩ := insertColorAt_red inserting red
      exact ⟨up, g, m', by rw [passed]; rfl, by simp only [List.length_cons]; omega, inserting'⟩
    · obtain ⟨f, node', m', passed, inserting'⟩ :=
        insertColorAt_black inserting (Colour.eq_black_of_ne red)
      exact ⟨f :: up, node', m', by rw [passed]; rfl, by simp only [List.length_cons]; omega,
        inserting'⟩
  | [⟨_, .red, _, _⟩], fits => cases fits.2.2.1
  | ⟨_, .red, _, _⟩ :: ⟨_, .red, _, _⟩ :: _, fits => cases fits.2.2.1

theorem HoldsInOrder.blacken (held : HoldsInOrder start m nodes t) (root : t.root = some x) :
    HoldsInOrder start (rbSetBlack m x) nodes t.blacken := by
  obtain ⟨near, far, eq⟩ := exists_branch .left root
  rw [eq, ← plug_nil (Tree.branch _ _ _ _ _)] at held
  rw [eq, blacken_branch]
  exact held.recolour (recoloured_rbSetBlack m x)

theorem Tree.toList_blacken {α : Type*} (t : Tree α) : t.blacken.toList = t.toList := by
  cases t <;> rfl

/-- **`rb_insert_color`** after a red leaf was hung into a valid tree: the tree is
valid again, with the same nodes in the same order. -/
theorem rbInsertColor_spec (valid : (plug context .nil).Valid)
    (holds : Holds m (plug context (.node .red .nil x .nil))) :
    ∃ m' t, rbInsertColor x m = some m' ∧ t.Valid ∧
      HoldsInOrder m m' (before context ++ x :: after context) t := by
  obtain ⟨n, fits, balanced, -⟩ := (valid_plug _ _).mp valid
  have order : (plug context (.node .red .nil x .nil)).toList =
      before context ++ x :: after context := by
    simp [toList_plug, Tree.toList]
  have starting : Inserting m (before context ++ x :: after context) context x m :=
    ⟨⟨_, n, holds, order, rfl, rfl, ⟨rfl, rfl, balanced, balanced⟩, fits⟩, Outside.refl m _⟩
  obtain ⟨m₁, looped, t, holds₁, valid₁, order₁, outside₁⟩ := loop_ranked insertColorPass
    (fun k s => ∃ context', context'.length = k ∧
      Inserting m (before context ++ x :: after context) context' s.1 s.2)
    (Inserted m (before context ++ x :: after context))
    (by
      rintro _ ⟨node, m₁⟩ ⟨context', rfl, inserting⟩
      rcases insertColorPass_spec inserting with
        ⟨context'', node', m', passed, shorter, inserting'⟩ | ⟨m', passed, inserted⟩
      · exact Or.inl ⟨(node', m'), _, passed, shorter, context'', rfl, inserting'⟩
      · exact Or.inr ⟨m', passed, inserted⟩)
    (2 ^ 32) context.length (x, m) ⟨context, rfl, starting⟩ holds.length_lt
  obtain ⟨top, root⟩ : ∃ top, t.root = some top := by
    cases t with
    | nil => simp [Tree.toList] at order₁
    | node c l y r => exact ⟨y, rfl⟩
  refine ⟨rbSetBlack m₁ top, t.blacken, ?_, valid₁,
    HoldsInOrder.blacken ⟨holds₁, order₁, outside₁⟩ root⟩
  simp only [rbInsertColor, looped, holds₁.root, root, Option.bind_eq_bind, Option.bind_some]

/-! ## Linking a node -/

/-- The empty place that a context leaves. -/
def slotOf : List (Frame RbNode) → Slot
  | [] => .root
  | f :: _ => .child f.side f.label

theorem slotOf_parent (context : List (Frame RbNode)) :
    (slotOf context).parent = holder none context := by
  cases context <;> rfl

/-- `rb_link_node` hangs a red leaf into an empty place. -/
theorem rbLinkNode_spec (holds : Holds m (plug context .nil)) (fresh : x ∉ labels context) :
    let m' := rbLinkNode m x (slotOf context).parent (slotOf context)
    Holds m' (plug context (.node .red .nil x .nil)) ∧ Outside m m' (x :: labels context) := by
  obtain ⟨⟨root, spine, -⟩, -, nodup, -⟩ := holds_plug.mp holds
  let m₁ := setChild (setChild (setWord m x (nodeWord (slotOf context).parent)) .left x none)
    .right x none
  have same₁ : ∀ y, y ≠ x → SameAt m m₁ y := fun y ne =>
    (sameAt_setWord ne).trans ((sameAt_setChild ne).trans (sameAt_setChild ne))
  have node₁ : NodeAt m₁ x .red (holder none context) .left none none := by
    refine ⟨?_, ?_, by simp [m₁], by simp [m₁, Side.flip]⟩
    · simp [m₁, rbColor_setWord, nodeWord_bit]
    · simp only [m₁, rbParent_setChild, rbParent_setWord, slotOf_parent]
      exact wordNode_of_high (nodeWord_high _)
  have spine₁ : Spine m₁ none context none :=
    spine.frame fun y mem => same₁ y fun eq => fresh (eq ▸ mem)
  have alone : (Tree.node Colour.red .nil x .nil).toList.Nodup ∧ (labels context).Nodup ∧
      List.Disjoint (Tree.node Colour.red .nil x .nil).toList (labels context) := by
    refine ⟨by simp [Tree.toList], nodup, ?_⟩
    simpa [Tree.toList] using fresh
  cases context with
  | nil =>
    refine ⟨holds_plug.mpr ⟨⟨rfl, trivial, node₁.of_same ⟨rfl, fun _ => rfl⟩, trivial, trivial⟩,
      alone⟩, fun y notMem => ?_⟩
    have same := same₁ y fun eq => notMem (eq ▸ List.mem_cons_self)
    exact ⟨same.word, same.child⟩
  | cons f up =>
    have ne_x : f.label ≠ x := fun eq => fresh (mem_labels_cons.mpr (Or.inl eq.symm))
    have node_f := spine₁.1
    have node_f' : NodeAt (setChild m₁ f.side f.label (some x)) f.label f.colour
        (holder none up) f.side (some x) f.sibling.root :=
      ⟨node_f.color, node_f.parent, by simp, by simpa using node_f.far⟩
    refine ⟨holds_plug.mpr ⟨⟨root, spine₁.refocus nodup node_f' fun y ne _ => sameAt_setChild ne,
      node₁.of_same (sameAt_setChild ne_x.symm), trivial, trivial⟩, alone⟩, fun y notMem => ?_⟩
    simp only [List.mem_cons, mem_labels_cons, not_or] at notMem
    exact (same₁ y notMem.1).trans (sameAt_setChild notMem.2.1)

end EduOS
