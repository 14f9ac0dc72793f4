import EduOS.Lib.RbtreeInsert

/-!
# Removing a node

`rb_erase` takes a node out of the tree: a node with at most one child is replaced
by that child, a node with two children by its successor.  If the colour that was
taken out is black, the subtree that moved up is one black node short (`Short`), and
`__rb_erase_color` carries the missing node upwards until a recolouring or a
rotation can supply it.
-/

namespace EduOS

open Tree Option

/-- One black node short of the height `n + 1`: a black root lacks it, a red root
supplies it by turning black. -/
def Short {α : Type*} (n : ℕ) (t : Tree α) : Prop :=
  (t.colour = .black ∧ t.Balanced n) ∨ (t.colour = .red ∧ t.blacken.Balanced (n + 1))

variable {n : ℕ} {m start : RbMemory} {t near far l r : Tree RbNode} {nodes : List RbNode}
    {context up : List (Frame RbNode)} {side : Side} {c d : Colour} {x p s left right : RbNode}

variable {α : Type*} {parent : Option RbNode} {sibling : Tree RbNode} {low : List (Frame RbNode)}

theorem short_of_balanced {t : Tree α} (balanced : t.Balanced n) : Short n t := by
  cases t with
  | nil => exact Or.inl ⟨rfl, balanced⟩
  | node c l x r =>
    cases c with
    | red => exact Or.inr ⟨rfl, n, rfl, balanced.2.2⟩
    | black => exact Or.inl ⟨rfl, balanced⟩

theorem nullOrBlack_root (stored : Subtree m parent t) :
    rbNullOrBlack m t.root = true ↔ t.colour = .black := by
  cases t with
  | nil => exact ⟨fun _ => rfl, fun _ => rfl⟩
  | node c l x r => simp [Tree.root, rbNullOrBlack, stored.1.color, Tree.colour]

/-! ## One pass of the loop -/

/-- The sibling is made black. -/
theorem eraseColorRedSibling_spec
    (held : HoldsInOrder start m nodes (plug up (Tree.branch side c t p sibling)))
    (fits : Fits (n + 1) (⟨side, c, p, sibling⟩ :: up)) :
    ∃ m' c' up' near other far, eraseColorRedSibling side p m = some (other, m') ∧
      HoldsInOrder start m' nodes
        (plug up' (Tree.branch side c' t p (Tree.branch side .black near other far))) ∧
      Fits (n + 1) (⟨side, c', p, Tree.branch side .black near other far⟩ :: up') ∧
      (c' = .red ∨ up' = up) := by
  have sibling_balanced : sibling.Balanced (n + 1) := fits.sibling
  obtain ⟨other, root⟩ := root_ne_none sibling_balanced
  obtain ⟨near, far, eq⟩ := exists_branch side root
  have child : m.child side.flip p = some other := held.holds.node.far.trans root
  rw [eq] at held fits sibling_balanced
  have color := held.holds.branch_far.1.color
  by_cases red : sibling.colour = .red
  · rw [red] at held fits sibling_balanced color
    -- a red sibling has a black parent
    obtain rfl : c = .black := by
      cases c with
      | red => exact absurd fits.2.1 (by simp)
      | black => rfl
    obtain ⟨near_black, -, near_balanced, far_balanced⟩ :=
      balanced_red_branch.mp sibling_balanced
    obtain ⟨next, next_root⟩ := root_ne_none near_balanced
    obtain ⟨near', far', near_eq⟩ := exists_branch side next_root
    rw [near_black] at near_eq
    obtain ⟨m', rotated, held'⟩ := ((held.recolour_far
      (recoloured_rbSetBlack m other)).recolour (recoloured_rbSetRed _ p)).rotate
    rw [near_eq, plug_near] at held'
    refine ⟨m', .red, ⟨side, .black, other, far⟩ :: up, near', next, far', ?_, held', ?_,
      Or.inl rfl⟩
    · have child' : m'.child side.flip p = some next := by
        rw [held'.holds.node.far, root_branch]
      simp [eraseColorRedSibling, child, rbIsRed, color, rotated, child']
    · exact ⟨near_eq ▸ near_balanced, by simp, rfl, far_balanced, fits.2⟩
  · rw [Colour.eq_black_of_ne red] at held fits color
    refine ⟨m, c, up, near, other, far, ?_, held, fits, Or.inr rfl⟩
    simp [eraseColorRedSibling, child, rbIsRed, color]

/-- The last rotation: the sibling takes the colour and the place of `p`.  Its own
parent field is written early, with the value it has after the rotation. -/
theorem eraseColor_rotate {other z : RbNode} (held : HoldsInOrder start m nodes
      (plug up (Tree.branch side c t p (Tree.branch side .black near other far))))
    (root : far.root = some z) :
    ∃ m', rbRotate side p (rbSetBlack (rbSetBlack
        (rbSetParentColor m other (rbParent m p) (rbColor m p)) p) z) = some m' ∧
      HoldsInOrder start m' nodes
        (plug up (Tree.branch side c (Tree.branch side .black t p near) other far.blacken)) := by
  obtain ⟨a, b, far_eq⟩ := exists_branch side root
  have before := held.holds.rotatable
  have node_p := held.holds.node
  obtain ⟨nodup, -, apart⟩ := nodup_plug.mp before.nodup
  obtain ⟨⟨p_t, p_far⟩, -, t_far⟩ := nodup_branch.mp nodup
  obtain ⟨⟨other_near, other_far⟩, ⟨-, nodup_far⟩, near_far⟩ :=
    nodup_branch.mp (nodup_branch.mp nodup).2.1.2
  simp only [mem_branch, not_or] at p_far
  obtain ⟨p_other, p_near, p_far⟩ := p_far
  have z_far := root_mem root
  have z_other : z ≠ other := fun eq => other_far (eq ▸ z_far)
  simp only [List.Disjoint, mem_branch] at t_far apart
  let m₃ := rbSetBlack (rbSetBlack (rbSetParentColor m other (rbParent m p) (rbColor m p)) p) z
  have same : ∀ y, y ≠ other → y ≠ p → y ≠ z → SameAt m m₃ y := fun y ne_other ne_p ne_z =>
    (sameAt_setWord ne_other).trans ((sameAt_setWord ne_p).trans (sameAt_setWord ne_z))
  have outer : Subtree m₃ (some other) far.blacken := by
    rw [far_eq] at nodup_far
    have stored := before.stored_outer
    rw [far_eq, stored_branch] at stored
    obtain ⟨⟨z_a, z_b⟩, -⟩ := nodup_branch.mp nodup_far
    have below : ∀ y, y ∈ a.toList ∨ y ∈ b.toList → SameAt m m₃ y := by
      intro y mem
      have y_far : y ∈ far.toList := by
        rw [far_eq]
        exact mem_branch.mpr (Or.inr mem)
      refine same y (fun eq => other_far (eq ▸ y_far)) (fun eq => p_far (eq ▸ y_far)) ?_
      rintro rfl
      exact mem.elim z_a z_b
    rw [far_eq, blacken_branch, stored_branch]
    refine ⟨⟨by simp [m₃], ?_, stored.1.near, stored.1.far⟩, ?_, ?_⟩
    · simpa [m₃, z_other] using stored.1.parent
    · exact stored.2.1.frame fun y mem => below y (Or.inl mem)
    · exact stored.2.2.frame fun y mem => below y (Or.inr mem)
  have flat : (Tree.branch side .red t p (Tree.branch side .red near other far.blacken)).toList =
      (Tree.branch side .red t p (Tree.branch side .red near other far)).toList := by
    cases side <;> simp [Tree.branch, Tree.toList, toList_blacken]
  have before₃ : Rotatable m₃ side up t p near other far.blacken := by
    refine ⟨before.root, before.spine.frame fun y mem => same y ?_ ?_ ?_, ?_, before.near,
      before.far, before.inner, ?_, before.stored_near.frame fun y mem => same y ?_ ?_ ?_, ?_,
      outer, ?_⟩
    · exact fun eq => apart (Or.inr (Or.inr (Or.inl eq))) mem
    · exact fun eq => apart (Or.inl eq) mem
    · exact fun eq => apart (Or.inr (Or.inr (Or.inr (Or.inr (eq ▸ z_far))))) mem
    · simpa [m₃, p_other] using before.parent
    · exact before.outer.trans (by rw [far_eq]; simp)
    · exact fun eq => t_far mem (Or.inl eq)
    · exact fun eq => p_t (eq ▸ mem)
    · exact fun eq => t_far mem (Or.inr (Or.inr (eq ▸ z_far)))
    · refine before.stored_inner.frame fun y mem => same y ?_ ?_ ?_
      · exact fun eq => other_near (eq ▸ mem)
      · exact fun eq => p_near (eq ▸ mem)
      · exact fun eq => near_far mem (eq ▸ z_far)
    · rw [toList_plug, flat, ← toList_plug]
      exact before.nodup
  obtain ⟨m', rotated, holds, outside⟩ := rbRotate_spec before₃
  have color_other : rbColor m₃ other = c := by
    simp [m₃, z_other.symm, Ne.symm p_other, node_p.color]
  have color_p : rbColor m₃ p = .black := by simp [m₃]
  rw [color_other, color_p] at holds
  have members : ∀ y, y = p ∨ y = other ∨ y ∈ far.toList → y ∈ nodes := by
    rw [← held.order]
    simp only [mem_plug, mem_branch]
    tauto
  refine ⟨m', rotated, holds, ?_, ?_⟩
  · rw [← held.order, toList_plug, toList_plug, toList_rotate t p near other far c .black c .black]
    cases side <;> simp [Tree.branch, Tree.toList, toList_blacken]
  refine held.outside.trans fun y notMem => (same y ?_ ?_ ?_).trans (outside y ?_)
  · exact fun eq => notMem (members y (Or.inr (Or.inl eq)))
  · exact fun eq => notMem (members y (Or.inl eq))
  · exact fun eq => notMem (members y (Or.inr (Or.inr (eq ▸ z_far))))
  · rw [toList_plug, flat, ← toList_plug]
    rw [← held.order] at notMem
    simpa only [mem_plug, mem_branch] using notMem

/-- A red nephew supplies the missing black node. -/
theorem eraseColorRedNephew_spec {other : RbNode} (held : HoldsInOrder start m nodes
      (plug up (Tree.branch side c t p (Tree.branch side .black near other far))))
    (balanced : near.Balanced n ∧ far.Balanced n) (red : far.colour = .black → near.colour = .red) :
    ∃ m' near' other' far', eraseColorRedNephew side p other m = some m' ∧
      HoldsInOrder start m' nodes
        (plug up (Tree.branch side c (Tree.branch side .black t p near') other' far')) ∧
      near'.Balanced n ∧ far'.Balanced (n + 1) ∧ far'.colour = .black := by
  obtain ⟨node_other, -, stored_far⟩ := held.holds.branch_far
  by_cases far_black : far.colour = .black
  · -- the near nephew is red: it becomes the sibling
    obtain ⟨v, near_root⟩ := root_of_red (red far_black)
    obtain ⟨a, b, rfl⟩ := exists_red_branch side near_root (red far_black)
    obtain ⟨a_black, b_black, a_balanced, b_balanced⟩ := balanced_red_branch.mp balanced.1
    rw [plug_far] at held
    have held₂ := (held.recolour_near (recoloured_rbSetBlack m v)).recolour
      (recoloured_rbSetRed _ other)
    rw [← branch_flip side .red far, ← branch_flip side .black b] at held₂
    obtain ⟨m₃, rotated, held₃⟩ := held₂.rotate
    rw [branch_flip, branch_flip, ← plug_far] at held₃
    have child : m₃.child side.flip p = some v := by
      rw [held₃.holds.node.far, root_branch]
    obtain ⟨m', rotated', held'⟩ := eraseColor_rotate held₃ root_branch
    refine ⟨m', a, v, _, ?_, held', a_balanced, ?_, by simp⟩
    · have tested : rbNullOrBlack m (m.child side.flip other) = true := by
        rw [node_other.far]
        exact (nullOrBlack_root stored_far).mpr far_black
      have near_child : m.child side other = some v := node_other.near.trans (by simp)
      have far_child : m₃.child side.flip v = some other :=
        held₃.holds.branch_far.1.far.trans (by simp)
      simp [eraseColorRedNephew, tested, near_child, rotated, child, far_child, rotated']
    · rw [blacken_branch, balanced_black_branch_succ]
      exact ⟨b_balanced, balanced.2⟩
  · have far_red : far.colour = .red := by
      cases color : far.colour with
      | red => rfl
      | black => exact absurd color far_black
    obtain ⟨z, far_root⟩ := root_of_red far_red
    obtain ⟨m', rotated, held'⟩ := eraseColor_rotate held far_root
    refine ⟨m', near, other, far.blacken, ?_, held', balanced.1, ?_, ?_⟩
    · have tested : rbNullOrBlack m (m.child side.flip other) = false := by
        rw [node_other.far, Bool.eq_false_iff]
        exact fun black => far_black ((nullOrBlack_root stored_far).mp black)
      have far_child : m.child side.flip other = some z := node_other.far.trans far_root
      rw [far_child] at tested
      simp [eraseColorRedNephew, tested, far_child, rotated]
    · rcases short_of_balanced balanced.2 with ⟨black, -⟩ | ⟨-, blackened⟩
      · exact absurd black far_black
      · exact blackened
    · cases far <;> rfl

/-- The state of the loop: the subtree `t` under `context` is one black node short. -/
structure Erasing (start : RbMemory) (nodes : List RbNode) (context : List (Frame RbNode))
    (t : Tree RbNode) (m : RbMemory) : Prop where
  held : HoldsInOrder start m nodes (plug context t)
  short : ∃ n, Short n t ∧ Fits (n + 1) context

/-- How many further passes the loop can make: a red node ends it. -/
def eraseRank (context : List (Frame RbNode)) (t : Tree RbNode) : ℕ :=
  if t.colour = .red then 0 else context.length

/-- What the loop leaves: a tree that is valid once `node` is black. -/
def Erased (start : RbMemory) (nodes : List RbNode) (node : Option RbNode) (m : RbMemory) : Prop :=
  ∃ t, t.Valid ∧ HoldsInOrder start (rbSetBlackOf m node) nodes t

theorem erased_of_valid (held : HoldsInOrder start m nodes t) (valid : t.Valid) :
    Erased start nodes m.root m := by
  obtain ⟨-, n, balanced⟩ := valid
  refine ⟨t.blacken, balanced.blacken, ?_⟩
  rw [held.holds.root]
  cases root : t.root with
  | none =>
    cases t with
    | nil => exact held
    | node c l x r => exact absurd root nofun
  | some x => exact held.blacken root

theorem eraseColorAt_spec
    (held : HoldsInOrder start m nodes (plug up (Tree.branch side c t p sibling)))
    (fits : Fits (n + 1) (⟨side, c, p, sibling⟩ :: up)) (balanced : t.Balanced n) :
    (∃ context' t' m', eraseColorAt side p m = some (.inl (t'.root, holder none context', m')) ∧
        eraseRank context' t' < up.length + 1 ∧ Erasing start nodes context' t' m') ∨
      ∃ m', eraseColorAt side p m = some (.inr (m'.root, m')) ∧ Erased start nodes m'.root m' := by
  obtain ⟨m₁, c', up', near, other, far, sibling_black, held₁, fits₁, progress⟩ :=
    eraseColorRedSibling_spec held fits
  have nephews : near.Balanced n ∧ far.Balanced n :=
    balanced_black_branch_succ.mp fits₁.sibling
  obtain ⟨node_other, stored_near, stored_far⟩ := held₁.holds.branch_far
  have tested : (rbNullOrBlack m₁ (m₁.child .left other) &&
      rbNullOrBlack m₁ (m₁.child .right other)) =
        (rbNullOrBlack m₁ near.root && rbNullOrBlack m₁ far.root) := by
    cases side with
    | left => rw [← node_other.near, ← node_other.far]; rfl
    | right => rw [← node_other.near, ← node_other.far, Bool.and_comm]; rfl
  by_cases both : near.colour = .black ∧ far.colour = .black
  · -- the sibling turns red, and `p` is short
    left
    let t' := Tree.branch side c' t p (Tree.branch side .red near other far)
    have held₂ : HoldsInOrder start (rbSetRed m₁ other) nodes (plug up' t') :=
      held₁.recolour_far (recoloured_rbSetRed m₁ other)
    have red_balanced : (Tree.branch side .red near other far).Balanced n :=
      balanced_red_branch.mpr ⟨both.1, both.2, nephews⟩
    refine ⟨up', t', rbSetRed m₁ other, ?_, ?_, held₂, ?_⟩
    · have both_true : (rbNullOrBlack m₁ near.root && rbNullOrBlack m₁ far.root) = true := by
        rw [(nullOrBlack_root stored_near).mpr both.1, (nullOrBlack_root stored_far).mpr both.2]
        rfl
      have parent : rbParent (rbSetRed m₁ other) p = holder none up' := held₂.holds.node.parent
      simp only [eraseColorAt, sibling_black, bind_eq_bind, bind_some, tested,
        both_true, if_true, parent, t', root_branch]
    · rcases progress with rfl | rfl
      · simp [eraseRank, t']
      · unfold eraseRank
        split <;> omega
    · cases c' with
      | red =>
        refine ⟨n, Or.inr ⟨by simp [t'], ?_⟩, fits₁.2.2.2⟩
        simp only [t', blacken_branch, balanced_black_branch_succ]
        exact ⟨balanced, red_balanced⟩
      | black =>
        refine ⟨n + 1, Or.inl ⟨by simp [t'], ?_⟩, fits₁.2⟩
        exact balanced_black_branch_succ.mpr ⟨balanced, red_balanced⟩
  · -- a nephew is red
    right
    have red : far.colour = .black → near.colour = .red := by
      intro far_black
      cases near_color : near.colour with
      | red => rfl
      | black => exact absurd ⟨near_color, far_black⟩ both
    obtain ⟨m', near', other', far', nephew, held', near_balanced, far_balanced, far_black⟩ :=
      eraseColorRedNephew_spec held₁ nephews red
    refine ⟨m', ?_, erased_of_valid held' ((valid_plug _ _).mpr ?_)⟩
    · have both_false : (rbNullOrBlack m₁ near.root && rbNullOrBlack m₁ far.root) = false := by
        rw [Bool.eq_false_iff]
        intro both_true
        rw [Bool.and_eq_true, nullOrBlack_root stored_near, nullOrBlack_root stored_far]
          at both_true
        exact both both_true
      simp only [eraseColorAt, sibling_black, bind_eq_bind, bind_some, tested,
        both_false, Bool.false_eq_true, if_false, nephew]
    · have raised : (Tree.branch side .black t p near').Balanced (n + 1) :=
        balanced_black_branch_succ.mpr ⟨balanced, near_balanced⟩
      cases c' with
      | red =>
        refine ⟨n + 1, fits₁.2.2.2, ?_, fun above_red => ?_⟩
        · exact balanced_red_branch.mpr ⟨by simp, far_black, raised, far_balanced⟩
        · cases above_red.symm.trans fits₁.2.2.1
      | black =>
        refine ⟨n + 2, fits₁.2, ?_, fun _ => by simp⟩
        exact balanced_black_branch_succ.mpr ⟨raised, far_balanced⟩

/-! ## The loop -/

theorem eraseColorPass_spec (erasing : Erasing start nodes context t m) :
    (∃ context' t' m', eraseColorPass (t.root, holder none context, m) =
          some (.inl (t'.root, holder none context', m')) ∧
        eraseRank context' t' < eraseRank context t ∧ Erasing start nodes context' t' m') ∨
      ∃ node m', eraseColorPass (t.root, holder none context, m) = some (.inr (node, m')) ∧
        Erased start nodes node m' := by
  obtain ⟨held, n, short, fits⟩ := erasing
  have stored := (holds_plug.mp held.holds).1.2.2
  rcases short with ⟨black, balanced⟩ | ⟨red, balanced⟩
  · match context, fits with
    | [], _ =>
      -- the whole tree is short
      have root : m.root = t.root := held.holds.root
      refine Or.inr ⟨m.root, m, ?_, erased_of_valid held ⟨black, n, balanced⟩⟩
      simp [eraseColorPass, root]
    | f :: up, fits =>
      have whole : HoldsInOrder start m nodes
          (plug up (Tree.branch f.side f.colour t f.label f.sibling)) := held
      obtain ⟨nodup, -, -⟩ := nodup_plug.mp whole.holds.nodup
      have sibling_root : f.sibling.root ≠ t.root := by
        obtain ⟨y, y_root⟩ := root_ne_none fits.sibling
        intro same
        exact (nodup_branch.mp nodup).2.2 (root_mem (same ▸ y_root)) (root_mem y_root)
      have root_ne : t.root ≠ m.root := by
        intro same
        obtain ⟨y, top, mem⟩ := topmost_cons_mem f up t.root
        have root : m.root = some y := (holds_plug.mp held.holds).1.1.trans top
        exact (holds_plug.mp held.holds).2.2.2 (root_mem (same.trans root)) mem
      have tested : (if m.child .left f.label = t.root then Side.left else Side.right) =
          f.side :=
        side_test whole.holds.node.near (whole.holds.node.far ▸ sibling_root)
      have pass : eraseColorPass (t.root, holder none (f :: up), m) =
          eraseColorAt f.side f.label m := by
        have condition : (rbNullOrBlack m t.root && t.root != m.root) = true := by
          rw [(nullOrBlack_root stored).mpr black, Bool.true_and, bne_iff_ne]
          exact root_ne
        simp [eraseColorPass, condition, holder, tested]
      have rank : eraseRank (f :: up) t = up.length + 1 := by simp [eraseRank, black]
      rw [pass, rank]
      rcases eraseColorAt_spec whole fits balanced with
        goes_on | ⟨m', passed, erased⟩
      · exact Or.inl goes_on
      · exact Or.inr ⟨m'.root, m', passed, erased⟩
  · -- a red node supplies the missing black one
    obtain ⟨x, root⟩ := root_of_red red
    obtain ⟨near, far, eq⟩ := exists_branch .left root
    refine Or.inr ⟨t.root, m, ?_, plug context t.blacken, (valid_plug _ _).mpr
      ⟨n + 1, fits, balanced, fun _ => by cases t <;> rfl⟩, ?_⟩
    · have condition : rbNullOrBlack m t.root = false := by
        rw [Bool.eq_false_iff]
        intro black
        cases red.symm.trans ((nullOrBlack_root stored).mp black)
      simp [eraseColorPass, condition]
    · rw [eq] at held ⊢
      exact held.recolour (recoloured_rbSetBlack m x)

/-- **`__rb_erase_color`** makes a tree valid that lacks one black node. -/
theorem rbEraseColor_spec (erasing : Erasing start nodes context t m) :
    ∃ m' t', rbEraseColor t.root (holder none context) m = some m' ∧ t'.Valid ∧
      HoldsInOrder start m' nodes t' := by
  obtain ⟨⟨node, m₁⟩, looped, t', valid, held⟩ := loop_ranked eraseColorPass
    (fun k s => ∃ context t, eraseRank context t = k ∧ s.1 = t.root ∧
      s.2.1 = holder none context ∧ Erasing start nodes context t s.2.2)
    (fun r => Erased start nodes r.1 r.2)
    (by
      rintro _ ⟨node, parent, m₁⟩ ⟨context', t', rfl, node_eq, parent_eq, erasing'⟩
      obtain rfl : node = t'.root := node_eq
      obtain rfl : parent = holder none context' := parent_eq
      rcases eraseColorPass_spec erasing' with
        ⟨context'', t'', m', passed, less, erasing''⟩ | ⟨node', m', passed, erased⟩
      · exact Or.inl ⟨_, _, passed, less, context'', t'', rfl, rfl, rfl, erasing''⟩
      · exact Or.inr ⟨_, passed, erased⟩)
    (2 ^ 32) (eraseRank context t) (t.root, holder none context, m)
    ⟨context, t, rfl, rfl, rfl, erasing⟩
    (lt_of_le_of_lt (by unfold eraseRank; split <;> omega) erasing.held.holds.length_lt)
  exact ⟨rbSetBlackOf m₁ node, t', by simp only [rbEraseColor, looped, map_some], valid, held⟩

/-! ## Taking a node out -/

/-- The walk down one side ends at the outermost node of the subtree. -/
theorem descend_spec {y : RbNode} (stored : Subtree m parent t)
    (nodup : t.toList.Nodup) (root : t.root = some x) (edge : t.edge side = some y) :
    descend m side x = some y := by
  obtain ⟨_, looped, rfl⟩ := loop_ranked (descendPass m side)
    (fun k node => ∃ t parent, t.toList.length = k ∧ Subtree m parent t ∧ t.root = some node ∧
      t.edge side = some y)
    (fun r => r = y)
    (by
      rintro _ node ⟨t, parent, rfl, stored, root, edge⟩
      obtain ⟨near, far, eq⟩ := exists_branch side root
      rw [eq] at stored edge ⊢
      obtain ⟨node_at, stored_near, -⟩ := stored_branch.mp stored
      rw [edge_branch] at edge
      cases near_root : near.root with
      | none =>
        refine Or.inr ⟨node, by simp [descendPass, node_at.near, near_root], ?_⟩
        rw [edge_eq_none.mpr near_root] at edge
        exact Option.some.inj edge
      | some next =>
        refine Or.inl ⟨next, _, by simp [descendPass, node_at.near, near_root], ?_, near,
          some node, rfl, stored_near, near_root, ?_⟩
        · cases side
          · simp [Tree.branch, Tree.toList]
          · simp [Tree.branch, Tree.toList]
            omega
        · cases near_edge : near.edge side with
          | none => exact absurd (edge_eq_none.mp near_edge) (by simp [near_root])
          | some z => simpa [near_edge] using edge)
    (2 ^ 32) t.toList.length x ⟨t, parent, rfl, stored, root, edge⟩ (rbNode_length_lt nodup)
  exact looped

/-- A node with at most one child is replaced by the subtree of that child. -/
theorem unlinkSingle_spec (holds : Holds m (plug context (.node c l x r)))
    (only : (l = .nil ∧ t = r) ∨ (r = .nil ∧ t = l)) :
    ∃ m', unlinkSingle x t.root m = ⟨t.root, holder none context, c, m'⟩ ∧
      HoldsInOrder m m' (plug context t).toList (plug context t) := by
  obtain ⟨⟨root, spine, stored⟩, nodup, nodup_up, apart⟩ := holds_plug.mp holds
  obtain ⟨node, left, right⟩ := stored
  have stored_t : Subtree m (some x) t := by
    rcases only with ⟨-, rfl⟩ | ⟨-, rfl⟩
    · exact right
    · exact left
  have order : (Tree.node c l x r).toList.Perm (x :: t.toList) := by
    rcases only with ⟨rfl, rfl⟩ | ⟨rfl, rfl⟩
    · exact List.Perm.refl _
    · exact List.perm_append_comm
  rw [order.nodup_iff, List.nodup_cons] at nodup
  have apart' : ∀ y, y = x ∨ y ∈ t.toList → y ∉ labels context := fun y mem =>
    apart (order.mem_iff.mpr (List.mem_cons.mpr mem))
  let m₁ := rbSetParentOf m t.root (holder none context)
  have same₁ : ∀ y, t.root ≠ some y → SameAt m m₁ y := fun y ne => sameAt_rbSetParentOf ne
  have spine₁ : Spine m₁ none context (some x) := spine.frame fun y mem =>
    same₁ y fun top => apart' y (Or.inr (root_mem top)) mem
  have root₁ : m₁.root = topmost context (some x) := (root_rbSetParentOf m _ _).trans root
  obtain ⟨root', spine', -, same'⟩ := replaceChild_spec .left t.root root₁ spine₁ nodup_up
    (apart' x (Or.inl rfl))
  refine ⟨_, by simp only [unlinkSingle, node.parent, node.color]; rfl, holds_plug.mpr
    ⟨⟨root', spine', ?_⟩, nodup.2, nodup_up, fun y mem => apart' y (Or.inr mem)⟩, rfl, ?_⟩
  · have stored₁ : Subtree m₁ (holder none context) t :=
      stored_t.reparent nodup.2 (fun y _ ne => same₁ y ne) fun y top =>
        ⟨by simp [m₁, top], by simp [m₁], by simp [m₁]⟩
    exact stored₁.frame fun y mem => same' y (apart' y (Or.inr mem))
  · intro y notMem
    rw [mem_plug, not_or] at notMem
    exact (same₁ y fun top => notMem.1 (root_mem top)).trans (same' y notMem.2)

/-- The successor `s` takes over the word and the left subtree of `x`. -/
theorem adopt_spec (root : m.root = topmost context (some s))
    (spine : Spine m none context (some s)) (color : rbColor m x = c)
    (parent : rbParent m x = holder none context) (left_x : m.child .left x = some left)
    (x_s : x ≠ s) (right : m.child .right s = r.root) (left_root : l.root = some left)
    (stored_l : Subtree m (some x) l) (stored_r : Subtree m (some s) r)
    (nodup : (plug context (.node c l s r)).toList.Nodup) :
    ∃ m', adoptLeft x s m = some m' ∧ Holds m' (plug context (.node c l s r)) ∧
      Outside m m' (s :: l.toList) := by
  obtain ⟨nodup_t, nodup_up, apart⟩ := nodup_plug.mp nodup
  obtain ⟨⟨s_l, s_r⟩, ⟨nodup_l, -⟩, l_r⟩ := nodup_node.mp nodup_t
  have left_mem := root_mem left_root
  have left_s : left ≠ s := fun eq => s_l (eq ▸ left_mem)
  have apart' : ∀ y, y = s ∨ y ∈ l.toList ∨ y ∈ r.toList → y ∉ labels context := fun y mem =>
    apart (mem_node.mpr mem)
  let m' := rbSetParent (setChild (setWord m s (m.parentColor x)) .left s (some left)) left (some s)
  have adopted : adoptLeft x s m = some m' := by
    simp [adoptLeft, left_x, x_s, m']
  have same : ∀ y, y ≠ s → y ≠ left → SameAt m m' y := fun y ne_s ne_left =>
    (sameAt_setWord ne_s).trans ((sameAt_setChild ne_s).trans (sameAt_setWord ne_left))
  refine ⟨m', adopted,
    holds_plug.mpr ⟨⟨root, ?_, ⟨?_, ?_, ?_, ?_⟩, ?_, ?_⟩, nodup_t, nodup_up, apart⟩, ?_⟩
  · exact spine.frame fun y mem => same y (fun eq => apart' y (Or.inl eq) mem)
      fun eq => apart' y (Or.inr (Or.inl (eq ▸ left_mem))) mem
  · simp only [m', rbColor_rbSetParent, rbColor_setChild, rbColor_setWord, if_pos]
    exact color
  · simp only [m', rbParent_rbSetParent, if_neg left_s.symm, rbParent_setChild, rbParent_setWord,
      if_pos]
    exact parent
  · simp [m', left_root]
  · simpa [m', Side.flip] using right
  · refine stored_l.reparent nodup_l ?_ ?_
    · intro y mem ne_root
      exact same y (fun eq => s_l (eq ▸ mem)) fun eq => ne_root (eq ▸ left_root)
    · intro y top
      obtain rfl : left = y := mem_unique left_root top
      simp [m', rbColor_setWord, left_s]
  · exact stored_r.frame fun y mem => same y (fun eq => s_r (eq ▸ mem))
      fun eq => l_r left_mem (eq ▸ mem)
  · intro y notMem
    rw [List.mem_cons, not_or] at notMem
    exact same y notMem.1 fun eq => notMem.2 (eq ▸ left_mem)

/-- The right subtree of `x` without its first node `s`, below `s`. -/
theorem detach_spec {f : Frame RbNode} (lefts : f.side = .left)
    (stored : Subtree m (some x) (plug (f :: low) (.node d .nil s r)))
    (nodup : (plug (f :: low) (.node d .nil s r)).toList.Nodup)
    (root : (plug (f :: low) (.node d .nil s r)).root = some right)
    (right_x : m.child .right x = some right) (x_s : x ≠ s) :
    ∃ m', detachSuccessor x s f.label r.root m = some m' ∧ m'.root = m.root ∧
      Subtree m' (some s) (plug (f :: low) r) ∧ m'.child .right s = (plug (f :: low) r).root ∧
      Outside m m' (s :: (plug (f :: low) r).toList) := by
  obtain ⟨side, fc, p, sibling⟩ := f
  obtain rfl : side = .left := lefts
  obtain ⟨nodup_s, nodup_low, apart⟩ := nodup_plug.mp nodup
  obtain ⟨⟨-, s_r⟩, ⟨-, nodup_r⟩, -⟩ := nodup_node.mp nodup_s
  have apart' : ∀ y, y = s ∨ y ∈ r.toList → y ∉ labels (⟨.left, fc, p, sibling⟩ :: low) :=
    fun y mem => apart (mem_node.mpr (mem.imp id Or.inr))
  obtain ⟨spine, -, -, stored_r⟩ := stored_plug.mp stored
  have p_mem : p ∈ labels (⟨.left, fc, p, sibling⟩ :: low) := mem_labels_cons.mpr (Or.inl rfl)
  have root' : (plug (⟨.left, fc, p, sibling⟩ :: low) r).root = some right := by
    rw [root_plug] at root ⊢
    exact root
  let m₁ := setChild (rbSetParentOf m r.root (some p)) .left p r.root
  let m' := rbSetParent (setChild m₁ .right s (some right)) right (some s)
  have detached : detachSuccessor x s p r.root m = some m' := by
    simp [detachSuccessor, right_x, x_s, m', m₁]
  have same₁ : ∀ y, y ≠ p → r.root ≠ some y → SameAt m m₁ y := fun y ne_p ne_r =>
    (sameAt_rbSetParentOf ne_r).trans (sameAt_setChild ne_p)
  have stored₁ : Subtree m₁ (some x) (plug (⟨.left, fc, p, sibling⟩ :: low) r) := by
    have node_p := spine.1
    refine stored_plug.mpr ⟨spine.refocus nodup_low ?_ ?_, stored_r.reparent nodup_r ?_ ?_⟩
    · have same_p : SameAt m (rbSetParentOf m r.root (some p)) p :=
        sameAt_rbSetParentOf fun top => apart' p (Or.inr (root_mem top)) p_mem
      refine ⟨same_p.color.trans node_p.color, same_p.parent_eq.trans node_p.parent, ?_, ?_⟩
      · simp [m₁]
      · simpa [m₁, Side.flip] using node_p.far
    · exact fun y ne mem => same₁ y ne fun top =>
        apart' y (Or.inr (root_mem top)) mem
    · exact fun y mem ne => same₁ y (fun eq => apart' y (Or.inr mem) (eq ▸ p_mem)) ne
    · intro y top
      have ne_p : y ≠ p := fun eq => apart' y (Or.inr (root_mem top)) (eq ▸ p_mem)
      simp [m₁, ne_p, top, holder]
  have nodup' : (plug (⟨.left, fc, p, sibling⟩ :: low) r).toList.Nodup :=
    nodup_plug.mpr ⟨nodup_r, nodup_low, fun y mem => apart' y (Or.inr mem)⟩
  have s_notMem : s ∉ (plug (⟨.left, fc, p, sibling⟩ :: low) r).toList := by
    rw [mem_plug, not_or]
    exact ⟨s_r, apart' s (Or.inl rfl)⟩
  have right_mem := root_mem root'
  have s_right : s ≠ right := by
    rintro rfl
    exact s_notMem right_mem
  refine ⟨m', detached, by simp [m', m₁], stored₁.reparent nodup' ?_ ?_, ?_, ?_⟩
  · intro y mem ne
    have ne_s : y ≠ s := fun eq => s_notMem (eq ▸ mem)
    exact (sameAt_setChild ne_s).trans (sameAt_setWord fun eq => ne (eq ▸ root'))
  · intro y top
    obtain rfl : right = y := mem_unique root' top
    simp [m', s_right.symm]
  · rw [root']
    simp [m']
  · intro y notMem
    rw [List.mem_cons, mem_plug, not_or, not_or] at notMem
    refine (same₁ y ?_ ?_).trans ((sameAt_setChild notMem.1).trans (sameAt_setWord ?_))
    · exact fun eq => notMem.2.2 (eq ▸ p_mem)
    · exact fun top => notMem.2.1 (root_mem top)
    · exact fun eq => (mem_plug.mp (eq ▸ right_mem)).elim notMem.2.1 notMem.2.2

theorem erase_middle [BEq α] [LawfulBEq α] {x : α} {front back : List α}
    (nodup : (front ++ x :: back).Nodup) : (front ++ x :: back).erase x = front ++ back := by
  have notMem : x ∉ front := fun mem =>
    (List.nodup_append'.mp nodup).2.2 mem List.mem_cons_self
  rw [List.erase_append_right _ notMem, List.erase_cons_head]

theorem toList_erase_plug (nodup : (plug context (.node c l x r)).toList.Nodup) :
    (plug context (.node c l x r)).toList.erase x =
      before context ++ l.toList ++ (r.toList ++ after context) := by
  have split : (plug context (.node c l x r)).toList =
      before context ++ l.toList ++ x :: (r.toList ++ after context) := by
    simp [toList_plug, Tree.toList]
  rw [split] at nodup ⊢
  exact erase_middle nodup

/-- The nodes without `x`, when its successor takes its place. -/
theorem toList_erase_successor
    (nodup : (plug context (.node c l x (plug low (.node d .nil s r)))).toList.Nodup)
    (lefts : ∀ f ∈ low, f.side = .left) :
    (plug context (.node c l s (plug low r))).toList =
      (plug context (.node c l x (plug low (.node d .nil s r)))).toList.erase x := by
  rw [toList_erase_plug nodup]
  simp [toList_plug, before_eq_nil_iff.mpr lefts, Tree.toList]

/-- A node with two children is replaced by its successor. -/
theorem unlinkDouble_spec
    (holds : Holds m (plug context (.node c l x (plug low (.node d .nil s r)))))
    (lefts : ∀ f ∈ low, f.side = .left) (left_root : l.root = some left)
    (right_root : (plug low (.node d .nil s r)).root = some right) :
    ∃ m', unlinkDouble x right m =
        some ⟨r.root, holder none (low ++ ⟨.right, c, s, l⟩ :: context), d, m'⟩ ∧
      HoldsInOrder m m' ((plug context (.node c l x (plug low (.node d .nil s r)))).toList.erase x)
        (plug (low ++ ⟨.right, c, s, l⟩ :: context) r) := by
  obtain ⟨⟨root, spine, node_x, stored_l, stored_r⟩, nodup, nodup_up, apart⟩ := holds_plug.mp holds
  obtain ⟨⟨-, x_r⟩, ⟨-, nodup_r⟩, -⟩ := nodup_node.mp nodup
  have order := toList_erase_successor holds.nodup lefts
  have nodup' : (plug context (.node c l s (plug low r))).toList.Nodup := by
    rw [order]
    exact holds.nodup.erase x
  obtain ⟨nodup_s, -, apart'⟩ := nodup_plug.mp nodup'
  obtain ⟨⟨s_l, -⟩, -, l_low⟩ := nodup_node.mp nodup_s
  simp only [List.Disjoint, mem_node] at apart apart'
  have s_mem : s ∈ (plug low (.node d .nil s r)).toList :=
    mem_plug.mpr (Or.inl (by simp [Tree.toList]))
  have x_s : x ≠ s := fun eq => x_r (eq ▸ s_mem)
  have x_low : x ∉ (plug low r).toList := fun mem => x_r (mem_plug.mpr
    ((mem_plug.mp mem).imp_left fun inside => mem_node.mpr (Or.inr (Or.inr inside))))
  have walked : descend m .left right = some s := by
    refine descend_spec stored_r nodup_r right_root ?_
    simp [Tree.edge, toList_plug, before_eq_nil_iff.mpr lefts, Tree.toList]
  obtain ⟨root₁, spine₁, -, same₁⟩ := replaceChild_spec .left (some s) root spine nodup_up
    (apart (Or.inl rfl))
  set m₁ := replaceChild m .left (holder none context) x (some s)
  have node_x₁ := node_x.of_same (same₁ x (apart (Or.inl rfl)))
  have stored_l₁ := stored_l.frame fun y mem => same₁ y (apart (Or.inr (Or.inl mem)))
  have stored_r₁ := stored_r.frame fun y mem => same₁ y (apart (Or.inr (Or.inr mem)))
  obtain ⟨-, node_s₁, -, stored_r'⟩ := stored_plug.mp stored_r₁
  have right_x : m₁.child .right x = some right := node_x₁.far.trans right_root
  have child : m₁.child .right s = r.root := node_s₁.far
  -- the right subtree without `s`, now below `s`
  obtain ⟨m₂, unlinked, root₂, stored₂, child₂, outside₂⟩ : ∃ m₂,
      (∀ m', adoptLeft x s m₂ = some m' → unlinkDouble x right m =
        some ⟨r.root, holder none (low ++ ⟨.right, c, s, l⟩ :: context), d, m'⟩) ∧
      m₂.root = m₁.root ∧ Subtree m₂ (some s) (plug low r) ∧
      m₂.child .right s = (plug low r).root ∧ Outside m₁ m₂ (s :: (plug low r).toList) := by
    simp only [unlinkDouble, walked, node_x.parent, bind_eq_bind, bind_some]
    cases low with
    | nil =>
      -- the successor is the right child itself
      refine ⟨m₁, fun m' adopted => ?_, rfl, stored_r', child, .refl _ _⟩
      rw [node_s₁.parent]
      change (if x = x then _ else _) = _
      rw [if_pos rfl, adopted, bind_some, node_s₁.color, child]
      rfl
    | cons f low =>
      have f_x : f.label ≠ x := by
        rintro eq
        exact x_r (eq ▸ mem_plug.mpr (Or.inr (mem_labels_cons.mpr (Or.inl rfl))))
      obtain ⟨m₂, detached, rest⟩ := detach_spec (lefts f List.mem_cons_self) stored_r₁ nodup_r
        right_root right_x x_s
      refine ⟨m₂, fun m' adopted => ?_, rest⟩
      rw [node_s₁.parent]
      change (if f.label = x then _ else (detachSuccessor x s f.label _ m₁).bind fun m => _) = _
      rw [if_neg f_x, child, detached, bind_some, adopted, bind_some, node_s₁.color]
      rfl
  have same₂ : ∀ y, y ≠ s → y ∉ (plug low r).toList → SameAt m₁ m₂ y :=
    fun y ne y_r => outside₂ y (by simp only [List.mem_cons, not_or]; exact ⟨ne, y_r⟩)
  have node_x₂ := node_x₁.of_same (same₂ x x_s x_low)
  have spine₂ := spine₁.frame fun y mem =>
    same₂ y (fun eq => apart' (Or.inl eq) mem) fun y_low => apart' (Or.inr (Or.inr y_low)) mem
  have stored_l₂ := stored_l₁.frame fun y mem =>
    same₂ y (fun eq => s_l (eq ▸ mem)) fun y_low => l_low mem y_low
  obtain ⟨m', adopted, holds', outside'⟩ := adopt_spec (root₂.trans root₁) spine₂ node_x₂.color
    node_x₂.parent (node_x₂.near.trans left_root) x_s child₂ left_root stored_l₂ stored₂ nodup'
  refine ⟨m', unlinked m' adopted, ?_⟩
  rw [plug_append, ← order]
  refine ⟨holds', rfl, fun y notMem => ?_⟩
  simp only [mem_plug, mem_node, not_or] at notMem
  obtain ⟨⟨ne_s, y_l, y_low⟩, y_up⟩ := notMem
  rw [← not_or, ← mem_plug] at y_low
  exact (same₁ y y_up).trans ((same₂ y ne_s y_low).trans (outside' y (by simp [ne_s, y_l])))

/-- What `rb_erase` unlinks: the subtree `t` that moved up has its place, and the
height of the tree lacks at most the colour `d` there. -/
structure UnlinkedAt (start : RbMemory) (nodes : List RbNode) (u : Unlinked)
    (context : List (Frame RbNode)) (t : Tree RbNode) : Prop where
  child : u.child = t.root
  parent : u.parent = holder none context
  held : HoldsInOrder start u.memory nodes (plug context t)
  red : u.color = .red → ∃ n, Fits n context ∧ t.Balanced n ∧ t.colour = .black
  black : u.color = .black → ∃ n, Fits (n + 1) context ∧ t.Balanced n

theorem rbUnlink_single (holds : Holds m (plug context (.node c l x r)))
    (valid : (plug context (.node c l x r)).Valid)
    (only : (l = .nil ∧ t = r) ∨ (r = .nil ∧ t = l)) :
    UnlinkedAt m ((plug context (.node c l x r)).toList.erase x) (unlinkSingle x t.root m)
      context t := by
  obtain ⟨n, fits, balanced, -⟩ := (valid_plug _ _).mp valid
  obtain ⟨m', unlinked, held⟩ := unlinkSingle_spec holds only
  rw [unlinked, toList_erase_plug holds.nodup]
  have order : (plug context t).toList =
      before context ++ l.toList ++ (r.toList ++ after context) := by
    rcases only with ⟨rfl, rfl⟩ | ⟨rfl, rfl⟩ <;> simp [toList_plug, Tree.toList]
  refine ⟨rfl, rfl, order ▸ held, ?_, ?_⟩
  · rintro (rfl : c = .red)
    obtain ⟨l_black, r_black, l_balanced, r_balanced⟩ := balanced
    rcases only with ⟨-, rfl⟩ | ⟨-, rfl⟩
    · exact ⟨n, fits, r_balanced, r_black⟩
    · exact ⟨n, fits, l_balanced, l_black⟩
  · rintro (rfl : c = .black)
    obtain ⟨k, rfl, l_balanced, r_balanced⟩ := balanced
    rcases only with ⟨-, rfl⟩ | ⟨-, rfl⟩
    · exact ⟨k, fits, r_balanced⟩
    · exact ⟨k, fits, l_balanced⟩

theorem rbUnlink_double (holds : Holds m (plug context (.node c l x r)))
    (valid : (plug context (.node c l x r)).Valid) (left_root : l.root = some left)
    (right_root : r.root = some right) :
    ∃ u context' t, unlinkDouble x right m = some u ∧
      UnlinkedAt m ((plug context (.node c l x r)).toList.erase x) u context' t := by
  obtain ⟨low, d, s, r', rfl, lefts⟩ : ∃ low d s r', r = plug low (.node d .nil s r') ∧
      ∀ f ∈ low, f.side = .left := by
    cases r with
    | nil => exact absurd right_root nofun
    | node d l' y r' => exact exists_leftmost d l' y r'
  obtain ⟨m', unlinked, held⟩ := unlinkDouble_spec holds lefts left_root right_root
  -- the successor leaves a context that differs from the old one in one label
  have valid' : (plug (low ++ ⟨.right, c, x, l⟩ :: context) (.node d .nil s r')).Valid := by
    rw [plug_append]
    exact valid
  obtain ⟨n, fits, balanced, -⟩ := (valid_plug _ _).mp valid'
  have fits' := fits_relabel s fits
  refine ⟨_, _, r', unlinked, rfl, rfl, held, ?_, ?_⟩
  · rintro (rfl : d = .red)
    exact ⟨n, fits', balanced.2.2.2, balanced.2.1⟩
  · rintro (rfl : d = .black)
    obtain ⟨k, rfl, -, r_balanced⟩ := balanced
    exact ⟨k, fits', r_balanced⟩

theorem rbUnlink_spec (holds : Holds m t) (valid : t.Valid) (mem : x ∈ t.toList) :
    ∃ u context t', rbUnlink x m = some u ∧ UnlinkedAt m (t.toList.erase x) u context t' := by
  obtain ⟨context, c, l, r, rfl⟩ := exists_plug mem
  have node := (holds_plug.mp holds).1.2.2.1
  have right_x : m.child .right x = r.root := node.far
  cases left_root : l.root with
  | none =>
    have left_x : m.child .left x = none := node.near.trans left_root
    refine ⟨_, context, r, ?_, rbUnlink_single holds valid (Or.inl ⟨eq_nil_of_root left_root, rfl⟩)⟩
    simp [rbUnlink, left_x, right_x]
  | some left =>
    have left_x : m.child .left x = some left := node.near.trans left_root
    cases right_root : r.root with
    | none =>
      refine ⟨_, context, l, ?_, rbUnlink_single holds valid
        (Or.inr ⟨eq_nil_of_root right_root, rfl⟩)⟩
      simp [rbUnlink, left_x, right_x, right_root, left_root]
    | some right =>
      obtain ⟨u, context', t', unlinked, unlinked_at⟩ :=
        rbUnlink_double holds valid left_root right_root
      refine ⟨u, context', t', ?_, unlinked_at⟩
      simp [rbUnlink, left_x, right_x, right_root, unlinked]

/-- **`rb_erase`** takes any node out of a valid tree: the tree is valid again, with
the other nodes in the same order. -/
theorem rbErase_spec (holds : Holds m t) (valid : t.Valid) (mem : x ∈ t.toList) :
    ∃ m' t', rbErase x m = some m' ∧ t'.Valid ∧ HoldsInOrder m m' (t.toList.erase x) t' := by
  obtain ⟨⟨child, parent, color, m₁⟩, context, t', unlinked, child_eq, parent_eq, held, red,
    black⟩ := rbUnlink_spec holds valid mem
  obtain rfl : child = t'.root := child_eq
  obtain rfl : parent = holder none context := parent_eq
  cases color with
  | red =>
    obtain ⟨n, fits, balanced, t_black⟩ := red rfl
    refine ⟨m₁, plug context t', ?_, (valid_plug _ _).mpr ⟨n, fits, balanced, fun _ => t_black⟩,
      held⟩
    simp [rbErase, unlinked]
  | black =>
    obtain ⟨n, fits, balanced⟩ := black rfl
    obtain ⟨m', t'', erased, valid', held'⟩ :=
      rbEraseColor_spec ⟨held, n, short_of_balanced balanced, fits⟩
    refine ⟨m', t'', ?_, valid', held'⟩
    simp [rbErase, unlinked, erased]

end EduOS
