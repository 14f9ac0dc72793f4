import EduOS.Lib.Rbtree

/-!
# The tree in memory

What the nodes in memory stand for.  `Holds m t` says that the root pointer and the
fields of the nodes spell out the coloured tree `t`: every node of `t` has its
colour, points to its two children, and points back to its parent.  No node occurs
twice in `t`.

The packed parent word is seen through `rbParent` and `rbColor` from here on.  A
tree is cut at a subtree by `stored_plug`: the *spine* above it, whose nodes point
down to the subtree and up to each other, and the subtree below.  `rbRotate_spec`
is the one fact about rotations.
-/

namespace EduOS

open Tree

/-! ## Colour and parent in one word -/

theorem nodeWord_low (p : Option RbNode) : nodeWord p &&& 3#32 = 0#32 := by
  cases p with
  | none => rfl
  | some x => exact x.2.2

theorem nodeWord_bit (p : Option RbNode) : nodeWord p &&& 1#32 = 0#32 := by
  have mask : (1#32) = 3#32 &&& 1#32 := rfl
  rw [mask, ← BitVec.and_assoc, nodeWord_low]
  rfl

theorem nodeWord_high (p : Option RbNode) : nodeWord p &&& ~~~3#32 = nodeWord p := by
  have low := nodeWord_low p
  ext i below
  have bit := congrArg (fun word : BitVec 32 => word.getLsbD i) low
  simp only [BitVec.getLsbD_and, BitVec.getLsbD_zero] at bit
  rw [← BitVec.getLsbD_eq_getElem, ← BitVec.getLsbD_eq_getElem, BitVec.getLsbD_and,
    BitVec.getLsbD_not]
  cases masked : (3#32).getLsbD i <;> simp_all

variable {word : BitVec 32} {side : Side} {near far t a b e : Tree RbNode} {m' : RbMemory}
    {top : Option RbNode} {context : List (Frame RbNode)}

theorem wordNode_of_high {p : Option RbNode} (high : word &&& ~~~3#32 = nodeWord p) :
    wordNode word = p := by
  unfold wordNode
  cases p with
  | none => exact dif_pos high
  | some x =>
    rw [dif_neg (by rw [high]; exact x.2.1)]
    exact congrArg some (Subtype.ext high)

theorem wordNode_congr {other : BitVec 32} (high : word &&& ~~~3#32 = other &&& ~~~3#32) :
    wordNode word = wordNode other := by
  unfold wordNode
  simp only [high]

/-! ## The fields after a write -/

section

variable (m : RbMemory) (x y : RbNode) (p : Option RbNode) (c : Colour)

theorem rbParent_setWord (word : BitVec 32) :
    rbParent (setWord m x word) y = if y = x then wordNode word else rbParent m y := by
  by_cases same : y = x
  · simp [rbParent, setWord, same]
  · simp [rbParent, setWord, same]

theorem rbColor_setWord (word : BitVec 32) :
    rbColor (setWord m x word) y =
      if y = x then (if word &&& 1#32 = 0#32 then .red else .black) else rbColor m y := by
  by_cases same : y = x
  · simp [rbColor, setWord, same]
  · simp [rbColor, setWord, same]

@[simp] theorem child_setWord (word : BitVec 32) : (setWord m x word).child = m.child := rfl

@[simp] theorem root_setWord (word : BitVec 32) : (setWord m x word).root = m.root := rfl

@[simp] theorem rbParent_rbSetRed : rbParent (rbSetRed m x) y = rbParent m y := by
  unfold rbSetRed
  rw [rbParent_setWord]
  split
  · rename_i same
    rw [same]
    exact wordNode_congr (by rw [BitVec.and_assoc]; rfl)
  · rfl

@[simp] theorem rbColor_rbSetRed :
    rbColor (rbSetRed m x) y = if y = x then .red else rbColor m y := by
  have bit : m.parentColor x &&& ~~~1#32 &&& 1#32 = 0#32 := by
    rw [BitVec.and_assoc]
    simp
  rw [rbSetRed, rbColor_setWord, if_pos bit]

@[simp] theorem rbParent_rbSetBlack : rbParent (rbSetBlack m x) y = rbParent m y := by
  unfold rbSetBlack
  rw [rbParent_setWord]
  split
  · rename_i same
    rw [same]
    exact wordNode_congr (by rw [BitVec.and_or_distrib_right]; simp)
  · rfl

@[simp] theorem rbColor_rbSetBlack :
    rbColor (rbSetBlack m x) y = if y = x then .black else rbColor m y := by
  have bit : (m.parentColor x ||| 1#32) &&& 1#32 ≠ 0#32 := by
    have one : (m.parentColor x ||| 1#32) &&& 1#32 = 1#32 := by
      rw [BitVec.and_or_distrib_right]
      ext i below
      simp
    rw [one]
    decide
  rw [rbSetBlack, rbColor_setWord, if_neg bit]

@[simp] theorem rbParent_rbSetParent :
    rbParent (rbSetParent m x p) y = if y = x then p else rbParent m y := by
  have decoded : wordNode (m.parentColor x &&& 3#32 ||| nodeWord p) = p :=
    wordNode_of_high (by rw [BitVec.and_or_distrib_right, BitVec.and_assoc, nodeWord_high]; simp)
  rw [rbSetParent, rbParent_setWord, decoded]

@[simp] theorem rbColor_rbSetParent : rbColor (rbSetParent m x p) y = rbColor m y := by
  have bit : (m.parentColor x &&& 3#32 ||| nodeWord p) &&& 1#32 = m.parentColor x &&& 1#32 := by
    rw [BitVec.and_or_distrib_right, BitVec.and_assoc, nodeWord_bit]
    simp
  rw [rbSetParent, rbColor_setWord, bit]
  split
  · rename_i same
    rw [same]
    rfl
  · rfl

@[simp] theorem rbParent_rbSetParentColor :
    rbParent (rbSetParentColor m x p c) y = if y = x then p else rbParent m y := by
  have decoded : wordNode (nodeWord p ||| colorWord c) = p := by
    refine wordNode_of_high ?_
    rw [BitVec.and_or_distrib_right, nodeWord_high]
    cases c <;> simp [colorWord]
  rw [rbSetParentColor, rbParent_setWord, decoded]

@[simp] theorem rbColor_rbSetParentColor :
    rbColor (rbSetParentColor m x p c) y = if y = x then c else rbColor m y := by
  rw [rbSetParentColor, rbColor_setWord, BitVec.and_or_distrib_right, nodeWord_bit]
  cases c <;> simp [colorWord]

@[simp] theorem child_rbSetRed : (rbSetRed m x).child = m.child := rfl

@[simp] theorem child_rbSetBlack : (rbSetBlack m x).child = m.child := rfl

@[simp] theorem child_rbSetParent : (rbSetParent m x p).child = m.child := rfl

@[simp] theorem child_rbSetParentColor : (rbSetParentColor m x p c).child = m.child := rfl

@[simp] theorem root_rbSetRed : (rbSetRed m x).root = m.root := rfl

@[simp] theorem root_rbSetBlack : (rbSetBlack m x).root = m.root := rfl

@[simp] theorem root_rbSetParent : (rbSetParent m x p).root = m.root := rfl

@[simp] theorem root_rbSetParentColor : (rbSetParentColor m x p c).root = m.root := rfl

@[simp] theorem rbParent_setChild (side : Side) : rbParent (setChild m side x p) y = rbParent m y :=
  rfl

@[simp] theorem rbColor_setChild (side : Side) : rbColor (setChild m side x p) y = rbColor m y :=
  rfl

@[simp] theorem root_setChild (side : Side) : (setChild m side x p).root = m.root := rfl

@[simp] theorem child_setChild (side at_side : Side) :
    (setChild m side x p).child at_side y =
      if at_side = side ∧ y = x then p else m.child at_side y := by
  by_cases same_side : at_side = side
  · subst same_side
    by_cases same : y = x
    · simp [setChild, same]
    · simp [setChild, same]
  · simp [setChild, same_side]

@[simp] theorem rbParent_rbSetParentOf (node : Option RbNode) :
    rbParent (rbSetParentOf m node p) y = if node = some y then p else rbParent m y := by
  cases node with
  | none => rfl
  | some z =>
    simp [rbSetParentOf, rbParent_rbSetParent, eq_comm]

@[simp] theorem rbColor_rbSetParentOf (node : Option RbNode) :
    rbColor (rbSetParentOf m node p) y = rbColor m y := by
  cases node with
  | none => rfl
  | some z => exact rbColor_rbSetParent m z y p

@[simp] theorem child_rbSetParentOf (node : Option RbNode) :
    (rbSetParentOf m node p).child = m.child := by
  cases node <;> rfl

@[simp] theorem root_rbSetParentOf (node : Option RbNode) :
    (rbSetParentOf m node p).root = m.root := by
  cases node <;> rfl

end

/-! ## Trees in memory -/

/-- The fields of one node, its children seen from `side`. -/
structure NodeAt (m : RbMemory) (x : RbNode) (c : Colour) (parent : Option RbNode)
    (side : Side) (near far : Option RbNode) : Prop where
  color : rbColor m x = c
  parent : rbParent m x = parent
  near : m.child side x = near
  far : m.child side.flip x = far

variable {m : RbMemory} {x : RbNode} {c : Colour}

variable {parent focus : Option RbNode} {t' : Tree RbNode} {m₁ m₂ m₃ : RbMemory} {at_side : Side}

theorem NodeAt.flip {near far : Option RbNode} (node : NodeAt m x c parent side near far) :
    NodeAt m x c parent side.flip far near :=
  ⟨node.color, node.parent, node.far, by rw [Side.flip_flip]; exact node.near⟩

/-- The fields of the nodes of `t` spell out `t`, below `parent`. -/
def Subtree (m : RbMemory) (parent : Option RbNode) : Tree RbNode → Prop
  | .nil => True
  | .node c l x r =>
    NodeAt m x c parent .left l.root r.root ∧ Subtree m (some x) l ∧ Subtree m (some x) r

/-- The memory holds the tree `t`. -/
structure Holds (m : RbMemory) (t : Tree RbNode) : Prop where
  root : m.root = t.root
  stored : Subtree m none t
  nodup : t.toList.Nodup

theorem stored_branch :
    Subtree m parent (Tree.branch side c near x far) ↔
      NodeAt m x c parent side near.root far.root ∧
        Subtree m (some x) near ∧ Subtree m (some x) far := by
  cases side with
  | left => rfl
  | right =>
    constructor
    · rintro ⟨node, far, near⟩
      exact ⟨node.flip, near, far⟩
    · rintro ⟨node, near, far⟩
      exact ⟨node.flip, far, near⟩

/-- The fields of the nodes determine the tree below a node. -/
theorem Subtree.unique
    (stored : Subtree m parent t) (stored' : Subtree m parent t') (root : t.root = t'.root) :
    t = t' := by
  induction t generalizing parent t' with
  | nil => exact (eq_nil_of_root root.symm).symm
  | node c l x r ihl ihr =>
    cases t' with
    | nil => cases root
    | node c' l' x' r' =>
      obtain rfl : x = x' := Option.some.inj root
      obtain ⟨node, left, right⟩ := stored
      obtain ⟨node', left', right'⟩ := stored'
      rw [ihl left left' (node.near.symm.trans node'.near),
        ihr right right' (node.far.symm.trans node'.far), ← node.color, ← node'.color]

theorem Holds.unique (holds : Holds m t) (holds' : Holds m t') : t = t' :=
  holds.stored.unique holds'.stored (holds.root.symm.trans holds'.root)

/-- Two memories agree on a node. -/
structure SameAt (m m' : RbMemory) (x : RbNode) : Prop where
  word : m'.parentColor x = m.parentColor x
  child : ∀ side, m'.child side x = m.child side x

theorem SameAt.refl (m : RbMemory) (x : RbNode) : SameAt m m x := ⟨rfl, fun _ => rfl⟩

theorem SameAt.trans (first : SameAt m₁ m₂ x) (second : SameAt m₂ m₃ x) : SameAt m₁ m₃ x :=
  ⟨second.word.trans first.word, fun side => (second.child side).trans (first.child side)⟩

theorem SameAt.color (same : SameAt m m' x) : rbColor m' x = rbColor m x := by
  unfold rbColor
  rw [same.word]

theorem SameAt.parent_eq (same : SameAt m m' x) : rbParent m' x = rbParent m x := by
  unfold rbParent
  rw [same.word]

theorem sameAt_setWord {y : RbNode} (ne : y ≠ x) : SameAt m (setWord m x word) y :=
  ⟨Function.update_of_ne ne _ _, fun _ => rfl⟩

theorem sameAt_setChild {y : RbNode} {new : Option RbNode} (ne : y ≠ x) :
    SameAt m (setChild m side x new) y :=
  ⟨rfl, fun at_side => by rw [child_setChild, if_neg fun both => ne both.2]⟩

theorem sameAt_rbSetParentOf {node p : Option RbNode} {y : RbNode}
    (ne : node ≠ some y) : SameAt m (rbSetParentOf m node p) y := by
  cases node with
  | none => exact SameAt.refl m y
  | some x => exact sameAt_setWord fun same => ne (congrArg some same.symm)

theorem NodeAt.of_same
    {near far : Option RbNode} (node : NodeAt m x c parent side near far) (same : SameAt m m' x) :
    NodeAt m' x c parent side near far :=
  ⟨same.color.trans node.color, same.parent_eq.trans node.parent,
    (same.child side).trans node.near, (same.child side.flip).trans node.far⟩

/-- A stored tree depends on its own nodes only. -/
theorem Subtree.frame (stored : Subtree m parent t)
    (same : ∀ x ∈ t.toList, SameAt m m' x) : Subtree m' parent t := by
  induction t generalizing parent with
  | nil => trivial
  | node c l x r ihl ihr =>
    obtain ⟨node, left, right⟩ := stored
    simp only [Tree.toList, List.mem_append, List.mem_cons] at same
    exact ⟨node.of_same (same x (by simp)), ihl left fun y mem => same y (by simp [mem]),
      ihr right fun y mem => same y (by simp [mem])⟩

/-- A stored tree is moved to another parent by the parent field of its root. -/
theorem Subtree.reparent {parent' : Option RbNode}
    (stored : Subtree m parent t) (nodup : t.toList.Nodup)
    (same : ∀ x ∈ t.toList, t.root ≠ some x → SameAt m m' x)
    (top : ∀ x, t.root = some x → rbParent m' x = parent' ∧ rbColor m' x = rbColor m x ∧
      ∀ side, m'.child side x = m.child side x) : Subtree m' parent' t := by
  cases t with
  | nil => trivial
  | node c l x r =>
    obtain ⟨node, left, right⟩ := stored
    obtain ⟨⟨x_left, x_right⟩, -, -⟩ := nodup_node.mp nodup
    obtain ⟨parent_eq, color_eq, child_eq⟩ := top x rfl
    have below : ∀ y, y ∈ l.toList ∨ y ∈ r.toList → SameAt m m' y := by
      intro y mem
      refine same y ?_ ?_
      · simp only [Tree.toList, List.mem_append, List.mem_cons]
        tauto
      · rintro top_eq
        obtain rfl : x = y := Option.some.inj top_eq
        exact mem.elim x_left x_right
    refine ⟨⟨color_eq.trans node.color, parent_eq, (child_eq _).trans node.near,
      (child_eq _).trans node.far⟩, ?_, ?_⟩
    · exact left.frame fun y mem => below y (Or.inl mem)
    · exact right.frame fun y mem => below y (Or.inr mem)

/-! ## The spine over a subtree -/

/-- The nodes of a context, with `focus` in its hole and `top` over it. -/
def Spine (m : RbMemory) (top : Option RbNode) : List (Frame RbNode) → Option RbNode → Prop
  | [], _ => True
  | f :: up, focus =>
    NodeAt m f.label f.colour (holder top up) f.side focus f.sibling.root ∧
      Subtree m (some f.label) f.sibling ∧ Spine m top up (some f.label)

/-- A stored tree, cut at a subtree. -/
theorem stored_plug :
    Subtree m top (plug context t) ↔
      Spine m top context t.root ∧ Subtree m (holder top context) t := by
  induction context generalizing t with
  | nil => exact ⟨fun stored => ⟨trivial, stored⟩, fun both => both.2⟩
  | cons f up ih =>
    rw [plug_cons, ih, Frame.fill, root_branch, stored_branch]
    simp only [Spine, holder]
    tauto

theorem Spine.frame (spine : Spine m top context focus)
    (same : ∀ x ∈ labels context, SameAt m m' x) : Spine m' top context focus := by
  induction context generalizing focus with
  | nil => trivial
  | cons f up ih =>
    obtain ⟨node, sibling, spine⟩ := spine
    simp only [mem_labels_cons] at same
    exact ⟨node.of_same (same _ (Or.inl rfl)),
      sibling.frame fun x mem => same x (Or.inr (Or.inl mem)),
      ih spine fun x mem => same x (Or.inr (Or.inr mem))⟩

/-- Another subtree is put below a spine: only the node that the hole hangs from
changes. -/
theorem Spine.refocus {focus' : Option RbNode} {f : Frame RbNode} {up : List (Frame RbNode)}
    (spine : Spine m top (f :: up) focus) (nodup : (labels (f :: up)).Nodup)
    (node : NodeAt m' f.label f.colour (holder top up) f.side focus' f.sibling.root)
    (same : ∀ x, x ≠ f.label → x ∈ labels (f :: up) → SameAt m m' x) :
    Spine m' top (f :: up) focus' := by
  obtain ⟨-, sibling, spine⟩ := spine
  obtain ⟨⟨apart, apart_up⟩, -⟩ := nodup_labels_cons.mp nodup
  refine ⟨node, sibling.frame fun x mem => ?_, spine.frame fun x mem => ?_⟩
  · exact same x (fun eq => apart (eq ▸ mem)) (mem_labels_cons.mpr (Or.inr (Or.inl mem)))
  · exact same x (fun eq => apart_up (eq ▸ mem)) (mem_labels_cons.mpr (Or.inr (Or.inr mem)))

/-- The memory at a subtree: spine, subtree, root pointer, and no node twice. -/
theorem holds_plug :
    Holds m (plug context t) ↔
      (m.root = topmost context t.root ∧ Spine m none context t.root ∧
        Subtree m (holder none context) t) ∧
      t.toList.Nodup ∧ (labels context).Nodup ∧ List.Disjoint t.toList (labels context) := by
  constructor
  · rintro ⟨root, stored, nodup⟩
    rw [root_plug] at root
    exact ⟨⟨root, stored_plug.mp stored⟩, nodup_plug.mp nodup⟩
  · rintro ⟨⟨root, stored⟩, nodup⟩
    refine ⟨?_, stored_plug.mpr stored, nodup_plug.mpr nodup⟩
    rw [root_plug]
    exact root

theorem Holds.frame (holds : Holds m t) (root : m'.root = m.root)
    (same : ∀ x ∈ t.toList, SameAt m m' x) : Holds m' t :=
  ⟨root.trans holds.root, holds.stored.frame same, holds.nodup⟩

/-- The node at the root of a subtree, and the two subtrees below it. -/
theorem Holds.branch (holds : Holds m (plug context (Tree.branch side c near x far))) :
    NodeAt m x c (holder none context) side near.root far.root ∧
      Subtree m (some x) near ∧ Subtree m (some x) far :=
  stored_branch.mp (holds_plug.mp holds).1.2.2

theorem Holds.node (holds : Holds m (plug context (Tree.branch side c near x far))) :
    NodeAt m x c (holder none context) side near.root far.root :=
  holds.branch.1

/-- The same one level further down. -/
theorem Holds.branch_near {d : Colour} {p : RbNode} (holds : Holds m
      (plug context (Tree.branch at_side d (Tree.branch side c near x far) p t))) :
    NodeAt m x c (some p) side near.root far.root ∧
      Subtree m (some x) near ∧ Subtree m (some x) far := by
  rw [plug_near] at holds
  exact holds.branch

theorem Holds.branch_far {d : Colour} {p : RbNode} (holds : Holds m
      (plug context (Tree.branch at_side d t p (Tree.branch side c near x far)))) :
    NodeAt m x c (some p) side near.root far.root ∧
      Subtree m (some x) near ∧ Subtree m (some x) far := by
  rw [plug_far] at holds
  exact holds.branch

/-- The memories differ at most on nodes of `nodes`. -/
def Outside (m m' : RbMemory) (nodes : List RbNode) : Prop := ∀ x, x ∉ nodes → SameAt m m' x

theorem Outside.refl (m : RbMemory) (nodes : List RbNode) : Outside m m nodes :=
  fun x _ => SameAt.refl m x

theorem Outside.trans {nodes : List RbNode} (first : Outside m₁ m₂ nodes)
    (second : Outside m₂ m₃ nodes) : Outside m₁ m₃ nodes :=
  fun x notMem => (first x notMem).trans (second x notMem)

/-- What `replaceChild` does to the spine that `old` hangs from. -/
theorem replaceChild_spec {old : RbNode} (side : Side) (new : Option RbNode)
    (root : m.root = topmost context (some old)) (spine : Spine m none context (some old))
    (nodup : (labels context).Nodup) (apart : old ∉ labels context) :
    let m' := replaceChild m side (holder none context) old new
    m'.root = topmost context new ∧ Spine m' none context new ∧
      m'.parentColor = m.parentColor ∧ ∀ x, x ∉ labels context → SameAt m m' x := by
  cases context with
  | nil => exact ⟨rfl, trivial, rfl, fun x _ => ⟨rfl, fun _ => rfl⟩⟩
  | cons f up =>
    obtain ⟨node, sibling, spine_up⟩ := spine
    have written : replaceChild m side (holder none (f :: up)) old new =
        setChild m f.side f.label new := by
      show (if m.child side f.label = some old then setChild m side f.label new
        else setChild m side.flip f.label new) = _
      by_cases same_side : side = f.side
      · subst same_side
        rw [if_pos node.near]
      obtain rfl : side = f.side.flip := Side.eq_flip_of_ne same_side
      rw [if_neg, Side.flip_flip]
      intro sibling_old
      refine apart (mem_labels_cons.mpr (Or.inr (Or.inl ?_)))
      exact root_mem (node.far.symm.trans sibling_old)
    have node' : NodeAt (setChild m f.side f.label new) f.label f.colour (holder none up) f.side
        new f.sibling.root :=
      ⟨node.color, node.parent, by simp, by simpa using node.far⟩
    simp only [written]
    refine ⟨root, Spine.refocus ⟨node, sibling, spine_up⟩ nodup node' ?_, rfl, ?_⟩
    · exact fun x ne _ => sameAt_setChild ne
    · intro x notMem
      exact sameAt_setChild fun eq => notMem (mem_labels_cons.mpr (Or.inl eq))

/-! ## Recolouring -/

/-- A memory that differs from `m` in the colour of `x` only. -/
structure Recoloured (m m' : RbMemory) (x : RbNode) (c : Colour) : Prop where
  root : m'.root = m.root
  color : rbColor m' x = c
  parent : rbParent m' x = rbParent m x
  child : m'.child = m.child
  same : ∀ y, y ≠ x → SameAt m m' y

theorem recoloured_rbSetRed (m : RbMemory) (x : RbNode) : Recoloured m (rbSetRed m x) x .red :=
  ⟨rfl, by simp, by simp, rfl, fun _ ne => sameAt_setWord ne⟩

theorem recoloured_rbSetBlack (m : RbMemory) (x : RbNode) :
    Recoloured m (rbSetBlack m x) x .black :=
  ⟨rfl, by simp, by simp, rfl, fun _ ne => sameAt_setWord ne⟩

theorem Recoloured.outside {nodes : List RbNode}
    (recoloured : Recoloured m m' x c) (mem : x ∈ nodes) : Outside m m' nodes :=
  fun y notMem => recoloured.same y fun eq => notMem (eq ▸ mem)

theorem Holds.recolour {c' : Colour}
    (holds : Holds m (plug context (Tree.branch side c near x far)))
    (recoloured : Recoloured m m' x c') :
    Holds m' (plug context (Tree.branch side c' near x far)) := by
  obtain ⟨⟨root, spine, stored⟩, nodup, nodup_up, apart⟩ := holds_plug.mp holds
  obtain ⟨node, stored_near, stored_far⟩ := stored_branch.mp stored
  obtain ⟨⟨x_near, x_far⟩, -⟩ := nodup_branch.mp nodup
  have x_labels : x ∉ labels context := apart (mem_branch.mpr (Or.inl rfl))
  rw [root_branch] at root spine
  rw [toList_recolour c c'] at nodup apart
  refine holds_plug.mpr ⟨⟨?_, ?_, stored_branch.mpr ⟨?_, ?_, ?_⟩⟩, nodup, nodup_up, apart⟩
  · rw [root_branch]
    exact recoloured.root.trans root
  · rw [root_branch]
    exact spine.frame fun y mem => recoloured.same y fun eq => x_labels (eq ▸ mem)
  · refine ⟨recoloured.color, recoloured.parent.trans node.parent, ?_, ?_⟩
    · rw [recoloured.child]
      exact node.near
    · rw [recoloured.child]
      exact node.far
  · exact stored_near.frame fun y mem => recoloured.same y fun eq => x_near (eq ▸ mem)
  · exact stored_far.frame fun y mem => recoloured.same y fun eq => x_far (eq ▸ mem)

/-! ## Rotations -/

/-- The state before a rotation towards `side` at `x`, whose child `y` on the other
side moves up.  The parent field of `y` is not looked at. -/
structure Rotatable (m : RbMemory) (side : Side) (context : List (Frame RbNode))
    (a : Tree RbNode) (x : RbNode) (b : Tree RbNode) (y : RbNode) (e : Tree RbNode) : Prop where
  root : m.root = topmost context (some x)
  spine : Spine m none context (some x)
  parent : rbParent m x = holder none context
  near : m.child side x = a.root
  far : m.child side.flip x = some y
  inner : m.child side y = b.root
  outer : m.child side.flip y = e.root
  stored_near : Subtree m (some x) a
  stored_inner : Subtree m (some y) b
  stored_outer : Subtree m (some y) e
  nodup : (plug context (Tree.branch side .red a x (Tree.branch side .red b y e))).toList.Nodup

/-- **A rotation** rotates the tree and keeps the colours; it touches nodes of the
tree only. -/
theorem rbRotate_spec {y : RbNode} (before : Rotatable m side context a x b y e) :
    ∃ m', rbRotate side x m = some m' ∧
      Holds m' (plug context (Tree.branch side (rbColor m y)
        (Tree.branch side (rbColor m x) a x b) y e)) ∧
      Outside m m' (plug context (Tree.branch side .red a x (Tree.branch side .red b y e))).toList
      := by
  obtain ⟨nodup, nodup_up, apart⟩ := nodup_plug.mp before.nodup
  obtain ⟨⟨x_a, x_far⟩, ⟨nodup_a, nodup_far⟩, a_far⟩ := nodup_branch.mp nodup
  obtain ⟨⟨y_b, y_e⟩, ⟨nodup_b, nodup_e⟩, b_e⟩ := nodup_branch.mp nodup_far
  simp only [mem_branch, not_or] at x_far
  obtain ⟨x_y, x_b, x_e⟩ := x_far
  simp only [List.Disjoint, mem_branch] at a_far apart
  have root_b : ∀ z, b.root = some z → z ∈ b.toList := fun z => root_mem
  -- the memory before the pointer to `x` is replaced
  let m₄ := rbSetParent (setChild (rbSetParentOf (setChild m side.flip x b.root) b.root (some x))
    side y (some x)) y (holder none context)
  have same₄ : ∀ z, z ≠ x → z ≠ y → z ∉ b.toList → SameAt m m₄ z := by
    intro z ne_x ne_y z_b
    refine (sameAt_setChild ne_x).trans ((sameAt_rbSetParentOf ?_).trans
      ((sameAt_setChild ne_y).trans (sameAt_setWord ne_y)))
    exact fun root => z_b (root_b z root)
  have spine₄ : Spine m₄ none context (some x) := by
    refine before.spine.frame fun z mem => same₄ z ?_ ?_ ?_
    · exact fun eq => apart (Or.inl eq) mem
    · exact fun eq => apart (Or.inr (Or.inr (Or.inl eq))) mem
    · exact fun inner => apart (Or.inr (Or.inr (Or.inr (Or.inl inner)))) mem
  have x_labels : x ∉ labels context := apart (Or.inl rfl)
  have y_labels : y ∉ labels context := apart (Or.inr (Or.inr (Or.inl rfl)))
  have root₄ : m₄.root = topmost context (some x) := by simpa [m₄] using before.root
  obtain ⟨root₅, spine₅, -, same₅⟩ :=
    replaceChild_spec side (some y) root₄ spine₄ nodup_up x_labels
  set m₅ := replaceChild m₄ side (holder none context) x (some y)
  let m₆ := rbSetParent m₅ x (some y)
  have rotated : rbRotate side x m = some m₆ := by
    simp only [rbRotate, before.far, before.inner, before.parent]
    rfl
  have same : ∀ z, z ∉ labels context → z ≠ x → z ≠ y → z ∉ b.toList → SameAt m m₆ z :=
    fun z z_labels ne_x ne_y z_b =>
      (same₄ z ne_x ne_y z_b).trans ((same₅ z z_labels).trans (sameAt_setWord ne_x))
  have same_y : SameAt m₄ m₆ y := (same₅ y y_labels).trans (sameAt_setWord (Ne.symm x_y))
  have node_y : NodeAt m₆ y (rbColor m y) (holder none context) side (some x) e.root := by
    refine ⟨same_y.color.trans ?_, same_y.parent_eq.trans ?_, (same_y.child _).trans ?_,
      (same_y.child _).trans ?_⟩
    · simp [m₄]
    · simp [m₄]
    · simp [m₄]
    · simpa [m₄, Ne.symm x_y] using before.outer
  have node_x : NodeAt m₆ x (rbColor m x) (some y) side a.root b.root := by
    have same_x := same₅ x x_labels
    refine ⟨?_, by simp [m₆], (same_x.child _).trans ?_, (same_x.child _).trans ?_⟩
    · simp only [m₆, rbColor_rbSetParent]
      exact same_x.color.trans (by simp [m₄])
    · simpa [m₄, x_y] using before.near
    · simp [m₄]
  refine ⟨m₆, rotated, holds_plug.mpr ⟨⟨?_, ?_, stored_branch.mpr ⟨?_, stored_branch.mpr
    ⟨?_, ?_, ?_⟩, ?_⟩⟩, ?_, nodup_up, ?_⟩, ?_⟩
  · rw [root_branch]
    exact root₅
  · rw [root_branch]
    exact spine₅.frame fun z mem => sameAt_setWord fun eq => x_labels (eq ▸ mem)
  · rw [root_branch]
    exact node_y
  · exact node_x
  · refine before.stored_near.frame fun z mem => same z ?_ ?_ ?_ ?_
    · exact apart (Or.inr (Or.inl mem))
    · exact fun eq => x_a (eq ▸ mem)
    · exact fun eq => a_far mem (Or.inl eq)
    · exact fun inner => a_far mem (Or.inr (Or.inl inner))
  · have inner : ∀ z ∈ b.toList, z ≠ x ∧ z ≠ y ∧ z ∉ labels context := fun z mem =>
      ⟨fun eq => x_b (eq ▸ mem), fun eq => y_b (eq ▸ mem),
        apart (Or.inr (Or.inr (Or.inr (Or.inl mem))))⟩
    refine before.stored_inner.reparent nodup_b ?_ ?_
    · intro z mem ne_root
      obtain ⟨ne_x, ne_y, z_labels⟩ := inner z mem
      exact ((sameAt_setChild ne_x).trans ((sameAt_rbSetParentOf ne_root).trans
        ((sameAt_setChild ne_y).trans (sameAt_setWord ne_y)))).trans
          ((same₅ z z_labels).trans (sameAt_setWord ne_x))
    · intro z root
      obtain ⟨ne_x, ne_y, z_labels⟩ := inner z (root_b z root)
      have same_z : SameAt m₄ m₆ z := (same₅ z z_labels).trans (sameAt_setWord ne_x)
      refine ⟨same_z.parent_eq.trans ?_, same_z.color.trans ?_, fun at_side =>
        (same_z.child at_side).trans ?_⟩
      · simp [m₄, ne_y, root]
      · simp [m₄]
      · simp [m₄, ne_x, ne_y]
  · refine before.stored_outer.frame fun z mem => same z ?_ ?_ ?_ ?_
    · exact apart (Or.inr (Or.inr (Or.inr (Or.inr mem))))
    · exact fun eq => x_e (eq ▸ mem)
    · exact fun eq => y_e (eq ▸ mem)
    · exact fun inner => b_e inner mem
  · rw [← toList_rotate a x b y e .red .red]
    exact nodup
  · rw [← toList_rotate a x b y e .red .red]
    exact (nodup_plug.mp before.nodup).2.2
  · intro z notMem
    simp only [mem_plug, mem_branch, not_or] at notMem
    obtain ⟨⟨ne_x, -, ne_y, z_b, -⟩, z_labels⟩ := notMem
    exact same z z_labels ne_x ne_y z_b

theorem Holds.rotatable {d : Colour} {y : RbNode}
    (holds : Holds m (plug context (Tree.branch side c a x (Tree.branch side d b y e)))) :
    Rotatable m side context a x b y e := by
  obtain ⟨⟨root, spine, stored⟩, nodup, nodup_up, apart⟩ := holds_plug.mp holds
  obtain ⟨node_x, stored_a, stored_y⟩ := stored_branch.mp stored
  obtain ⟨node_y, stored_b, stored_e⟩ := stored_branch.mp stored_y
  rw [root_branch] at root spine
  rw [root_branch] at node_x
  have flat : (Tree.branch side c a x (Tree.branch side d b y e)).toList =
      (Tree.branch side .red a x (Tree.branch side .red b y e)).toList := by
    rw [toList_rotate a x b y e c d c d, toList_rotate a x b y e .red .red c d]
  rw [flat] at nodup apart
  exact ⟨root, spine, node_x.parent, node_x.near, node_x.far, node_y.near, node_y.far, stored_a,
    stored_b, stored_e, nodup_plug.mpr ⟨nodup, nodup_up, apart⟩⟩

theorem Holds.rotate {d : Colour} {y : RbNode}
    (holds : Holds m (plug context (Tree.branch side c a x (Tree.branch side d b y e)))) :
    ∃ m', rbRotate side x m = some m' ∧
      Holds m' (plug context (Tree.branch side d (Tree.branch side c a x b) y e)) ∧
      Outside m m' (plug context (Tree.branch side c a x (Tree.branch side d b y e))).toList := by
  obtain ⟨m', rotated, holds', same⟩ := rbRotate_spec holds.rotatable
  obtain ⟨⟨-, -, stored⟩, -⟩ := holds_plug.mp holds
  obtain ⟨node_x, -, stored_y⟩ := stored_branch.mp stored
  rw [node_x.color, (stored_branch.mp stored_y).1.color] at holds'
  refine ⟨m', rotated, holds', fun z notMem => same z fun mem => notMem ?_⟩
  simpa only [mem_plug, mem_branch] using mem

/-! ## The nodes in order -/

/-- The memory `m` holds `t`, whose nodes in order are `nodes`; it differs from `start` at most
on them. -/
structure HoldsInOrder (start m : RbMemory) (nodes : List RbNode) (t : Tree RbNode) : Prop where
  holds : Holds m t
  order : t.toList = nodes
  outside : Outside start m nodes

variable {start : RbMemory} {nodes : List RbNode} {c' d : Colour} {y : RbNode}

theorem HoldsInOrder.recolour
    (held : HoldsInOrder start m nodes (plug context (Tree.branch side c near x far)))
    (recoloured : Recoloured m m' x c') :
    HoldsInOrder start m' nodes (plug context (Tree.branch side c' near x far)) := by
  refine ⟨held.holds.recolour recoloured, ?_, held.outside.trans (recoloured.outside ?_)⟩
  · rw [← held.order, toList_plug, toList_plug, toList_recolour c' c]
  · rw [← held.order]
    simp

/-- Recolouring a child. -/
theorem HoldsInOrder.recolour_near (held : HoldsInOrder start m nodes
      (plug context (Tree.branch at_side d (Tree.branch side c near x far) y t)))
    (recoloured : Recoloured m m' x c') : HoldsInOrder start m' nodes
      (plug context (Tree.branch at_side d (Tree.branch side c' near x far) y t)) := by
  rw [plug_near] at held ⊢
  exact held.recolour recoloured

theorem HoldsInOrder.recolour_far (held : HoldsInOrder start m nodes
      (plug context (Tree.branch at_side d t y (Tree.branch side c near x far))))
    (recoloured : Recoloured m m' x c') : HoldsInOrder start m' nodes
      (plug context (Tree.branch at_side d t y (Tree.branch side c' near x far))) := by
  rw [plug_far] at held ⊢
  exact held.recolour recoloured

theorem HoldsInOrder.rotate (held : HoldsInOrder start m nodes
      (plug context (Tree.branch side c a x (Tree.branch side d b y e)))) :
    ∃ m', rbRotate side x m = some m' ∧
      HoldsInOrder start m' nodes
        (plug context (Tree.branch side d (Tree.branch side c a x b) y e)) := by
  obtain ⟨m', rotated, holds, outside⟩ := held.holds.rotate
  refine ⟨m', rotated, holds, ?_, held.outside.trans (held.order ▸ outside)⟩
  rw [← held.order, toList_plug, toList_plug, toList_rotate a x b y e c d d c]

end EduOS
