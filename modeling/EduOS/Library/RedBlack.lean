import Mathlib

/-!
# Coloured trees and their contexts

Binary trees with a colour at every node, the red-black balance, and *contexts*:
the way down from the root to a subtree, innermost frame first, as a rebalancing
loop climbs it.

* `Tree.branch side` builds a node from the child on `side` and the other one, so
  that an argument and its mirror image are one argument.
* `Tree.Balanced n t` says that no red node of `t` has a red child and that every
  path of `t` meets `n` black nodes; `Tree.Valid` adds the black root.
* `Fits n context` says that a subtree of black height `n` can stand in the hole of
  `context`.  `valid_plug` cuts the validity of a tree at any of its subtrees, and
  `toList_plug` its in-order sequence.
-/

namespace EduOS

open List

/-- The two children of a node. -/
inductive Side where
  | left
  | right
  deriving DecidableEq, Repr

/-- The other side. -/
def Side.flip : Side → Side
  | .left => .right
  | .right => .left

@[simp] theorem Side.flip_flip (side : Side) : side.flip.flip = side := by
  cases side <;> rfl

@[simp] theorem Side.flip_ne (side : Side) : side.flip ≠ side := by
  cases side <;> decide

@[simp] theorem Side.ne_flip (side : Side) : side ≠ side.flip := by
  cases side <;> decide

theorem Side.eq_flip_of_ne {side other : Side} (ne : other ≠ side) : other = side.flip := by
  cases side <;> cases other <;> simp_all [Side.flip]

inductive Colour where
  | red
  | black
  deriving DecidableEq, Repr

theorem Colour.eq_black_of_ne {c : Colour} (ne : c ≠ .red) : c = .black := by
  cases c with
  | red => exact absurd rfl ne
  | black => rfl

variable {α : Type*}

inductive Tree (α : Type*) where
  | nil
  | node (colour : Colour) (left : Tree α) (label : α) (right : Tree α)
  deriving DecidableEq

variable {t : Tree α}

namespace Tree

/-- The colour of the root; an empty tree counts as black. -/
def colour : Tree α → Colour
  | nil => .black
  | node c _ _ _ => c

/-- The label of the root. -/
def root : Tree α → Option α
  | nil => none
  | node _ _ x _ => some x

/-- The in-order sequence. -/
def toList : Tree α → List α
  | nil => []
  | node _ l x r => l.toList ++ x :: r.toList

/-- The node with `near` as its child on `side` and `far` as the other one. -/
def branch (side : Side) (c : Colour) (near : Tree α) (x : α) (far : Tree α) : Tree α :=
  match side with
  | .left => node c near x far
  | .right => node c far x near

/-- The same tree with a black root. -/
def blacken : Tree α → Tree α
  | nil => nil
  | node _ l x r => node .black l x r

/-- No red node has a red child, and every path from the root down meets `n` black
nodes. -/
def Balanced : ℕ → Tree α → Prop
  | n, nil => n = 0
  | n, node .red l _ r =>
    l.colour = .black ∧ r.colour = .black ∧ l.Balanced n ∧ r.Balanced n
  | n, node .black l _ r => ∃ k, n = k + 1 ∧ l.Balanced k ∧ r.Balanced k

/-- A red-black tree: balanced, with a black root. -/
def Valid (t : Tree α) : Prop := t.colour = .black ∧ ∃ n, t.Balanced n

/-! ## Nodes seen from a side -/

section

variable {side : Side} {c : Colour} {near far : Tree α} {x : α} {n : ℕ}

theorem branch_flip (side : Side) (c : Colour) (near : Tree α) (x : α) (far : Tree α) :
    branch side.flip c near x far = branch side c far x near := by
  cases side <;> rfl

@[simp] theorem colour_branch : (branch side c near x far).colour = c := by
  cases side <;> rfl

@[simp] theorem root_branch : (branch side c near x far).root = some x := by
  cases side <;> rfl

@[simp] theorem blacken_branch :
    (branch side c near x far).blacken = branch side .black near x far := by
  cases side <;> rfl

theorem toList_recolour (c d : Colour) :
    (branch side c near x far).toList = (branch side d near x far).toList := by
  cases side <;> rfl

@[simp] theorem mem_branch {y : α} :
    y ∈ (branch side c near x far).toList ↔ y = x ∨ y ∈ near.toList ∨ y ∈ far.toList := by
  cases side <;> simp only [branch, toList, mem_append, mem_cons] <;> tauto

theorem nodup_branch :
    (branch side c near x far).toList.Nodup ↔
      (x ∉ near.toList ∧ x ∉ far.toList) ∧
        (near.toList.Nodup ∧ far.toList.Nodup) ∧ List.Disjoint near.toList far.toList := by
  cases side
  · simp only [branch, toList, nodup_append', nodup_cons, disjoint_cons_right]
    tauto
  · simp only [branch, toList, nodup_append', nodup_cons, disjoint_cons_right]
    tauto

theorem mem_node {y : α} :
    y ∈ (node c near x far).toList ↔ y = x ∨ y ∈ near.toList ∨ y ∈ far.toList :=
  (mem_branch : y ∈ (branch .left c near x far).toList ↔ _)

theorem nodup_node :
    (node c near x far).toList.Nodup ↔
      (x ∉ near.toList ∧ x ∉ far.toList) ∧
        (near.toList.Nodup ∧ far.toList.Nodup) ∧ List.Disjoint near.toList far.toList :=
  (nodup_branch : (branch .left c near x far).toList.Nodup ↔ _)

@[simp] theorem balanced_red_branch :
    (branch side .red near x far).Balanced n ↔
      near.colour = .black ∧ far.colour = .black ∧ near.Balanced n ∧ far.Balanced n := by
  cases side
  · rfl
  · simp only [branch, Balanced]
    tauto

theorem balanced_black_branch :
    (branch side .black near x far).Balanced n ↔
      ∃ k, n = k + 1 ∧ near.Balanced k ∧ far.Balanced k := by
  cases side
  · rfl
  · simp [branch, Balanced, and_comm (a := far.Balanced _)]

@[simp] theorem balanced_black_branch_succ :
    (branch side .black near x far).Balanced (n + 1) ↔ near.Balanced n ∧ far.Balanced n := by
  rw [balanced_black_branch]
  constructor
  · rintro ⟨k, same, balanced⟩
    obtain rfl := Nat.succ.inj same
    exact balanced
  · exact fun balanced => ⟨n, rfl, balanced⟩

/-- A tree with a root is a node seen from either side. -/
theorem exists_branch (side : Side) {x : α} (rooted : t.root = some x) :
    ∃ near far, t = branch side t.colour near x far := by
  cases t with
  | nil => exact absurd rooted nofun
  | node c l y r =>
    cases rooted
    cases side with
    | left => exact ⟨l, r, rfl⟩
    | right => exact ⟨r, l, rfl⟩

theorem exists_red_branch (side : Side) {x : α} (rooted : t.root = some x) (red : t.colour = .red) :
    ∃ near far, t = branch side .red near x far := by
  rw [← red]
  exact exists_branch side rooted

theorem root_mem {x : α} (rooted : t.root = some x) : x ∈ t.toList := by
  obtain ⟨near, far, eq⟩ := exists_branch .left rooted
  rw [eq]
  exact mem_branch.mpr (Or.inl rfl)

/-- Rotating towards `side` does not change the in-order sequence. -/
theorem toList_rotate (a : Tree α) (x : α) (b : Tree α) (y : α) (e : Tree α) (c d c' d' : Colour) :
    (branch side c a x (branch side d b y e)).toList =
      (branch side c' (branch side d' a x b) y e).toList := by
  cases side <;> simp [branch, toList]

/-- The first node in order for `.left`, the last one for `.right`. -/
def edge (side : Side) (t : Tree α) : Option α :=
  match side with
  | .left => t.toList.head?
  | .right => t.toList.getLast?

theorem edge_branch : (branch side c near x far).edge side = (near.edge side).or (some x) := by
  cases side with
  | left => simp [edge, branch, toList]
  | right =>
    simp only [edge, branch, toList, getLast?_append, getLast?_cons]
    cases near.toList.getLast? <;> rfl

theorem edge_eq_none : t.edge side = none ↔ t.root = none := by
  cases t with
  | nil => cases side <;> simp [edge, toList, root]
  | node c l x r => cases side <;> simp [edge, toList, root]

theorem eq_nil_of_root (rootless : t.root = none) : t = nil := by
  cases t with
  | nil => rfl
  | node c l x r => exact absurd rootless nofun

end

/-- A red root of a balanced tree has black children: painting it black is enough
to make it valid. -/
theorem Balanced.blacken {n : ℕ} (balanced : t.Balanced n) : t.blacken.Valid := by
  cases t with
  | nil => exact ⟨rfl, n, balanced⟩
  | node c l x r =>
    cases c with
    | red => exact ⟨rfl, n + 1, n, rfl, balanced.2.2⟩
    | black => exact ⟨rfl, n, balanced⟩

theorem root_ne_none {n : ℕ} (balanced : t.Balanced (n + 1)) : ∃ x, t.root = some x := by
  cases t with
  | nil => exact absurd balanced (Nat.succ_ne_zero n)
  | node _ _ x _ => exact ⟨x, rfl⟩

theorem root_of_red (red : t.colour = .red) : ∃ x, t.root = some x := by
  cases t with
  | nil => exact absurd red nofun
  | node _ _ x _ => exact ⟨x, rfl⟩

end Tree

/-! ## Contexts -/

/-- One step of the way down: the node `label`, entered on `side`, with the subtree
on its other side. -/
structure Frame (α : Type*) where
  side : Side
  colour : Colour
  label : α
  sibling : Tree α

/-- The subtree at a frame, once `t` stands below it. -/
def Frame.fill (f : Frame α) (t : Tree α) : Tree α :=
  Tree.branch f.side f.colour t f.label f.sibling

/-- The tree with `t` in the hole of a context. -/
def plug : List (Frame α) → Tree α → Tree α
  | [], t => t
  | f :: up, t => plug up (f.fill t)

@[simp] theorem plug_nil (t : Tree α) : plug [] t = t := rfl

theorem plug_cons (f : Frame α) (up : List (Frame α)) (t : Tree α) :
    plug (f :: up) t = plug up (f.fill t) := rfl

theorem plug_near (up : List (Frame α)) (side : Side) (c : Colour) (near : Tree α) (x : α)
    (far : Tree α) :
    plug up (Tree.branch side c near x far) = plug (⟨side, c, x, far⟩ :: up) near := rfl

theorem plug_far (up : List (Frame α)) (side : Side) (c : Colour) (near : Tree α) (x : α)
    (far : Tree α) :
    plug up (Tree.branch side c near x far) = plug (⟨side.flip, c, x, near⟩ :: up) far := by
  rw [plug_cons, Frame.fill, Tree.branch_flip]

theorem plug_append (low up : List (Frame α)) (t : Tree α) :
    plug (low ++ up) t = plug up (plug low t) := by
  induction low generalizing t with
  | nil => rfl
  | cons f low ih => exact ih (f.fill t)

/-- What precedes the hole in the in-order sequence. -/
def before : List (Frame α) → List α
  | [] => []
  | f :: up =>
    match f.side with
    | .left => before up
    | .right => before up ++ f.sibling.toList ++ [f.label]

/-- What follows the hole in the in-order sequence. -/
def after : List (Frame α) → List α
  | [] => []
  | f :: up =>
    match f.side with
    | .left => f.label :: f.sibling.toList ++ after up
    | .right => after up

theorem toList_plug (context : List (Frame α)) (t : Tree α) :
    (plug context t).toList = before context ++ t.toList ++ after context := by
  induction context generalizing t with
  | nil => simp [before, after]
  | cons f up ih =>
    obtain ⟨side, c, p, sibling⟩ := f
    rw [plug_cons, ih]
    cases side <;> simp [Frame.fill, Tree.branch, Tree.toList, before, after]

/-- The labels of a context. -/
def labels (context : List (Frame α)) : List α := before context ++ after context

theorem labels_cons_perm (f : Frame α) (up : List (Frame α)) :
    (labels (f :: up)).Perm (f.label :: (f.sibling.toList ++ labels up)) := by
  obtain ⟨side, c, p, sibling⟩ := f
  cases side with
  | left =>
    have front : (before up ++ (p :: sibling.toList)).Perm (p :: (sibling.toList ++ before up)) :=
      perm_append_comm
    simpa [labels, before, after] using front.append_right (after up)
  | right =>
    have front : (before up ++ (sibling.toList ++ [p])).Perm (p :: (sibling.toList ++ before up)) :=
      (perm_append_comm.append_left _).trans perm_append_comm
    simpa [labels, before, after] using front.append_right (after up)

variable {up context : List (Frame α)}

@[simp] theorem mem_labels_cons {f : Frame α} {x : α} :
    x ∈ labels (f :: up) ↔ x = f.label ∨ x ∈ f.sibling.toList ∨ x ∈ labels up := by
  rw [(labels_cons_perm f up).mem_iff, mem_cons, mem_append]

theorem nodup_labels_cons {f : Frame α} :
    (labels (f :: up)).Nodup ↔
      (f.label ∉ f.sibling.toList ∧ f.label ∉ labels up) ∧
        f.sibling.toList.Nodup ∧ (labels up).Nodup ∧
          List.Disjoint f.sibling.toList (labels up) := by
  rw [(labels_cons_perm f up).nodup_iff, nodup_cons, nodup_append', mem_append, not_or]

theorem toList_plug_perm (context : List (Frame α)) (t : Tree α) :
    (plug context t).toList.Perm (t.toList ++ labels context) := by
  rw [toList_plug, labels, ← append_assoc]
  exact perm_append_comm.append_right _

@[simp] theorem mem_plug {x : α} :
    x ∈ (plug context t).toList ↔ x ∈ t.toList ∨ x ∈ labels context := by
  rw [(toList_plug_perm context t).mem_iff, mem_append]

theorem nodup_plug :
    (plug context t).toList.Nodup ↔
      t.toList.Nodup ∧ (labels context).Nodup ∧ List.Disjoint t.toList (labels context) := by
  rw [(toList_plug_perm context t).nodup_iff, nodup_append']

/-- The node that the hole hangs from; `top` stands over the whole context. -/
def holder (top : Option α) : List (Frame α) → Option α
  | [] => top
  | f :: _ => some f.label

/-- The root of the whole tree, `focus` being the root of the subtree in the hole. -/
def topmost : List (Frame α) → Option α → Option α
  | [], focus => focus
  | f :: up, _ => topmost up (some f.label)

theorem root_plug (context : List (Frame α)) (t : Tree α) :
    (plug context t).root = topmost context t.root := by
  induction context generalizing t with
  | nil => rfl
  | cons f up ih =>
    rw [plug_cons, ih, Frame.fill, Tree.root_branch]
    rfl

theorem topmost_cons_mem (f : Frame α) (up : List (Frame α)) (focus : Option α) :
    ∃ x, topmost (f :: up) focus = some x ∧ x ∈ labels (f :: up) := by
  induction up generalizing f focus with
  | nil => exact ⟨f.label, rfl, mem_labels_cons.mpr (Or.inl rfl)⟩
  | cons g up ih =>
    obtain ⟨x, top, mem⟩ := ih g (some f.label)
    exact ⟨x, top, mem_labels_cons.mpr (Or.inr (Or.inr mem))⟩

theorem length_labels (context : List (Frame α)) : context.length ≤ (labels context).length := by
  induction context with
  | nil => exact Nat.zero_le _
  | cons f up ih =>
    rw [(labels_cons_perm f up).length_eq]
    simp only [length_cons, length_append]
    omega

/-- The colour over the hole.  Over the root there is none, and the root must be
black: it counts as red. -/
def above : List (Frame α) → Colour
  | [] => .red
  | f :: _ => f.colour

/-- A subtree of black height `n` can stand in the hole. -/
def Fits : ℕ → List (Frame α) → Prop
  | _, [] => True
  | n, ⟨_, .red, _, sibling⟩ :: up =>
    sibling.Balanced n ∧ sibling.colour = .black ∧ above up = .black ∧ Fits n up
  | n, ⟨_, .black, _, sibling⟩ :: up => sibling.Balanced n ∧ Fits (n + 1) up

theorem Fits.sibling {n : ℕ} {f : Frame α} (fits : Fits n (f :: up)) : f.sibling.Balanced n := by
  obtain ⟨side, c, p, sibling⟩ := f
  cases c with
  | red => exact fits.1
  | black => exact fits.1

/-- **Validity at a subtree**: the context takes its black height, and it is black
where a red node stands over it. -/
theorem valid_plug (context : List (Frame α)) (t : Tree α) :
    (plug context t).Valid ↔
      ∃ n, Fits n context ∧ t.Balanced n ∧ (above context = .red → t.colour = .black) := by
  induction context generalizing t with
  | nil =>
    constructor
    · rintro ⟨black, n, balanced⟩
      exact ⟨n, trivial, balanced, fun _ => black⟩
    · rintro ⟨n, -, balanced, black⟩
      exact ⟨black rfl, n, balanced⟩
  | cons f up ih =>
    obtain ⟨side, c, p, sibling⟩ := f
    rw [plug_cons, ih]
    cases c with
    | red =>
      simp only [Frame.fill, Tree.balanced_red_branch, Tree.colour_branch, Fits, above]
      constructor
      · rintro ⟨n, fits, ⟨black, sibling_black, balanced, sibling_balanced⟩, top⟩
        have over_black : above up = .black :=
          Colour.eq_black_of_ne fun red => nomatch top red
        exact ⟨n, ⟨sibling_balanced, sibling_black, over_black, fits⟩, balanced, fun _ => black⟩
      · rintro ⟨n, ⟨sibling_balanced, sibling_black, over_black, fits⟩, balanced, black⟩
        refine ⟨n, fits, ⟨black trivial, sibling_black, balanced, sibling_balanced⟩, fun red => ?_⟩
        exact absurd (red.symm.trans over_black) nofun
    | black =>
      simp only [Frame.fill, Tree.balanced_black_branch, Tree.colour_branch, Fits, above]
      constructor
      · rintro ⟨_, fits, ⟨n, rfl, balanced, sibling_balanced⟩, -⟩
        exact ⟨n, ⟨sibling_balanced, fits⟩, balanced, nofun⟩
      · rintro ⟨n, ⟨sibling_balanced, fits⟩, balanced, -⟩
        exact ⟨n + 1, fits, ⟨n, rfl, balanced, sibling_balanced⟩, fun _ => trivial⟩

/-- The labels of a context do not matter for what fits in it. -/
theorem fits_relabel {side : Side} {c : Colour} {x : α} (y : α) {sibling : Tree α} {n : ℕ} :
    ∀ {low : List (Frame α)}, Fits n (low ++ ⟨side, c, x, sibling⟩ :: up) →
      Fits n (low ++ ⟨side, c, y, sibling⟩ :: up)
  | [], fits => by cases c <;> exact fits
  | ⟨_, .red, _, _⟩ :: low, ⟨balanced, black, top, fits⟩ =>
    ⟨balanced, black, by cases low <;> exact top, fits_relabel y fits⟩
  | ⟨_, .black, _, _⟩ :: low, ⟨balanced, fits⟩ => ⟨balanced, fits_relabel y fits⟩

/-- Every node of a tree is the root of a subtree of it. -/
theorem exists_plug {x : α} (mem : x ∈ t.toList) :
    ∃ context c l r, t = plug context (.node c l x r) := by
  induction t with
  | nil => exact absurd mem not_mem_nil
  | node c l y r ihl ihr =>
    rcases mem_append.mp mem with inl | inr
    · obtain ⟨context, d, l', r', eq⟩ := ihl inl
      refine ⟨context ++ [⟨.left, c, y, r⟩], d, l', r', ?_⟩
      rw [plug_append, ← eq]
      rfl
    rcases mem_cons.mp inr with rfl | inr
    · exact ⟨[], c, l, r, rfl⟩
    · obtain ⟨context, d, l', r', eq⟩ := ihr inr
      refine ⟨context ++ [⟨.right, c, y, l⟩], d, l', r', ?_⟩
      rw [plug_append, ← eq]
      rfl

/-- The smallest node of a non-empty tree: below it on the left there is nothing,
and every frame over it is entered on the left. -/
theorem exists_leftmost (c : Colour) (l : Tree α) (x : α) (r : Tree α) :
    ∃ low d y r', Tree.node c l x r = plug low (.node d .nil y r') ∧ ∀ f ∈ low, f.side = .left := by
  induction l generalizing c x r with
  | nil => exact ⟨[], c, x, r, rfl, nofun⟩
  | node c' l' x' r' ih _ =>
    obtain ⟨low, d, y, r'', eq, lefts⟩ := ih c' x' r'
    refine ⟨low ++ [⟨.left, c, x, r⟩], d, y, r'', ?_, ?_⟩
    · rw [plug_append, ← eq]
      rfl
    · exact forall_mem_append.mpr ⟨lefts, forall_mem_singleton.mpr rfl⟩

/-! ## Searching -/

/-- One step down: the child on `side` of the node in the hole is a smaller tree in a
longer context. -/
theorem exists_descent (side : Side) (context : List (Frame α)) {x : α} (rooted : t.root = some x) :
    ∃ near far, plug context t = plug (⟨side, t.colour, x, far⟩ :: context) near ∧
      near.toList.length < t.toList.length := by
  obtain ⟨near, far, eq⟩ := Tree.exists_branch side rooted
  refine ⟨near, far, congrArg (plug context) eq, ?_⟩
  rw [eq]
  cases side with
  | left => simp [Tree.branch, Tree.toList]
  | right =>
    simp [Tree.branch, Tree.toList]
    omega

theorem before_eq_nil_iff : before context = [] ↔ ∀ f ∈ context, f.side = .left := by
  induction context with
  | nil => exact ⟨fun _ => nofun, fun _ => rfl⟩
  | cons f up ih =>
    obtain ⟨side, c, p, sibling⟩ := f
    cases side <;> simp [before, ih]

/-- A way to search is monotone along a sequence: once it points to the left it
keeps pointing there. -/
def Guided (go : α → Option Side) (a b : α) : Prop :=
  (go a = some .left → go b = some .left) ∧ (go b = some .right → go a = some .right)

/-- A search that came down a context leaves everything before the hole on its left,
everything after it on its right. -/
theorem guided_sides {go : α → Option Side} (frames : ∀ f ∈ context, go f.label = some f.side)
    (guided : (plug context t).toList.Pairwise (Guided go)) :
    (∀ x ∈ before context, go x = some .right) ∧ ∀ x ∈ after context, go x = some .left := by
  induction context generalizing t with
  | nil => exact ⟨nofun, nofun⟩
  | cons f up ih =>
    obtain ⟨before_up, after_up⟩ := ih (fun g mem => frames g (mem_cons_of_mem _ mem))
      (show (plug up (f.fill t)).toList.Pairwise (Guided go) from guided)
    have here := frames f mem_cons_self
    rw [plug_cons, toList_plug] at guided
    have inner := (pairwise_append.mp (pairwise_append.mp guided).1).2.1
    obtain ⟨side, c, p, sibling⟩ := f
    cases side with
    | left =>
      refine ⟨before_up, fun x mem => ?_⟩
      have right : ∀ x ∈ sibling.toList, Guided go p x :=
        (pairwise_cons.mp (pairwise_append.mp inner).2.1).1
      rcases mem_append.mp mem with mem | mem
      · rcases mem_cons.mp mem with rfl | mem
        · exact here
        · exact (right x mem).1 here
      · exact after_up x mem
    | right =>
      refine ⟨fun x mem => ?_, after_up⟩
      have left : ∀ x ∈ sibling.toList, Guided go x p := fun x mem =>
        (pairwise_append.mp inner).2.2 x mem p mem_cons_self
      rcases mem_append.mp mem with mem | mem
      · rcases mem_append.mp mem with mem | mem
        · exact before_up x mem
        · exact (left x mem).2 here
      · obtain rfl := mem_singleton.mp mem
        exact here

/-- The node of a context that is next to the hole on `side`. -/
def beyond (side : Side) (context : List (Frame α)) : Option α :=
  match side with
  | .left => (before context).getLast?
  | .right => (after context).head?

theorem beyond_cons (side : Side) (f : Frame α) (up : List (Frame α)) :
    beyond side (f :: up) = if f.side = side then beyond side up else some f.label := by
  obtain ⟨at_side, c, p, sibling⟩ := f
  cases side <;> cases at_side <;> simp [beyond, before, after]

end EduOS
