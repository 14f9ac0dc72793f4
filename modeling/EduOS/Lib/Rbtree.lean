import EduOS.Library.RedBlack
import EduOS.Library.Run
import EduOS.Library.Word

/-!
# Red-black trees

`lib/rbtree.c` and `include/rbtree.h`: an intrusive red-black tree.  A node holds
two child pointers and one word with the address of its parent and, in its lowest
bit, its colour (`0` red, `1` black); nodes are aligned to four bytes, so that the
two lowest bits of an address are free.

* A node is its address, `RbNode`; `NULL` is `none`.
* The memory `RbMemory` has the fields of every node and the one root pointer.
  `child .left` is `rb_left` and `child .right` is `rb_right`.
* Reading or writing through `NULL` is a fault: the operation returns `none`.
* The two halves of `rb_insert_color`, of `__rb_erase_color` and the two rotations
  are mirror images of each other in the source; they are one definition with the
  side as a parameter.
-/

namespace EduOS

open Function

/-- The address of an `rb_node`. -/
abbrev RbNode := { address : BitVec 32 // address ≠ 0#32 ∧ address &&& 3#32 = 0#32 }

theorem rbNodeAt_legal (i : ℕ) : BitVec.ofNat 32 (4 * (i % 1025) + 4) ≠ 0#32 ∧
    BitVec.ofNat 32 (4 * (i % 1025) + 4) &&& 3#32 = 0#32 :=
  (by decide +kernel : ∀ j < 1025, BitVec.ofNat 32 (4 * j + 4) ≠ 0#32 ∧
    BitVec.ofNat 32 (4 * j + 4) &&& 3#32 = 0#32) _ (Nat.mod_lt i (by decide))

/-- The nodes at 4, 8, 12, … -/
def rbNodeAt (i : ℕ) : RbNode := ⟨BitVec.ofNat 32 (4 * (i % 1025) + 4), rbNodeAt_legal i⟩

/-- The word of a pointer. -/
def nodeWord : Option RbNode → BitVec 32
  | none => 0#32
  | some x => x.1

theorem masked_aligned (word : BitVec 32) : word &&& ~~~3#32 &&& 3#32 = 0#32 := by
  rw [BitVec.and_assoc]
  simp

/-- The pointer in a word whose two lowest bits are masked away. -/
def wordNode (word : BitVec 32) : Option RbNode :=
  if null : word &&& ~~~3#32 = 0#32 then none
  else some ⟨word &&& ~~~3#32, null, masked_aligned word⟩

/-- The fields of all nodes, and the root pointer. -/
structure RbMemory where
  parentColor : RbNode → BitVec 32
  child : Side → RbNode → Option RbNode
  root : Option RbNode

/-! ## Access to the fields -/

/-- `rb_parent`. -/
def rbParent (m : RbMemory) (x : RbNode) : Option RbNode := wordNode (m.parentColor x)

/-- `rb_color`: the lowest bit, `RB_RED` being `0` and `RB_BLACK` being `1`. -/
def rbColor (m : RbMemory) (x : RbNode) : Colour :=
  if m.parentColor x &&& 1#32 = 0#32 then .red else .black

def rbIsRed (m : RbMemory) (x : RbNode) : Bool := rbColor m x = .red

/-- `!node || rb_is_black(node)`. -/
def rbNullOrBlack (m : RbMemory) : Option RbNode → Bool
  | none => true
  | some x => rbColor m x = .black

def setWord (m : RbMemory) (x : RbNode) (word : BitVec 32) : RbMemory :=
  { m with parentColor := update m.parentColor x word }

def rbSetRed (m : RbMemory) (x : RbNode) : RbMemory := setWord m x (m.parentColor x &&& ~~~1#32)

def rbSetBlack (m : RbMemory) (x : RbNode) : RbMemory := setWord m x (m.parentColor x ||| 1#32)

def rbSetParent (m : RbMemory) (x : RbNode) (p : Option RbNode) : RbMemory :=
  setWord m x (m.parentColor x &&& 3#32 ||| nodeWord p)

/-- The colour as the integer `RB_RED` or `RB_BLACK`. -/
def colorWord : Colour → BitVec 32
  | .red => 0#32
  | .black => 1#32

def rbSetParentColor (m : RbMemory) (x : RbNode) (p : Option RbNode) (c : Colour) : RbMemory :=
  setWord m x (nodeWord p ||| colorWord c)

/-- `if (node) rb_set_parent(node, p)`. -/
def rbSetParentOf (m : RbMemory) (node : Option RbNode) (p : Option RbNode) : RbMemory :=
  match node with
  | none => m
  | some x => rbSetParent m x p

/-- Writes `rb_left` or `rb_right` of `x`. -/
def setChild (m : RbMemory) (side : Side) (x : RbNode) (new : Option RbNode) : RbMemory :=
  { m with child := update m.child side (update (m.child side) x new) }

/-- `rb_clear_node`. -/
def rbClearNode (m : RbMemory) (x : RbNode) : RbMemory := setWord m x x.1

/-- `rb_init_node`. -/
def rbInitNode (m : RbMemory) (x : RbNode) : RbMemory :=
  setChild (setChild (setWord m x 0#32) .left x none) .right x none

/-- The pointer that a node hangs from: the root, or a child pointer of a node. -/
inductive Slot where
  | root
  | child (side : Side) (parent : RbNode)
  deriving DecidableEq

/-- The node that a slot belongs to. -/
def Slot.parent : Slot → Option RbNode
  | root => none
  | child _ p => some p

def readSlot (m : RbMemory) : Slot → Option RbNode
  | .root => m.root
  | .child side p => m.child side p

def writeSlot (m : RbMemory) : Slot → Option RbNode → RbMemory
  | .root, new => { m with root := new }
  | .child side p, new => setChild m side p new

/-- `rb_link_node(node, parent, link)`. -/
def rbLinkNode (m : RbMemory) (x : RbNode) (parent : Option RbNode) (link : Slot) : RbMemory :=
  writeSlot (setChild (setChild (setWord m x (nodeWord parent)) .left x none) .right x none)
    link (some x)

/-- Makes `new` the child of `parent`, or the root, in the place of `old`; the child
pointer on `side` is looked at first. -/
def replaceChild (m : RbMemory) (side : Side) (parent : Option RbNode) (old : RbNode)
    (new : Option RbNode) : RbMemory :=
  match parent with
  | none => { m with root := new }
  | some p =>
    if m.child side p = some old then setChild m side p new else setChild m side.flip p new

/-! ## Rotations -/

/-- `__rb_rotate_left` for `side = .left`, `__rb_rotate_right` for `.right`: the
child of `node` on the other side takes its place. -/
def rbRotate (side : Side) (node : RbNode) (m : RbMemory) : Option RbMemory :=
  match m.child side.flip node with
  | none => none
  | some other =>
    let parent := rbParent m node
    let inner := m.child side other
    let m := setChild m side.flip node inner
    let m := rbSetParentOf m inner (some node)
    let m := setChild m side other (some node)
    let m := rbSetParent m other parent
    let m := replaceChild m side parent node (some other)
    some (rbSetParent m node (some other))

def rbRotateLeft : RbNode → RbMemory → Option RbMemory := rbRotate .left

def rbRotateRight : RbNode → RbMemory → Option RbMemory := rbRotate .right

/-! ## Insertion -/

/-- One pass of `rb_insert_color` with a red parent that is the child of `gparent`
on `side`. -/
def insertColorAt (side : Side) (node parent gparent : RbNode) (m : RbMemory) :
    Option (RbNode × RbMemory) :=
  match (m.child side.flip gparent).filter (rbIsRed m) with
  | some uncle =>
    some (gparent, rbSetRed (rbSetBlack (rbSetBlack m uncle) parent) gparent)
  | none => do
      let (node, parent, m) ←
        if m.child side.flip parent = some node then
          (rbRotate side parent m).map fun m => (parent, node, m)
        else some (node, parent, m)
      let m := rbSetRed (rbSetBlack m parent) gparent
      let m ← rbRotate side.flip gparent m
      some (node, m)

def insertColorPass : RbNode × RbMemory → Option ((RbNode × RbMemory) ⊕ RbMemory)
  | (node, m) =>
    match (rbParent m node).filter (rbIsRed m) with
    | none => some (.inr m)
    | some parent => do
        let gparent ← rbParent m parent
        let side := if m.child .left gparent = some parent then Side.left else Side.right
        (insertColorAt side node parent gparent m).map .inl

def rbInsertColor (node : RbNode) (m : RbMemory) : Option RbMemory := do
  let m ← loop insertColorPass (2 ^ 32) (node, m)
  let top ← m.root
  some (rbSetBlack m top)

/-! ## Removal -/

/-- The recolouring of `__rb_erase_color` that makes the sibling of the node on
`side` of `parent` black. -/
def eraseColorRedSibling (side : Side) (parent : RbNode) (m : RbMemory) :
    Option (RbNode × RbMemory) := do
  let other ← m.child side.flip parent
  if rbIsRed m other then
    let m := rbSetRed (rbSetBlack m other) parent
    let m ← rbRotate side parent m
    let other ← m.child side.flip parent
    some (other, m)
  else some (other, m)

/-- The last case of `__rb_erase_color`: the sibling has a red child. -/
def eraseColorRedNephew (side : Side) (parent other : RbNode) (m : RbMemory) : Option RbMemory := do
  let (other, m) ←
    if rbNullOrBlack m (m.child side.flip other) then do
      let near ← m.child side other
      let m := rbSetRed (rbSetBlack m near) other
      let m ← rbRotate side.flip other m
      let other ← m.child side.flip parent
      some (other, m)
    else some (other, m)
  let m := rbSetParentColor m other (rbParent m parent) (rbColor m parent)
  let m := rbSetBlack m parent
  let far ← m.child side.flip other
  rbRotate side parent (rbSetBlack m far)

/-- One pass of `__rb_erase_color` for a node on `side` of `parent`: either the loop
goes on at `parent`, or it is left with the root. -/
def eraseColorAt (side : Side) (parent : RbNode) (m : RbMemory) :
    Option ((Option RbNode × Option RbNode × RbMemory) ⊕ (Option RbNode × RbMemory)) := do
  let (other, m) ← eraseColorRedSibling side parent m
  if rbNullOrBlack m (m.child .left other) && rbNullOrBlack m (m.child .right other) then
    let m := rbSetRed m other
    some (.inl (some parent, rbParent m parent, m))
  else
    let m ← eraseColorRedNephew side parent other m
    some (.inr (m.root, m))

def eraseColorPass : Option RbNode × Option RbNode × RbMemory →
    Option ((Option RbNode × Option RbNode × RbMemory) ⊕ (Option RbNode × RbMemory))
  | (node, parent, m) =>
    if rbNullOrBlack m node && node != m.root then do
      let parent ← parent
      let side := if m.child .left parent = node then Side.left else Side.right
      eraseColorAt side parent m
    else some (.inr (node, m))

/-- `if (node) rb_set_black(node)`. -/
def rbSetBlackOf (m : RbMemory) : Option RbNode → RbMemory
  | none => m
  | some x => rbSetBlack m x

/-- `__rb_erase_color`. -/
def rbEraseColor (node parent : Option RbNode) (m : RbMemory) : Option RbMemory :=
  (loop eraseColorPass (2 ^ 32) (node, parent, m)).map fun (node, m) => rbSetBlackOf m node

/-- `while ((next = node->...) != NULL) node = next;`, down the children on `side`. -/
def descendPass (m : RbMemory) (side : Side) (node : RbNode) : Option (RbNode ⊕ RbNode) :=
  match m.child side node with
  | some next => some (.inl next)
  | none => some (.inr node)

def descend (m : RbMemory) (side : Side) (node : RbNode) : Option RbNode :=
  loop (descendPass m side) (2 ^ 32) node

/-- What `rb_erase` leaves for the recolouring: the child that moved up, its parent
and the colour that was taken out. -/
structure Unlinked where
  child : Option RbNode
  parent : Option RbNode
  color : Colour
  memory : RbMemory

/-- `rb_erase` of a node with at most one child. -/
def unlinkSingle (node : RbNode) (child : Option RbNode) (m : RbMemory) : Unlinked :=
  let parent := rbParent m node
  let color := rbColor m node
  let m := rbSetParentOf m child parent
  ⟨child, parent, color, replaceChild m .left parent node child⟩

/-- The successor `node` leaves its place below `parent`, which takes its child, and
takes over the right subtree of `old`. -/
def detachSuccessor (old node parent : RbNode) (child : Option RbNode) (m : RbMemory) :
    Option RbMemory := do
  let m := rbSetParentOf m child (some parent)
  let m := setChild m .left parent child
  let m := setChild m .right node (m.child .right old)
  let right ← m.child .right old
  some (rbSetParent m right (some node))

/-- The successor `node` takes over the parent, the colour and the left subtree of
`old`. -/
def adoptLeft (old node : RbNode) (m : RbMemory) : Option RbMemory := do
  let m := setWord m node (m.parentColor old)
  let m := setChild m .left node (m.child .left old)
  let left ← m.child .left old
  some (rbSetParent m left (some node))

/-- `rb_erase` of a node with two children, the right one being `right`: the next
node in order takes its place. -/
def unlinkDouble (old right : RbNode) (m : RbMemory) : Option Unlinked := do
  let node ← descend m .left right
  let m := replaceChild m .left (rbParent m old) old (some node)
  let child := m.child .right node
  let parent ← rbParent m node
  let color := rbColor m node
  if parent = old then
    let m ← adoptLeft old node m
    some ⟨child, some node, color, m⟩
  else
    let m ← detachSuccessor old node parent child m
    let m ← adoptLeft old node m
    some ⟨child, some parent, color, m⟩

/-- `rb_erase` up to the label `color`. -/
def rbUnlink (node : RbNode) (m : RbMemory) : Option Unlinked :=
  match m.child .left node, m.child .right node with
  | none, right => some (unlinkSingle node right m)
  | left, none => some (unlinkSingle node left m)
  | some _, some right => unlinkDouble node right m

def rbErase (node : RbNode) (m : RbMemory) : Option RbMemory := do
  let ⟨child, parent, color, m⟩ ← rbUnlink node m
  if color = .black then rbEraseColor child parent m else some m

/-! ## Walking the tree -/

/-- `rb_first` for `.left`, `rb_last` for `.right`. -/
def rbOutermost (m : RbMemory) (side : Side) : Option (Option RbNode) :=
  match m.root with
  | none => some none
  | some n => (descend m side n).map some

def rbFirst (m : RbMemory) : Option (Option RbNode) := rbOutermost m .left

def rbLast (m : RbMemory) : Option (Option RbNode) := rbOutermost m .right

/-- `while ((parent = rb_parent(node)) && node == parent->...) node = parent;`, up
the children on `side`. -/
def ascendPass (m : RbMemory) (side : Side) (node : RbNode) : Option (RbNode ⊕ Option RbNode) :=
  match rbParent m node with
  | none => some (.inr none)
  | some parent =>
    if m.child side parent = some node then some (.inl parent) else some (.inr (some parent))

/-- `rb_next` for `.right`, `rb_prev` for `.left`: the neighbour of `node` on
`side`. -/
def rbNeighbour (m : RbMemory) (side : Side) (node : RbNode) : Option (Option RbNode) :=
  if rbParent m node = some node then some none
  else
    match m.child side node with
    | some next => (descend m side.flip next).map some
    | none => loop (ascendPass m side) (2 ^ 32) node

def rbNext (m : RbMemory) (node : RbNode) : Option (Option RbNode) := rbNeighbour m .right node

def rbPrev (m : RbMemory) (node : RbNode) : Option (Option RbNode) := rbNeighbour m .left node

end EduOS
