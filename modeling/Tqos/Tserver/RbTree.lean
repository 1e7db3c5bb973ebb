import Tqos.Lib.Heap
import Tqos.Lib.RedBlack

/-!
# The red-black tree of the timers

`rb_tree.c` works on nodes with pointers to their parents, and one sentinel stands for all the
subtrees that are empty. Its colour is read, and its parent field is written, as if it were a node.
The memory has the cells of the sentinel and of the nodes of the tree, and a function that follows a
pointer to anything else is stuck. Loops have fuel.

The mirrored branches of the source are one definition with a side here; the second branch is the
first with left and right exchanged.

## Main definitions

* `rbtreeInsert`, `rbtreeDelete` — the operations
* `rbtreeInsertValue`, `rbtreeInsertTimerValue` — where a new node goes
* `rbtreeLeftRotate`, `rbtreeRightRotate` — the rotations
-/

namespace Tqos

open Heap RedBlack

variable {ι : Type}

/-! ## Nodes -/

/-- `rbtree_node_t`, without the byte of data. -/
structure RbtreeNode (ι : Type) where
  key : UInt32
  left : Option ι
  right : Option ι
  parent : Option ι
  color : UInt8

/-- What `tree->insert` can be. -/
inductive RbtreeInsertPt
  | rbtreeInsertValue
  | rbtreeInsertTimerValue

/-- `rbtree_t`. -/
structure Rbtree (ι : Type) where
  root : Option ι
  sentinel : Option ι
  insert : RbtreeInsertPt

/-- Programs on the tree. -/
abbrev RbProg (ι : Type) (α : Type) := Prog (Rbtree ι) ι (RbtreeNode ι) α

/-- `node->left` or `node->right`. -/
def RbtreeNode.child (side : Side) (n : RbtreeNode ι) : Option ι :=
  match side with
  | .left => n.left
  | .right => n.right

/-- `node->left = p` or `node->right = p`. -/
def RbtreeNode.setChild (side : Side) (p : Option ι) (n : RbtreeNode ι) : RbtreeNode ι :=
  match side with
  | .left => { n with left := p }
  | .right => { n with right := p }

/-- `node->parent = p`. -/
def RbtreeNode.setParent (p : Option ι) (n : RbtreeNode ι) : RbtreeNode ι := { n with parent := p }

/-- `node->color = c`. -/
def RbtreeNode.setColor (c : UInt8) (n : RbtreeNode ι) : RbtreeNode ι := { n with color := c }

/-- `rbt_is_red`. -/
def rbtIsRed (p : Option ι) : RbProg ι Bool := field p fun n => n.color != 0

/-- `rbt_is_black`. -/
def rbtIsBlack (p : Option ι) : RbProg ι Bool := field p fun n => !(n.color != 0)

section Programs

variable [DecidableEq ι]

/-- `rbt_red`. -/
def rbtRed (p : Option ι) : RbProg ι Unit := modify p (.setColor 1)

/-- `rbt_black`. -/
def rbtBlack (p : Option ι) : RbProg ι Unit := modify p (.setColor 0)

/-- `*root = p`. -/
def setRoot (p : Option ι) : RbProg ι Unit := modifyVars fun v => { v with root := p }

/-- `rbtree_init`. -/
def rbtreeInit (s : Option ι) (i : RbtreeInsertPt) : RbProg ι Unit := do
  rbtBlack s
  modifyVars fun _ => ⟨s, s, i⟩

/-- `rbtree_min`. -/
def rbtreeMin (sentinel : Option ι) : ℕ → Option ι → RbProg ι (Option ι)
  | 0, _ => stuck
  | fuel + 1, node => do
    let left ← field node RbtreeNode.left
    if left ≠ sentinel then rbtreeMin sentinel fuel left
    else pure node

/-! ## Rotations -/

/-- `if(p != sentinel) p->parent = parent`. -/
def reparent (sentinel p parent : Option ι) : RbProg ι Unit :=
  if p ≠ sentinel then modify p (.setParent parent) else pure ()

/-- `temp` takes the place of `node` below its parent, which is looked for on one side first. -/
def replaceBelow (side : Side) (node temp : Option ι) : RbProg ι Unit := do
  let parent ← field node RbtreeNode.parent
  let child ← field parent (RbtreeNode.child side)
  if node = child then modify parent (.setChild side temp)
  else modify parent (.setChild side.other temp)

/-- `temp` takes the place of `node`. -/
def replace (side : Side) (node temp : Option ι) : RbProg ι Unit := do
  let tree ← getVars
  if node = tree.root then setRoot temp
  else replaceBelow side node temp

/-- The rotations. -/
def rotate (side : Side) (sentinel node : Option ι) : RbProg ι Unit := do
  let temp ← field node (RbtreeNode.child side.other)
  let inner ← field temp (RbtreeNode.child side)
  modify node (.setChild side.other inner)
  let inner ← field temp (RbtreeNode.child side)
  reparent sentinel inner node
  let parent ← field node RbtreeNode.parent
  modify temp (.setParent parent)
  replace side node temp
  modify temp (.setChild side node)
  modify node (.setParent temp)

/-- `rbtree_left_rotate`. -/
def rbtreeLeftRotate (sentinel node : Option ι) : RbProg ι Unit := rotate .left sentinel node

/-- `rbtree_right_rotate`. -/
def rbtreeRightRotate (sentinel node : Option ι) : RbProg ι Unit := rotate .right sentinel node

/-! ## Insertion -/

/-- The loop of `rbtree_insert_value`: the last node and the side of the free place. -/
def insertPlace (less : UInt32 → UInt32 → Bool) (node sentinel : Option ι) :
    ℕ → Option ι → RbProg ι (Option ι × Side)
  | 0, _ => stuck
  | fuel + 1, temp => do
    let key ← field node RbtreeNode.key
    let key' ← field temp RbtreeNode.key
    let side := if less key key' then .left else .right
    let p ← field temp (RbtreeNode.child side)
    if p = sentinel then pure (temp, side)
    else insertPlace less node sentinel fuel p

/-- The node becomes a red leaf. -/
def insertLeaf (less : UInt32 → UInt32 → Bool) (fuel : ℕ) (temp node sentinel : Option ι) :
    RbProg ι Unit := do
  let place ← insertPlace less node sentinel fuel temp
  modify place.1 (.setChild place.2 node)
  modify node fun n => { n with parent := place.1, left := sentinel, right := sentinel, color := 1 }

/-- `rbtree_insert_value`. -/
def rbtreeInsertValue (fuel : ℕ) (temp node sentinel : Option ι) : RbProg ι Unit :=
  insertLeaf (fun key key' => decide (key < key')) fuel temp node sentinel

/-- `(rbtree_key_int_t)(key - key') < 0`. -/
def timerLess (key key' : UInt32) : Bool := decide ((key - key').toInt32 < 0)

/-- `rbtree_insert_timer_value`. -/
def rbtreeInsertTimerValue (fuel : ℕ) (temp node sentinel : Option ι) : RbProg ι Unit :=
  insertLeaf timerLess fuel temp node sentinel

/-- `tree->insert`. -/
def RbtreeInsertPt.call (i : RbtreeInsertPt) (fuel : ℕ) (temp node sentinel : Option ι) :
    RbProg ι Unit :=
  match i with
  | .rbtreeInsertValue => Tqos.rbtreeInsertValue fuel temp node sentinel
  | .rbtreeInsertTimerValue => Tqos.rbtreeInsertTimerValue fuel temp node sentinel

/-- The case that `node` is the child on the inner side: its parent is rotated and is the node then.
-/
def insertInward (side : Side) (sentinel node : Option ι) : RbProg ι (Option ι) := do
  let parent ← field node RbtreeNode.parent
  let child ← field parent (RbtreeNode.child side.other)
  if node = child then do
    rotate side sentinel parent
    pure parent
  else pure node

/-- A branch of the loop of `rbtree_insert`, with the side where the parent is below the
grandparent. -/
def insertBranch (side : Side) (sentinel node : Option ι) : RbProg ι (Option ι) := do
  let parent ← field node RbtreeNode.parent
  let grand ← field parent RbtreeNode.parent
  let temp ← field grand (RbtreeNode.child side.other)
  let red ← rbtIsRed temp
  if red then do
    rbtBlack parent
    rbtBlack temp
    rbtRed grand
    pure grand
  else do
    let node ← insertInward side sentinel node
    let parent ← field node RbtreeNode.parent
    rbtBlack parent
    let grand ← field parent RbtreeNode.parent
    rbtRed grand
    rotate side.other sentinel grand
    pure node

/-- The loop of `rbtree_insert`. -/
def insertLoop (sentinel : Option ι) : ℕ → Option ι → RbProg ι Unit
  | 0, _ => stuck
  | fuel + 1, node => do
    let tree ← getVars
    if node = tree.root then pure ()
    else do
      let parent ← field node RbtreeNode.parent
      let red ← rbtIsRed parent
      if red = false then pure ()
      else do
        let grand ← field parent RbtreeNode.parent
        let left ← field grand RbtreeNode.left
        let node ← insertBranch (if parent = left then .left else .right) sentinel node
        insertLoop sentinel fuel node

/-- `rbtree_insert`. -/
def rbtreeInsert (fuel : ℕ) (node : Option ι) : RbProg ι Unit := do
  let tree ← getVars
  if tree.root = tree.sentinel then do
    modify node fun n =>
      { n with parent := none, left := tree.sentinel, right := tree.sentinel, color := 0 }
    setRoot node
  else do
    tree.insert.call fuel tree.root node tree.sentinel
    insertLoop tree.sentinel fuel node
    let tree ← getVars
    rbtBlack tree.root

/-! ## Deletion -/

/-- The node that leaves its place, `subst`, and its subtree `temp` that takes it. -/
def deleteChoose (fuel : ℕ) (sentinel node : Option ι) : RbProg ι (Option ι × Option ι) := do
  let left ← field node RbtreeNode.left
  if left = sentinel then do
    let right ← field node RbtreeNode.right
    pure (node, right)
  else do
    let right ← field node RbtreeNode.right
    if right = sentinel then do
      let left ← field node RbtreeNode.left
      pure (node, left)
    else do
      let subst ← rbtreeMin sentinel fuel right
      let left ← field subst RbtreeNode.left
      if left ≠ sentinel then pure (subst, left)
      else do
        let right ← field subst RbtreeNode.right
        pure (subst, right)

/-- `subst` goes to the place of `node`. -/
def deleteMove (sentinel node subst : Option ι) : RbProg ι Unit := do
  let left ← field node RbtreeNode.left
  modify subst (.setChild .left left)
  let right ← field node RbtreeNode.right
  modify subst (.setChild .right right)
  let parent ← field node RbtreeNode.parent
  modify subst (.setParent parent)
  let color ← field node RbtreeNode.color
  modify subst (.setColor color)
  replace .left node subst
  let left ← field subst RbtreeNode.left
  reparent sentinel left subst
  let right ← field subst RbtreeNode.right
  reparent sentinel right subst

/-- `temp` takes the place of `subst`, and `subst` that of `node` if it is another node. -/
def deleteSplice (sentinel node subst temp : Option ι) : RbProg ι Unit := do
  replaceBelow .left subst temp
  let parent ← field subst RbtreeNode.parent
  if subst = node then modify temp (.setParent parent)
  else do
    modify temp (.setParent (if parent = node then subst else parent))
    deleteMove sentinel node subst

/-- The node is reset. From here on it is the caller's: nothing below touches it, and a function
that did would be stuck. -/
def deleteReset (node : Option ι) : RbProg ι (RbtreeNode ι) := do
  modify node fun n => { n with left := none, right := none, parent := none, key := 0 }
  release node

/-- A red sibling `w` of `temp` is turned up. -/
def deleteRedSibling (side : Side) (sentinel temp : Option ι) : RbProg ι (Option ι) := do
  let parent ← field temp RbtreeNode.parent
  let w ← field parent (RbtreeNode.child side.other)
  let red ← rbtIsRed w
  if red then do
    rbtBlack w
    rbtRed parent
    rotate side sentinel parent
    let parent ← field temp RbtreeNode.parent
    field parent (RbtreeNode.child side.other)
  else pure w

/-- `rbt_is_black(w->left) && rbt_is_black(w->right)`. -/
def bothBlack (w : Option ι) : RbProg ι Bool := do
  let left ← field w RbtreeNode.left
  let black ← rbtIsBlack left
  if black then do
    let right ← field w RbtreeNode.right
    rbtIsBlack right
  else pure false

/-- The case that the far child of `w` is black: the near one is turned up. -/
def deleteNear (side : Side) (sentinel temp w : Option ι) : RbProg ι (Option ι) := do
  let far ← field w (RbtreeNode.child side.other)
  let black ← rbtIsBlack far
  if black then do
    let near ← field w (RbtreeNode.child side)
    rbtBlack near
    rbtRed w
    rotate side.other sentinel w
    let parent ← field temp RbtreeNode.parent
    field parent (RbtreeNode.child side.other)
  else pure w

/-- A branch of the loop of `rbtree_delete`, with the side where `temp` is below its parent. -/
def deleteBranch (side : Side) (sentinel temp : Option ι) : RbProg ι (Option ι) := do
  let w ← deleteRedSibling side sentinel temp
  let black ← bothBlack w
  if black then do
    rbtRed w
    field temp RbtreeNode.parent
  else do
    let w ← deleteNear side sentinel temp w
    let parent ← field temp RbtreeNode.parent
    let color ← field parent RbtreeNode.color
    modify w (.setColor color)
    rbtBlack parent
    let far ← field w (RbtreeNode.child side.other)
    rbtBlack far
    rotate side sentinel parent
    let tree ← getVars
    pure tree.root

/-- The loop of `rbtree_delete`. -/
def deleteLoop (sentinel : Option ι) : ℕ → Option ι → RbProg ι (Option ι)
  | 0, _ => stuck
  | fuel + 1, temp => do
    let tree ← getVars
    if temp = tree.root then pure temp
    else do
      let black ← rbtIsBlack temp
      if black = false then pure temp
      else do
        let parent ← field temp RbtreeNode.parent
        let left ← field parent RbtreeNode.left
        let temp ← deleteBranch (if temp = left then .left else .right) sentinel temp
        deleteLoop sentinel fuel temp

/-- `rbtree_delete`. The result is what the node holds at the end. -/
def rbtreeDelete (fuel : ℕ) (node : Option ι) : RbProg ι (RbtreeNode ι) := do
  let tree ← getVars
  let place ← deleteChoose fuel tree.sentinel node
  if place.1 = tree.root then do
    setRoot place.2
    rbtBlack place.2
    deleteReset node
  else do
    let red ← rbtIsRed place.1
    deleteSplice tree.sentinel node place.1 place.2
    let freed ← deleteReset node
    if red then pure freed
    else do
      let temp ← deleteLoop tree.sentinel fuel place.2
      rbtBlack temp
      pure freed

end Programs

end Tqos
