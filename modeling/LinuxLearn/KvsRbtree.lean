import LinuxLearn.KvsEngine
import LinuxLearn.RedBlack

/-!
# The red-black tree engine

`kvs_rbtree.c`: a red-black tree of nodes with child and parent pointers.
An absent child, and the parent of the root, is the node `nil`, which the
tree owns; it is black, and deletion makes use of its parent pointer.

The left and the right rotation, and the two halves of each fixup, are the
same code with `left` and `right` exchanged. They are written once, for a
side: with `d` left they are the first half, with `d` right the second.
Loops run on fuel, one step for each address handed out, which is more
than there are nodes.
-/

open RedBlack (Side)

/-- `RED`. -/
def RED : UInt8 := 1

/-- `BLACK`. -/
def BLACK : UInt8 := 2

/-- `rbtree_node`. -/
structure RbNode where
  color : UInt8
  right : Ptr
  left : Ptr
  parent : Ptr
  key : Ptr
  value : Ptr

namespace RbNode

/-- The child on a side. -/
def child (n : RbNode) : Side → Ptr
  | .left => n.left
  | .right => n.right

/-- The node with another child on a side. -/
def withChild (n : RbNode) (d : Side) (p : Ptr) : RbNode :=
  match d with
  | .left => { n with left := p }
  | .right => { n with right := p }

end RbNode

/-- **`kvs_rbtree_t`.** -/
structure KvsRbtree where
  root : Ptr
  /-- The node that stands for an absent one. -/
  nil : Ptr
  /-- The memory of the nodes. -/
  nodes : Heap RbNode
  /-- The memory of the strings. -/
  strs : Heap CString

namespace KvsRbtree

/-- The instance cleared by `init_kvengine`. -/
def zero : KvsRbtree := ⟨0, 0, Heap.empty, Heap.empty⟩

/-- Reading `p->color`. -/
def colorOf (T : KvsRbtree) (p : Ptr) : Option UInt8 := do
  let n ← T.nodes.load p
  return n.color

/-- Reading `p->parent`. -/
def parentOf (T : KvsRbtree) (p : Ptr) : Option Ptr := do
  let n ← T.nodes.load p
  return n.parent

/-- Reading `p->left` or `p->right`. -/
def childOf (T : KvsRbtree) (d : Side) (p : Ptr) : Option Ptr := do
  let n ← T.nodes.load p
  return n.child d

/-- Writing to the node at `p`. -/
def write (T : KvsRbtree) (p : Ptr) (f : RbNode → RbNode) : Option KvsRbtree := do
  let nodes ← T.nodes.modify p f
  return { T with nodes := nodes }

/-- Writing `p->color = c`. -/
def setColor (T : KvsRbtree) (p : Ptr) (c : UInt8) : Option KvsRbtree :=
  T.write p (fun n => { n with color := c })

/-- Writing `p->parent = q`. -/
def setParent (T : KvsRbtree) (p q : Ptr) : Option KvsRbtree :=
  T.write p (fun n => { n with parent := q })

/-- Writing `p->left = q` or `p->right = q`. -/
def setChild (T : KvsRbtree) (d : Side) (p q : Ptr) : Option KvsRbtree :=
  T.write p (fun n => n.withChild d q)

/-- The string at `p->key`. -/
def keyAt (T : KvsRbtree) (p : Ptr) : Option CString := do
  let n ← T.nodes.load p
  T.strs.load n.key

end KvsRbtree

/-- The loop of `rbtree_mini`. -/
def rbtreeMiniFrom (T : KvsRbtree) : ℕ → Ptr → Option Ptr
  | 0, _ => none
  | fuel + 1, x => do
    let l ← T.childOf .left x
    if l ≠ T.nil then rbtreeMiniFrom T fuel l else return x

/-- `rbtree_mini`. -/
def rbtreeMini (T : KvsRbtree) (x : Ptr) : Option Ptr :=
  rbtreeMiniFrom T T.nodes.next x

/-- The loop of `rbtree_successor`, up from right children. -/
def rbtreeClimb (T : KvsRbtree) : ℕ → Ptr → Ptr → Option Ptr
  | 0, _, _ => none
  | fuel + 1, x, y => do
    if y ≠ T.nil then
      if x = (← T.childOf .right y) then
        rbtreeClimb T fuel y (← T.parentOf y)
      else
        return y
    else
      return y

/-- `rbtree_successor`. -/
def rbtreeSuccessor (T : KvsRbtree) (x : Ptr) : Option Ptr := do
  let y ← T.parentOf x
  let r ← T.childOf .right x
  if r ≠ T.nil then
    rbtreeMini T r
  else
    rbtreeClimb T T.nodes.next x y

/-- The part of a rotation, and of `rbtree_delete`, that puts `y` where `x` is
below the parent of `x`: at the root if there is none, and otherwise on the
side `x` is on, of which `d` is tried first. -/
def rbtreeRelink (d : Side) (T : KvsRbtree) (x y : Ptr) : Option KvsRbtree := do
  let p ← T.parentOf x
  if p = T.nil then
    return { T with root := y }
  else if x = (← T.childOf d p) then
    T.setChild d p y
  else
    T.setChild d.flip p y

/-- A rotation towards side `d`: the child of `x` on the other side comes up. -/
def rbtreeRotate (d : Side) (T : KvsRbtree) (x : Ptr) : Option KvsRbtree := do
  let y ← T.childOf d.flip x
  let b ← T.childOf d y
  let T ← T.setChild d.flip x b
  let b ← T.childOf d y
  let T ← (if b ≠ T.nil then T.setParent b x else some T)
  let p ← T.parentOf x
  let T ← T.setParent y p
  let T ← rbtreeRelink d T x y
  let T ← T.setChild d y x
  T.setParent x y

/-- `rbtree_left_rotate`. -/
def rbtreeLeftRotate (T : KvsRbtree) (x : Ptr) : Option KvsRbtree := rbtreeRotate .left T x

/-- `rbtree_right_rotate`. -/
def rbtreeRightRotate (T : KvsRbtree) (y : Ptr) : Option KvsRbtree := rbtreeRotate .right T y

/-! ## Insertion -/

/-- The branch of `rbtree_insert_fixup` for a red uncle `y`. -/
def rbtreeInsertRecolor (T : KvsRbtree) (z y : Ptr) : Option (KvsRbtree × Ptr) := do
  let T ← T.setColor (← T.parentOf z) BLACK
  let T ← T.setColor y BLACK
  let T ← T.setColor (← T.parentOf (← T.parentOf z)) RED
  return (T, ← T.parentOf (← T.parentOf z))

/-- The part of `rbtree_insert_fixup` for a node `z` on the inner side of its
parent, which leaves one on the outer side. -/
def rbtreeInsertInner (d : Side) (T : KvsRbtree) (z : Ptr) : Option (KvsRbtree × Ptr) := do
  if z = (← T.childOf d.flip (← T.parentOf z)) then
    let z ← T.parentOf z
    let T ← rbtreeRotate d T z
    return (T, z)
  else
    return (T, z)

/-- The branch of `rbtree_insert_fixup` for a black uncle. -/
def rbtreeInsertRotate (d : Side) (T : KvsRbtree) (z : Ptr) : Option (KvsRbtree × Ptr) := do
  let (T, z) ← rbtreeInsertInner d T z
  let T ← T.setColor (← T.parentOf z) BLACK
  let T ← T.setColor (← T.parentOf (← T.parentOf z)) RED
  let T ← rbtreeRotate d.flip T (← T.parentOf (← T.parentOf z))
  return (T, z)

/-- The body of the loop of `rbtree_insert_fixup`, for a parent on side `d` of
the grandparent. -/
def rbtreeInsertFixupStep (d : Side) (T : KvsRbtree) (z : Ptr) : Option (KvsRbtree × Ptr) := do
  let y ← T.childOf d.flip (← T.parentOf (← T.parentOf z))
  if (← T.colorOf y) = RED then
    rbtreeInsertRecolor T z y
  else
    rbtreeInsertRotate d T z

/-- The loop of `rbtree_insert_fixup`. -/
def rbtreeInsertFixupLoop : ℕ → KvsRbtree → Ptr → Option KvsRbtree
  | 0, _, _ => none
  | fuel + 1, T, z => do
    let zp ← T.parentOf z
    if (← T.colorOf zp) = RED then
      let zpp ← T.parentOf zp
      let (T, z) ← rbtreeInsertFixupStep (if zp = (← T.childOf .left zpp) then .left else .right) T z
      rbtreeInsertFixupLoop fuel T z
    else
      return T

/-- `rbtree_insert_fixup`. -/
def rbtreeInsertFixup (T : KvsRbtree) (z : Ptr) : Option KvsRbtree := do
  let T ← rbtreeInsertFixupLoop T.nodes.next T z
  T.setColor T.root BLACK

/-- The descent of `rbtree_insert`, with the parent `y` of the position `x`
reached; no position is found for a key that is there. -/
def rbtreeInsertDescend (T : KvsRbtree) (z : Ptr) : ℕ → Ptr → Ptr → Option (Option Ptr)
  | 0, _, _ => none
  | fuel + 1, x, y => do
    if x ≠ T.nil then
      if strcmp (← T.keyAt z) (← T.keyAt x) < 0 then
        rbtreeInsertDescend T z fuel (← T.childOf .left x) x
      else if 0 < strcmp (← T.keyAt z) (← T.keyAt x) then
        rbtreeInsertDescend T z fuel (← T.childOf .right x) x
      else
        return none
    else
      return some y

/-- The part of `rbtree_insert` that makes `z` the root, or a child of `y`. -/
def rbtreeAttach (T : KvsRbtree) (y z : Ptr) : Option KvsRbtree := do
  if y = T.nil then
    return { T with root := z }
  else if strcmp (← T.keyAt z) (← T.keyAt y) < 0 then
    T.setChild .left y z
  else
    T.setChild .right y z

/-- The part of `rbtree_insert` that puts `z` below `y`, red and without
children. -/
def rbtreePlace (T : KvsRbtree) (y z : Ptr) : Option KvsRbtree := do
  let T ← T.setParent z y
  let T ← rbtreeAttach T y z
  let T ← T.setChild .left z T.nil
  let T ← T.setChild .right z T.nil
  T.setColor z RED

/-- `rbtree_insert`. -/
def rbtreeInsert (T : KvsRbtree) (z : Ptr) : Option KvsRbtree := do
  match ← rbtreeInsertDescend T z T.nodes.next T.root T.nil with
  | none => return T
  | some y =>
    let T ← rbtreePlace T y z
    rbtreeInsertFixup T z

/-! ## Deletion -/

/-- The part of `rbtree_delete_fixup` for a red sibling `w` of `x`, which
leaves a black one. -/
def rbtreeDeleteRedSibling (d : Side) (T : KvsRbtree) (x w : Ptr) : Option (KvsRbtree × Ptr) := do
  if (← T.colorOf w) = RED then
    let T ← T.setColor w BLACK
    let T ← T.setColor (← T.parentOf x) RED
    let T ← rbtreeRotate d T (← T.parentOf x)
    return (T, ← T.childOf d.flip (← T.parentOf x))
  else
    return (T, w)

/-- The part of `rbtree_delete_fixup` for a sibling `w` whose far child is
black, which leaves one whose far child is red. -/
def rbtreeDeleteFarBlack (d : Side) (T : KvsRbtree) (x w : Ptr) : Option (KvsRbtree × Ptr) := do
  if (← T.colorOf (← T.childOf d.flip w)) = BLACK then
    let T ← T.setColor (← T.childOf d w) BLACK
    let T ← T.setColor w RED
    let T ← rbtreeRotate d.flip T w
    return (T, ← T.childOf d.flip (← T.parentOf x))
  else
    return (T, w)

/-- The part of `rbtree_delete_fixup` for a sibling `w` whose far child is
red, which ends the loop. -/
def rbtreeDeleteFarRed (d : Side) (T : KvsRbtree) (x w : Ptr) : Option (KvsRbtree × Ptr) := do
  let T ← T.setColor w (← T.colorOf (← T.parentOf x))
  let T ← T.setColor (← T.parentOf x) BLACK
  let T ← T.setColor (← T.childOf d.flip w) BLACK
  let T ← rbtreeRotate d T (← T.parentOf x)
  return (T, T.root)

/-- The test of `rbtree_delete_fixup` that both children of `w` are black. -/
def rbtreeChildrenBlack (T : KvsRbtree) (w : Ptr) : Option Bool := do
  if (← T.colorOf (← T.childOf .left w)) = BLACK then
    return (← T.colorOf (← T.childOf .right w)) = BLACK
  else
    return false

/-- The body of the loop of `rbtree_delete_fixup`, for `x` on side `d` of its
parent. -/
def rbtreeDeleteFixupStep (d : Side) (T : KvsRbtree) (x : Ptr) : Option (KvsRbtree × Ptr) := do
  let w ← T.childOf d.flip (← T.parentOf x)
  let (T, w) ← rbtreeDeleteRedSibling d T x w
  if ← rbtreeChildrenBlack T w then
    let T ← T.setColor w RED
    return (T, ← T.parentOf x)
  else
    let (T, w) ← rbtreeDeleteFarBlack d T x w
    rbtreeDeleteFarRed d T x w

/-- The loop of `rbtree_delete_fixup`. -/
def rbtreeDeleteFixupLoop : ℕ → KvsRbtree → Ptr → Option (KvsRbtree × Ptr)
  | 0, _, _ => none
  | fuel + 1, T, x => do
    if x ≠ T.root then
      if (← T.colorOf x) = BLACK then
        let l ← T.childOf .left (← T.parentOf x)
        let (T, x) ← rbtreeDeleteFixupStep (if x = l then .left else .right) T x
        rbtreeDeleteFixupLoop fuel T x
      else
        return (T, x)
    else
      return (T, x)

/-- `rbtree_delete_fixup`. -/
def rbtreeDeleteFixup (T : KvsRbtree) (x : Ptr) : Option KvsRbtree := do
  let (T, x) ← rbtreeDeleteFixupLoop T.nodes.next T x
  T.setColor x BLACK

/-- The part of `rbtree_delete` that exchanges the keys and values of `y` and
`z`. -/
def rbtreeSwap (T : KvsRbtree) (y z : Ptr) : Option KvsRbtree := do
  let ny ← T.nodes.load y
  let nz ← T.nodes.load z
  let T ← T.write z (fun n => { n with key := ny.key })
  let T ← T.write y (fun n => { n with key := nz.key })
  let T ← T.write z (fun n => { n with value := ny.value })
  T.write y (fun n => { n with value := nz.value })

/-- The node that `rbtree_delete` unlinks for `z`: itself, if it has at most
one child, and otherwise its successor. -/
def rbtreeSpliced (T : KvsRbtree) (z : Ptr) : Option Ptr := do
  if (← T.childOf .left z) = T.nil then
    return z
  else if (← T.childOf .right z) = T.nil then
    return z
  else
    rbtreeSuccessor T z

/-- The child of `y` that takes its place, or `nil`. -/
def rbtreeOnlyChild (T : KvsRbtree) (y : Ptr) : Option Ptr := do
  if (← T.childOf .left y) ≠ T.nil then
    T.childOf .left y
  else if (← T.childOf .right y) ≠ T.nil then
    T.childOf .right y
  else
    return T.nil

/-- The part of `rbtree_delete` that puts `x` in the place of `y`. -/
def rbtreeUnlink (T : KvsRbtree) (y x : Ptr) : Option KvsRbtree := do
  let T ← T.setParent x (← T.parentOf y)
  rbtreeRelink .left T y x

/-- `rbtree_delete`: it returns the node to be freed. -/
def rbtreeDelete (T : KvsRbtree) (z : Ptr) : Option (Ptr × KvsRbtree) := do
  let y ← rbtreeSpliced T z
  let x ← rbtreeOnlyChild T y
  let T ← rbtreeUnlink T y x
  let T ← (if y ≠ z then rbtreeSwap T y z else some T)
  let color ← T.colorOf y
  let T ← (if color = BLACK then rbtreeDeleteFixup T x else some T)
  return (y, T)

/-! ## The operations -/

/-- The loop of `rbtree_search`. -/
def rbtreeSearchFrom (T : KvsRbtree) (key : CString) : ℕ → Ptr → Option Ptr
  | 0, _ => none
  | fuel + 1, node => do
    if node ≠ T.nil then
      let k ← T.keyAt node
      if strcmp key k < 0 then
        rbtreeSearchFrom T key fuel (← T.childOf .left node)
      else if 0 < strcmp key k then
        rbtreeSearchFrom T key fuel (← T.childOf .right node)
      else
        return node
    else
      return T.nil

/-- `rbtree_search`. -/
def rbtreeSearch (T : KvsRbtree) (key : CString) : Option Ptr :=
  rbtreeSearchFrom T key T.nodes.next T.root

/-- `kvs_rbtree_create`. -/
def kvsRbtreeCreate (inst : KvsRbtree) (env : Env) : Option (ℤ × KvsRbtree) := do
  let (nil, nodes) := inst.nodes.malloc (env.malloc 0) ⟨0, 0, 0, 0, 0, 0⟩
  let inst := { inst with nil := nil, nodes := nodes }
  if nil = 0 then
    return (-1, inst)
  else
    let inst ← inst.setColor nil BLACK
    let inst ← inst.setChild .left nil nil
    let inst ← inst.setChild .right nil nil
    let inst ← inst.setParent nil nil
    return (0, { inst with root := nil })

/-- `kvs_rbtree_set`. -/
def kvsRbtreeSet (inst : KvsRbtree) (key value : Option CString) (env : Env) :
    Option (ℤ × KvsRbtree) :=
  match key, value with
  | some key, some value => do
    if (← rbtreeSearch inst key) ≠ inst.nil then
      return (1, inst)
    else
      let (node, nodes) := inst.nodes.malloc (env.malloc 0) ⟨0, 0, 0, 0, 0, 0⟩
      let inst := { inst with nodes := nodes }
      if node = 0 then
        return (-2, inst)
      else
        let (k, strs) := inst.strs.malloc (env.malloc 1) key
        let inst ← KvsRbtree.write { inst with strs := strs } node (fun n => { n with key := k })
        if k = 0 then
          let nodes ← inst.nodes.free node
          return (-2, { inst with nodes := nodes })
        else
          let (v, strs) := inst.strs.malloc (env.malloc 2) value
          let inst ← KvsRbtree.write { inst with strs := strs } node (fun n => { n with value := v })
          if v = 0 then
            let strs ← inst.strs.free k
            let nodes ← inst.nodes.free node
            return (-2, { inst with nodes := nodes, strs := strs })
          else
            let inst ← rbtreeInsert inst node
            return (0, inst)
  | _, _ => some (-1, inst)

/-- `kvs_rbtree_get`. -/
def kvsRbtreeGet (inst : KvsRbtree) : Option CString → Option Ptr
  | none => some 0
  | some key => do
    let node ← rbtreeSearch inst key
    if node = 0 then
      return 0
    else if node = inst.nil then
      return 0
    else
      let n ← inst.nodes.load node
      return n.value

/-- `kvs_rbtree_del`. -/
def kvsRbtreeDel (inst : KvsRbtree) : Option CString → Option (ℤ × KvsRbtree)
  | none => some (-1, inst)
  | some key => do
    let node ← rbtreeSearch inst key
    if node = 0 ∨ node = inst.nil then
      return (1, inst)
    else
      let (cur, inst) ← rbtreeDelete inst node
      let n ← inst.nodes.load cur
      let strs ← inst.strs.free n.key
      let strs ← strs.free n.value
      let nodes ← inst.nodes.free cur
      return (0, { inst with nodes := nodes, strs := strs })

/-- `kvs_rbtree_mod`: the old value is freed before the new one is allocated,
and a failed allocation leaves a null value. -/
def kvsRbtreeMod (inst : KvsRbtree) (key value : Option CString) (env : Env) :
    Option (ℤ × KvsRbtree) :=
  match key, value with
  | some key, some value => do
    let node ← rbtreeSearch inst key
    if node = 0 then
      return (1, inst)
    else if node = inst.nil then
      return (1, inst)
    else
      let n ← inst.nodes.load node
      let strs ← inst.strs.free n.value
      let (v, strs) := strs.malloc (env.malloc 0) value
      let inst ← KvsRbtree.write { inst with strs := strs } node (fun n => { n with value := v })
      if v = 0 then return (-2, inst) else return (0, inst)
  | _, _ => some (-1, inst)

/-- `kvs_rbtree_exist`. -/
def kvsRbtreeExist (inst : KvsRbtree) : Option CString → Option ℤ
  | none => some (-1)
  | some key => do
    let node ← rbtreeSearch inst key
    if node = 0 then
      return 1
    else if node = inst.nil then
      return 1
    else
      return 0

/-- The operations `init_kvengine` registers for the red-black tree. -/
def kvsRbtreeOps : KvsOps KvsRbtree where
  set := kvsRbtreeSet
  get := kvsRbtreeGet
  del := kvsRbtreeDel
  mod := kvsRbtreeMod
  exist := kvsRbtreeExist
  strs := KvsRbtree.strs
