import LinuxLearn.LinkedTree

/-!
# The red-black tree macros

`nty_tree.h`: `RB_GENERATE` writes the functions of a red-black tree for a structure that has an
`RB_ENTRY` and for a comparison of two such structures. Here the entry is that of a
`LinkedNode`, what else is in the structure is its element, and `RB_HEAD` is a `LinkedTree`.

The left and the right rotation, and the two halves of each repair, are the same code with
`RB_LEFT` and `RB_RIGHT` exchanged, except that what points to a node from above is always
found by looking at the left child first. They are written once, for a side: with `d` left they
are the first half. Loops run on fuel, one step for each address handed out. `RB_AUGMENT` is
defined to do nothing, but the loop that calls it on the way to the root is run.
-/

open RedBlack (Side Color)

namespace NtyTree

variable {α : Type}

/-- `RB_BLACK`. -/
abbrev RB_BLACK : Color := .black

/-- `RB_RED`. -/
abbrev RB_RED : Color := .red

/-- `RB_INIT`. -/
def rbInit (head : LinkedTree α) : LinkedTree α := { head with root := 0 }

/-- `RB_SET`. -/
def rbSet (head : LinkedTree α) (elm parent : Ptr) : Option (LinkedTree α) := do
  let head ← head.setParent elm parent
  let head ← head.setChild .right elm 0
  let head ← head.setChild .left elm 0
  head.setColor elm RB_RED

/-- `RB_SET_BLACKRED`. -/
def rbSetBlackred (head : LinkedTree α) (black red : Ptr) : Option (LinkedTree α) := do
  let head ← head.setColor black RB_BLACK
  head.setColor red RB_RED

/-- `RB_ROTATE_LEFT` and `RB_ROTATE_RIGHT`: the child of `elm` on the other side comes up. -/
def rbRotate (d : Side) (head : LinkedTree α) (elm : Ptr) : Option (LinkedTree α) := do
  let tmp ← head.childOf d.flip elm
  let b ← head.childOf d tmp
  let head ← head.setChild d.flip elm b
  let head ← (if b ≠ 0 then head.setParent b elm else some head)
  let parent ← head.parentOf elm
  let head ← head.setParent tmp parent
  let head ← head.relink parent elm tmp
  let head ← head.setChild d tmp elm
  head.setParent elm tmp

/-- The test that there is no node at a pointer, or a black one. -/
def isBlack (head : LinkedTree α) (elm : Ptr) : Option Bool := do
  if elm = 0 then return true else return (← head.colorOf elm) = RB_BLACK

/-! ## Insertion -/

/-- The part of the loop of `RB_INSERT_COLOR` for a node on the inner side of its parent, which
leaves one on the outer side: the two nodes change their places. -/
def rbInsertInner (d : Side) (head : LinkedTree α) (elm parent : Ptr) :
    Option (LinkedTree α × Ptr × Ptr) := do
  if (← head.childOf d.flip parent) = elm then
    let head ← rbRotate d head parent
    return (head, parent, elm)
  else
    return (head, elm, parent)

/-- The body of the loop of `RB_INSERT_COLOR`, for a parent on side `d` of the grandparent. -/
def rbInsertColorStep (d : Side) (head : LinkedTree α) (elm parent gparent : Ptr) :
    Option (LinkedTree α × Ptr) := do
  let tmp ← head.childOf d.flip gparent
  if ! (← isBlack head tmp) then
    let head ← head.setColor tmp RB_BLACK
    let head ← rbSetBlackred head parent gparent
    return (head, gparent)
  else
    let (head, elm, parent) ← rbInsertInner d head elm parent
    let head ← rbSetBlackred head parent gparent
    let head ← rbRotate d.flip head gparent
    return (head, elm)

/-- The loop of `RB_INSERT_COLOR`. -/
def rbInsertColorLoop : ℕ → LinkedTree α → Ptr → Option (LinkedTree α)
  | 0, _, _ => none
  | fuel + 1, head, elm => do
    let parent ← head.parentOf elm
    if parent = 0 then
      return head
    else if (← head.colorOf parent) ≠ RB_RED then
      return head
    else
      let gparent ← head.parentOf parent
      let left ← head.childOf .left gparent
      let (head, elm) ← rbInsertColorStep (if parent = left then .left else .right) head elm parent gparent
      rbInsertColorLoop fuel head elm

/-- `RB_INSERT_COLOR`. -/
def rbInsertColor (head : LinkedTree α) (elm : Ptr) : Option (LinkedTree α) := do
  let head ← rbInsertColorLoop head.nodes.next head elm
  head.setColor head.root RB_BLACK

/-- **Where a descent ends**: at a node that compares equal, or below one, with what the
comparison with that one said. -/
inductive Place where
  | found (tmp : Ptr)
  | below (parent : Ptr) (comp : ℤ)

section Compare

variable (cmp : α → α → ℤ)

/-- The loop of `RB_INSERT`. -/
def rbInsertDescend (head : LinkedTree α) (elm : Ptr) : ℕ → Ptr → Ptr → ℤ → Option Place
  | 0, _, _, _ => none
  | fuel + 1, tmp, parent, comp => do
    if tmp = 0 then
      return .below parent comp
    else
      let comp := cmp (← head.elemOf elm) (← head.elemOf tmp)
      if comp < 0 then
        rbInsertDescend head elm fuel (← head.childOf .left tmp) tmp comp
      else if comp > 0 then
        rbInsertDescend head elm fuel (← head.childOf .right tmp) tmp comp
      else
        return .found tmp

/-- `RB_INSERT`: the node that was there already, or null. -/
def rbInsert (head : LinkedTree α) (elm : Ptr) : Option (Ptr × LinkedTree α) := do
  match ← rbInsertDescend cmp head elm head.nodes.next head.root 0 0 with
  | .found tmp => return (tmp, head)
  | .below parent comp =>
    let head ← rbSet head elm parent
    let head ← (if parent ≠ 0 then
        if comp < 0 then head.setChild .left parent elm else head.setChild .right parent elm
      else some { head with root := elm })
    let head ← rbInsertColor head elm
    return (0, head)

/-! ## Lookup -/

/-- The loop of `RB_FIND`. -/
def rbFindFrom (head : LinkedTree α) (elm : α) : ℕ → Ptr → Option Ptr
  | 0, _ => none
  | fuel + 1, tmp => do
    if tmp = 0 then
      return 0
    else
      let comp := cmp elm (← head.elemOf tmp)
      if comp < 0 then
        rbFindFrom head elm fuel (← head.childOf .left tmp)
      else if comp > 0 then
        rbFindFrom head elm fuel (← head.childOf .right tmp)
      else
        return tmp

/-- `RB_FIND`. -/
def rbFind (head : LinkedTree α) (elm : α) : Option Ptr :=
  rbFindFrom cmp head elm head.nodes.next head.root

/-- The loop of `RB_NFIND`. -/
def rbNfindFrom (head : LinkedTree α) (elm : α) : ℕ → Ptr → Ptr → Option Ptr
  | 0, _, _ => none
  | fuel + 1, tmp, res => do
    if tmp = 0 then
      return res
    else
      let comp := cmp elm (← head.elemOf tmp)
      if comp < 0 then
        rbNfindFrom head elm fuel (← head.childOf .left tmp) tmp
      else if comp > 0 then
        rbNfindFrom head elm fuel (← head.childOf .right tmp) res
      else
        return tmp

/-- `RB_NFIND`. -/
def rbNfind (head : LinkedTree α) (elm : α) : Option Ptr :=
  rbNfindFrom cmp head elm head.nodes.next head.root 0

end Compare

/-! ## Removal -/

/-- The part of the loop of `RB_REMOVE_COLOR` for a red sibling, which leaves a black one. -/
def rbRemoveRedSibling (d : Side) (head : LinkedTree α) (parent : Ptr) :
    Option (LinkedTree α × Ptr) := do
  let tmp ← head.childOf d.flip parent
  if (← head.colorOf tmp) = RB_RED then
    let head ← rbSetBlackred head tmp parent
    let head ← rbRotate d head parent
    return (head, ← head.childOf d.flip parent)
  else
    return (head, tmp)

/-- The test of the loop of `RB_REMOVE_COLOR` for the children of the sibling, of which the left
one is looked at first. -/
def rbChildrenBlack (head : LinkedTree α) (tmp : Ptr) : Option Bool := do
  if ← isBlack head (← head.childOf .left tmp) then
    isBlack head (← head.childOf .right tmp)
  else
    return false

/-- The part of the loop of `RB_REMOVE_COLOR` for a sibling whose far child is black, which
leaves one whose far child is red. -/
def rbRemoveFarBlack (d : Side) (head : LinkedTree α) (parent tmp : Ptr) :
    Option (LinkedTree α × Ptr) := do
  if ← isBlack head (← head.childOf d.flip tmp) then
    let oleft ← head.childOf d tmp
    let head ← (if oleft ≠ 0 then head.setColor oleft RB_BLACK else some head)
    let head ← head.setColor tmp RB_RED
    let head ← rbRotate d.flip head tmp
    return (head, ← head.childOf d.flip parent)
  else
    return (head, tmp)

/-- The last part of the loop of `RB_REMOVE_COLOR`, which ends it. -/
def rbRemoveFarRed (d : Side) (head : LinkedTree α) (parent tmp : Ptr) : Option (LinkedTree α) := do
  let head ← head.setColor tmp (← head.colorOf parent)
  let head ← head.setColor parent RB_BLACK
  let far ← head.childOf d.flip tmp
  let head ← (if far ≠ 0 then head.setColor far RB_BLACK else some head)
  rbRotate d head parent

/-- The body of the loop of `RB_REMOVE_COLOR`, for `elm` on side `d` of `parent`: the next
`parent` and `elm`, or none if the loop is left, with `elm` the root. -/
def rbRemoveColorStep (d : Side) (head : LinkedTree α) (parent : Ptr) :
    Option (LinkedTree α × Option (Ptr × Ptr)) := do
  let (head, tmp) ← rbRemoveRedSibling d head parent
  if ← rbChildrenBlack head tmp then
    let head ← head.setColor tmp RB_RED
    return (head, some (← head.parentOf parent, parent))
  else
    let (head, tmp) ← rbRemoveFarBlack d head parent tmp
    let head ← rbRemoveFarRed d head parent tmp
    return (head, none)

/-- The loop of `RB_REMOVE_COLOR`, with `elm` at its end. -/
def rbRemoveColorLoop : ℕ → LinkedTree α → Ptr → Ptr → Option (LinkedTree α × Ptr)
  | 0, _, _, _ => none
  | fuel + 1, head, parent, elm => do
    if ! (← isBlack head elm) then
      return (head, elm)
    else if elm = head.root then
      return (head, elm)
    else
      let left ← head.childOf .left parent
      match ← rbRemoveColorStep (if left = elm then .left else .right) head parent with
      | (head, some (parent, elm)) => rbRemoveColorLoop fuel head parent elm
      | (head, none) => return (head, head.root)

/-- `RB_REMOVE_COLOR`. -/
def rbRemoveColor (head : LinkedTree α) (parent elm : Ptr) : Option (LinkedTree α) := do
  let (head, elm) ← rbRemoveColorLoop head.nodes.next head parent elm
  if elm ≠ 0 then head.setColor elm RB_BLACK else return head

/-- The part of `RB_REMOVE` that puts the only child of `elm`, or nothing, in its place. -/
def rbSplice (head : LinkedTree α) (elm child : Ptr) : Option (LinkedTree α) := do
  let parent ← head.parentOf elm
  let head ← (if child ≠ 0 then head.setParent child parent else some head)
  head.relink parent elm child

/-- The part of `RB_REMOVE` that puts `elm` in the place of `old`. -/
def rbReplace (head : LinkedTree α) (old elm : Ptr) : Option (LinkedTree α) := do
  let field ← head.nodes.load old
  let head ← head.set elm (fun n =>
    { field with elem := n.elem })
  let head ← head.relink (← head.parentOf old) old elm
  let head ← head.setParent (← head.childOf .left old) elm
  let right ← head.childOf .right old
  if right ≠ 0 then head.setParent right elm else return head

/-- The loop of `RB_REMOVE` down to the successor. -/
def rbLeftmost (head : LinkedTree α) : ℕ → Ptr → Option Ptr
  | 0, _ => none
  | fuel + 1, elm => do
    let left ← head.childOf .left elm
    if left ≠ 0 then rbLeftmost head fuel left else return elm

/-- The loop of `RB_REMOVE` that calls `RB_AUGMENT` on the way to the root. -/
def rbAugmentUp (head : LinkedTree α) : ℕ → Ptr → Option Unit
  | 0, _ => none
  | fuel + 1, left => do
    let parent ← head.parentOf left
    if parent ≠ 0 then rbAugmentUp head fuel parent else return ()

/-- The part of `RB_REMOVE` for a node with at most one child: what is repaired then, from
`parent` and `child`, and the colour that is lost. -/
def rbRemoveOuter (head : LinkedTree α) (elm child : Ptr) : Option (LinkedTree α × Ptr × Color) := do
  let parent ← head.parentOf elm
  let color ← head.colorOf elm
  let head ← rbSplice head elm child
  return (head, parent, color)

/-- The part of `RB_REMOVE` for a node with two children, whose successor takes its place: the
child of the successor, and what `rbRemoveOuter` gives. -/
def rbRemoveInner (head : LinkedTree α) (old : Ptr) :
    Option (LinkedTree α × Ptr × Ptr × Color) := do
  let elm ← rbLeftmost head head.nodes.next (← head.childOf .right old)
  let child ← head.childOf .right elm
  let parent ← head.parentOf elm
  let color ← head.colorOf elm
  let head ← rbSplice head elm child
  let parent := if (← head.parentOf elm) = old then elm else parent
  let head ← rbReplace head old elm
  let _ ← (if parent ≠ 0 then rbAugmentUp head head.nodes.next parent else some ())
  return (head, parent, child, color)

/-- `RB_REMOVE`: the node that was removed, which is `elm`. -/
def rbRemove (head : LinkedTree α) (elm : Ptr) : Option (Ptr × LinkedTree α) := do
  let left ← head.childOf .left elm
  let right ← head.childOf .right elm
  let (head, parent, child, color) ← (if left = 0 then do
      let (head, parent, color) ← rbRemoveOuter head elm right
      return (head, parent, right, color)
    else if right = 0 then do
      let (head, parent, color) ← rbRemoveOuter head elm left
      return (head, parent, left, color)
    else rbRemoveInner head elm : Option (LinkedTree α × Ptr × Ptr × Color))
  let head ← (if color = RB_BLACK then rbRemoveColor head parent child else some head)
  return (elm, head)

/-! ## Walking -/

/-- The loop of `RB_MINMAX`, towards side `d`. -/
def rbMinmaxFrom (d : Side) (head : LinkedTree α) : ℕ → Ptr → Ptr → Option Ptr
  | 0, _, _ => none
  | fuel + 1, tmp, parent => do
    if tmp = 0 then return parent else rbMinmaxFrom d head fuel (← head.childOf d tmp) tmp

/-- `RB_MINMAX`. -/
def rbMinmax (head : LinkedTree α) (val : ℤ) : Option Ptr :=
  rbMinmaxFrom (if val < 0 then .left else .right) head head.nodes.next head.root 0

/-- `RB_MIN`. -/
def rbMin (head : LinkedTree α) : Option Ptr := rbMinmax head (-1)

/-- `RB_MAX`. -/
def rbMax (head : LinkedTree α) : Option Ptr := rbMinmax head 1

/-- The loop of `RB_NEXT` and `RB_PREV` down along one side. -/
def rbDown (d : Side) (head : LinkedTree α) : ℕ → Ptr → Option Ptr
  | 0, _ => none
  | fuel + 1, elm => do
    let child ← head.childOf d elm
    if child ≠ 0 then rbDown d head fuel child else return elm

/-- The loop of `RB_NEXT` and `RB_PREV` up while the node is the child on side `d`. -/
def rbUp (d : Side) (head : LinkedTree α) : ℕ → Ptr → Option Ptr
  | 0, _ => none
  | fuel + 1, elm => do
    let parent ← head.parentOf elm
    if parent = 0 then return elm
    else if elm = (← head.childOf d parent) then rbUp d head fuel parent
    else return elm

/-- `RB_NEXT` and `RB_PREV`: the neighbour on side `d`, or null. -/
def rbStep (d : Side) (head : LinkedTree α) (elm : Ptr) : Option Ptr := do
  let child ← head.childOf d elm
  if child ≠ 0 then
    rbDown d.flip head head.nodes.next child
  else
    let parent ← head.parentOf elm
    let first ← (if parent ≠ 0 then do return decide (elm = (← head.childOf d.flip parent))
      else some false : Option Bool)
    if first then return parent
    else
      let elm ← rbUp d head head.nodes.next elm
      head.parentOf elm

/-- `RB_NEXT`. -/
def rbNext (head : LinkedTree α) (elm : Ptr) : Option Ptr := rbStep .right head elm

/-- `RB_PREV`. -/
def rbPrev (head : LinkedTree α) (elm : Ptr) : Option Ptr := rbStep .left head elm

/-- The loop of `RB_FOREACH` and `RB_FOREACH_REVERSE`: the nodes that `x` is, one after another. -/
def rbForeachFrom (d : Side) (head : LinkedTree α) : ℕ → Ptr → Option (List Ptr)
  | 0, _ => none
  | fuel + 1, x => do
    if x ≠ 0 then
      let rest ← rbForeachFrom d head fuel (← rbStep d head x)
      return x :: rest
    else
      return []

/-- `RB_FOREACH`. -/
def rbForeach (head : LinkedTree α) : Option (List Ptr) := do
  rbForeachFrom .right head head.nodes.next (← rbMin head)

/-- `RB_FOREACH_REVERSE`. -/
def rbForeachReverse (head : LinkedTree α) : Option (List Ptr) := do
  rbForeachFrom .left head head.nodes.next (← rbMax head)

end NtyTree
