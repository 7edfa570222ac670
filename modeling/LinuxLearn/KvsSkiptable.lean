import LinuxLearn.Chain
import LinuxLearn.KvsEngine

/-!
# The skip-list engine

`kvs_skiptable.c`: sixteen interleaved singly linked lists through the
`forward` arrays of one set of nodes. A node of level `l` is on the lists
`0` to `l - 1`, so the list at level `0` has every node and each list
above it leaves some out; a search runs along a high list as far as the
key allows, drops one level, and runs on.

`set` and `del` keep, in `update`, the node each level was left at. The
array is filled for the levels in use only; `set` patches the levels it
opens itself, and `del` stops at the first level where the deleted node is
not the successor.
-/

/-- `SKIPTABLE_MAX_LEVEL`. -/
def SKIPTABLE_MAX_LEVEL : ℕ := 16

/-- `skipnode_t`. -/
structure SkipNode where
  key : Ptr
  value : Ptr
  /-- How many levels it is on. -/
  level : ℕ
  /-- The next node on each level. -/
  forward : Vector Ptr SKIPTABLE_MAX_LEVEL

/-- **`kvs_skiptable_t`.** -/
structure KvsSkiptable where
  /-- The node that all levels start from, which has no key. -/
  head : Ptr
  /-- The highest level in use. -/
  level : ℕ
  count : ℤ
  /-- The memory of the nodes. -/
  nodes : Heap SkipNode
  /-- The memory of the strings. -/
  strs : Heap CString

namespace KvsSkiptable

/-- The instance cleared by `init_kvengine`. -/
def zero : KvsSkiptable := ⟨0, 0, 0, Heap.empty, Heap.empty⟩

/-- Reading `p->forward[i]`. -/
def forward (table : KvsSkiptable) (i : ℕ) (p : Ptr) : Option Ptr := do
  let node ← table.nodes.load p
  node.forward[i]?

/-- Writing `p->forward[i] = q`. -/
def setForward (table : KvsSkiptable) (i : ℕ) (p q : Ptr) : Option KvsSkiptable := do
  if i < SKIPTABLE_MAX_LEVEL then
    let nodes ← table.nodes.modify p
      (fun node => { node with forward := node.forward.setIfInBounds i q })
    return { table with nodes := nodes }
  else
    none

/-- The string at `p->key`. -/
def keyAt (table : KvsSkiptable) (p : Ptr) : Option CString := do
  let node ← table.nodes.load p
  table.strs.load node.key

end KvsSkiptable

/-- A copy of a string argument, if there is one. -/
def copyArg (strs : Heap CString) (ok : Bool) : Option CString → Ptr × Heap CString
  | some s => strs.malloc ok s
  | none => (0, strs)

/-- `skiptable_create_node`: up to three allocations, undone if one of the
later two fails. The head node is created without a key and a value. -/
def skiptableCreateNode (table : KvsSkiptable) (key value : Option CString) (level : ℕ)
    (env : Env) : Option (Ptr × KvsSkiptable) := do
  let (node, nodes) := table.nodes.malloc (env.malloc 0)
    ⟨0, 0, level, Vector.replicate SKIPTABLE_MAX_LEVEL 0⟩
  if node = 0 then
    return (0, { table with nodes := nodes })
  else
    let (kcopy, strs) := copyArg table.strs (env.malloc 1) key
    if key.isSome ∧ kcopy = 0 then
      let nodes ← nodes.free node
      return (0, { table with nodes := nodes, strs := strs })
    else
      let nodes ← nodes.modify node (fun n => { n with key := kcopy })
      let (vcopy, strs) := copyArg strs (env.malloc 2) value
      if value.isSome ∧ vcopy = 0 then
        let strs ← strs.free kcopy
        let nodes ← nodes.free node
        return (0, { table with nodes := nodes, strs := strs })
      else
        let nodes ← nodes.modify node (fun n => { n with value := vcopy })
        return (node, { table with nodes := nodes, strs := strs })

/-- The loop of `skiptable_random_level` from a given level: each draw below
the probability raises the level by one, up to the maximum. -/
def skiptableRandomLevelFrom (rand : ℕ → Bool) : ℕ → ℕ → ℕ
  | 0, level => level
  | fuel + 1, level =>
    if rand (level - 1) = true ∧ level < SKIPTABLE_MAX_LEVEL then
      skiptableRandomLevelFrom rand fuel (level + 1)
    else
      level

/-- `skiptable_random_level`. -/
def skiptableRandomLevel (rand : ℕ → Bool) : ℕ :=
  skiptableRandomLevelFrom rand SKIPTABLE_MAX_LEVEL 1

/-- The descent that `skiptable_search_node`, `kvs_skiptable_set` and
`kvs_skiptable_del` share: on the levels below `i`, from the highest down,
run along the list while the next key is smaller, and record in `update`
the node the level is left at (which the search does not use). -/
def skiptableDescend (table : KvsSkiptable) (key : CString) :
    ℕ → Ptr → Vector Ptr SKIPTABLE_MAX_LEVEL →
      Option (Ptr × Vector Ptr SKIPTABLE_MAX_LEVEL)
  | 0, cur, update => some (cur, update)
  | i + 1, cur, update => do
    let cur ← advance (table.forward i)
      (fun p => (table.keyAt p).map (fun k => decide (strcmp k key < 0))) table.nodes.next cur
    skiptableDescend table key i cur (update.setIfInBounds i cur)

/-- The test `cur != NULL && strcmp(cur->key, key) == 0`. -/
def skiptableMatches (table : KvsSkiptable) (cur : Ptr) (key : CString) : Option Bool :=
  if cur = 0 then some false else (table.keyAt cur).map (fun k => decide (strcmp k key = 0))

/-- `skiptable_search_node`. -/
def skiptableSearchNode (table : KvsSkiptable) : Option CString → Option Ptr
  | none => some 0
  | some key => do
    let (cur, _) ← skiptableDescend table key table.level table.head
      (Vector.replicate SKIPTABLE_MAX_LEVEL 0)
    let cur ← table.forward 0 cur
    if ← skiptableMatches table cur key then return cur else return 0

/-- `kvs_skiptable_create`. -/
def kvsSkiptableCreate (table : KvsSkiptable) (env : Env) : Option (ℤ × KvsSkiptable) := do
  let (head, table) ← skiptableCreateNode table none none SKIPTABLE_MAX_LEVEL env
  if head = 0 then
    return (-1, { table with head := head })
  else
    return (0, { table with head := head, level := 1, count := 0 })

/-- The loop of `kvs_skiptable_set` that makes the head the predecessor on
`n` new levels from level `i` on. -/
def skiptableFillUpdate (head : Ptr) :
    ℕ → ℕ → Vector Ptr SKIPTABLE_MAX_LEVEL → Vector Ptr SKIPTABLE_MAX_LEVEL
  | 0, _, update => update
  | n + 1, i, update => skiptableFillUpdate head n (i + 1) (update.setIfInBounds i head)

/-- The loop of `kvs_skiptable_set` that links the new node on `n` levels
from level `i` on. -/
def skiptableLink (node : Ptr) (update : Vector Ptr SKIPTABLE_MAX_LEVEL) :
    ℕ → ℕ → KvsSkiptable → Option KvsSkiptable
  | 0, _, table => some table
  | n + 1, i, table => do
    let prev ← update[i]?
    let next ← table.forward i prev
    let table ← table.setForward i node next
    let table ← table.setForward i prev node
    skiptableLink node update n (i + 1) table

/-- `kvs_skiptable_set`: the table's level is raised before the node is
allocated. -/
def kvsSkiptableSet (table : KvsSkiptable) (key value : Option CString) (env : Env) :
    Option (ℤ × KvsSkiptable) :=
  match key, value with
  | some key, some value => do
    let (cur, update) ← skiptableDescend table key table.level table.head
      (Vector.replicate SKIPTABLE_MAX_LEVEL 0)
    let cur ← table.forward 0 cur
    if ← skiptableMatches table cur key then
      return (1, table)
    else
      let level := skiptableRandomLevel env.rand
      let update := skiptableFillUpdate table.head (level - table.level) table.level update
      let table := { table with level := max table.level level }
      let (node, table) ← skiptableCreateNode table (some key) (some value) level env
      if node = 0 then
        return (-1, table)
      else
        let table ← skiptableLink node update level 0 table
        return (0, { table with count := table.count + 1 })
  | _, _ => some (-1, table)

/-- `kvs_skiptable_get`. -/
def kvsSkiptableGet (table : KvsSkiptable) (key : Option CString) : Option Ptr := do
  let node ← skiptableSearchNode table key
  if node = 0 then
    return 0
  else
    let n ← table.nodes.load node
    return n.value

/-- `kvs_skiptable_mod`: the new value is allocated before the old one is
freed. -/
def kvsSkiptableMod (table : KvsSkiptable) (key value : Option CString) (env : Env) :
    Option (ℤ × KvsSkiptable) :=
  match key, value with
  | some key, some value => do
    let node ← skiptableSearchNode table (some key)
    if node = 0 then
      return (1, table)
    else
      let (newValue, strs) := table.strs.malloc (env.malloc 0) value
      if newValue = 0 then
        return (-1, { table with strs := strs })
      else
        let n ← table.nodes.load node
        let strs ← strs.free n.value
        let nodes ← table.nodes.modify node (fun n => { n with value := newValue })
        return (0, { table with nodes := nodes, strs := strs })
  | _, _ => some (-1, table)

/-- The loop of `kvs_skiptable_del` that unlinks `cur` on at most `n` levels
from level `i` on, up to the first level where `cur` is not next. -/
def skiptableUnlink (cur : Ptr) (update : Vector Ptr SKIPTABLE_MAX_LEVEL) :
    ℕ → ℕ → KvsSkiptable → Option KvsSkiptable
  | 0, _, table => some table
  | n + 1, i, table => do
    let prev ← update[i]?
    let next ← table.forward i prev
    if next ≠ cur then
      return table
    else
      let next ← table.forward i cur
      let table ← table.setForward i prev next
      skiptableUnlink cur update n (i + 1) table

/-- The loop of `kvs_skiptable_del` that lowers the table's level while its
top list is empty. -/
def skiptableShrink (table : KvsSkiptable) : ℕ → Option ℕ
  | 0 => some 0
  | 1 => some 1
  | l + 2 => do
    let next ← table.forward (l + 1) table.head
    if next = 0 then skiptableShrink table (l + 1) else return l + 2

/-- `kvs_skiptable_del`. -/
def kvsSkiptableDel (table : KvsSkiptable) : Option CString → Option (ℤ × KvsSkiptable)
  | none => some (-1, table)
  | some key => do
    let (cur, update) ← skiptableDescend table key table.level table.head
      (Vector.replicate SKIPTABLE_MAX_LEVEL 0)
    let cur ← table.forward 0 cur
    if ← skiptableMatches table cur key then
      let table ← skiptableUnlink cur update table.level 0 table
      let n ← table.nodes.load cur
      let strs ← table.strs.free n.key
      let strs ← strs.free n.value
      let nodes ← table.nodes.free cur
      let table := { table with nodes := nodes, strs := strs }
      let level ← skiptableShrink table table.level
      return (0, { table with level := level, count := table.count - 1 })
    else
      return (1, table)

/-- `kvs_skiptable_exist`. -/
def kvsSkiptableExist (table : KvsSkiptable) (key : Option CString) : Option ℤ := do
  let node ← skiptableSearchNode table key
  return if node = 0 then 1 else 0

/-- The operations `init_kvengine` registers for the skip list. -/
def kvsSkiptableOps : KvsOps KvsSkiptable where
  set := kvsSkiptableSet
  get := kvsSkiptableGet
  del := kvsSkiptableDel
  mod := kvsSkiptableMod
  exist := kvsSkiptableExist
  strs := KvsSkiptable.strs

/-- The loop from a level that is still below the maximum stays between that
level and the maximum. -/
theorem skiptableRandomLevelFrom_bounds (rand : ℕ → Bool) (fuel : ℕ) {level : ℕ}
    (hl : level ≤ SKIPTABLE_MAX_LEVEL) :
    level ≤ skiptableRandomLevelFrom rand fuel level
      ∧ skiptableRandomLevelFrom rand fuel level ≤ SKIPTABLE_MAX_LEVEL := by
  induction fuel generalizing level with
  | zero => exact ⟨le_rfl, hl⟩
  | succ fuel ih =>
    unfold skiptableRandomLevelFrom
    split
    · rename_i hstep
      have hnext := ih (show level + 1 ≤ SKIPTABLE_MAX_LEVEL from hstep.2)
      exact ⟨by omega, hnext.2⟩
    · exact ⟨le_rfl, hl⟩

/-- **A drawn level is between one and the maximum.** -/
theorem skiptableRandomLevel_bounds (rand : ℕ → Bool) :
    1 ≤ skiptableRandomLevel rand ∧ skiptableRandomLevel rand ≤ SKIPTABLE_MAX_LEVEL :=
  skiptableRandomLevelFrom_bounds rand _ (by decide)
