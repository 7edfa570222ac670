import LinuxLearn.Chain
import LinuxLearn.KvsEngine

/-!
# The hash-table engine

`kvs_hash.c`: a table of `MAX_TABLE_SIZE` buckets, each the head of a
singly linked chain. The bucket of a key is the sum of its bytes, in
32-bit arithmetic, reduced by the number of buckets. A new node goes to
the front of its chain; deleting has one path for the first node of a
chain, whose predecessor is the bucket, and one for the others, whose
predecessor is a node.

On a missing key `kvs_hash_del` answers a negative code, where the other
engines answer a positive one.
-/

/-- `MAX_TABLE_SIZE`. -/
def MAX_TABLE_SIZE : ℕ := 1024

/-- `hashnode_t`. -/
structure HashNode where
  key : Ptr
  value : Ptr
  next : Ptr

/-- **`kvs_hash_t`.** -/
structure KvsHash where
  /-- The first node of each bucket; missing before it is allocated. -/
  nodes : Option (Vector Ptr MAX_TABLE_SIZE)
  max_slots : ℤ
  /-- The number of pairs. -/
  count : ℤ
  /-- The memory of the nodes. -/
  mem : Heap HashNode
  /-- The memory of the strings. -/
  strs : Heap CString

/-- **`_hash`**: the sum of the bytes as an `unsigned int`, which wraps
around, reduced by the size. -/
def KvsHash.hash (key : Option CString) (size : ℤ) : ℤ :=
  match key with
  | none => -1
  | some key =>
    if size ≤ 0 then -1
    else ((key.bytes.foldl (fun sum b => sum + b.toUInt32) (0 : UInt32)).toNat % size.toNat : ℕ)

namespace KvsHash

/-- The instance cleared by `init_kvengine`. -/
def zero : KvsHash := ⟨none, 0, 0, Heap.empty, Heap.empty⟩

/-- Reading `nodes[idx]`, undefined outside the bucket array. -/
def bucket (hash : KvsHash) (idx : ℤ) : Option Ptr := do
  let nodes ← hash.nodes
  if 0 ≤ idx then nodes[idx.toNat]? else none

/-- Writing `nodes[idx]`, undefined outside the bucket array. -/
def setBucket (hash : KvsHash) (idx : ℤ) (p : Ptr) : Option KvsHash := do
  let nodes ← hash.nodes
  if 0 ≤ idx ∧ idx < MAX_TABLE_SIZE then
    return { hash with nodes := some (nodes.setIfInBounds idx.toNat p) }
  else
    none

/-- Reading `p->next`. -/
def nextOf (hash : KvsHash) (p : Ptr) : Option Ptr := do
  let node ← hash.mem.load p
  return node.next

/-- Writing `p->next = q`. -/
def setNext (hash : KvsHash) (p q : Ptr) : Option KvsHash := do
  let mem ← hash.mem.modify p (fun node => { node with next := q })
  return { hash with mem := mem }

/-- The string at `p->key`. -/
def keyAt (hash : KvsHash) (p : Ptr) : Option CString := do
  let node ← hash.mem.load p
  hash.strs.load node.key

end KvsHash

/-- `_create_node`: three allocations, undone if one of the later two fails. -/
def createNode (hash : KvsHash) (key value : CString) (env : Env) : Option (Ptr × KvsHash) := do
  let (node, mem) := hash.mem.malloc (env.malloc 0) ⟨0, 0, 0⟩
  if node = 0 then
    return (0, { hash with mem := mem })
  else
    let (kcopy, strs) := hash.strs.malloc (env.malloc 1) key
    if kcopy = 0 then
      let mem ← mem.free node
      return (0, { hash with mem := mem, strs := strs })
    else
      let mem ← mem.modify node (fun n => { n with key := kcopy })
      let (kvalue, strs) := strs.malloc (env.malloc 2) value
      if kvalue = 0 then
        let mem ← mem.free node
        let strs ← strs.free kcopy
        return (0, { hash with mem := mem, strs := strs })
      else
        let mem ← mem.modify node (fun n => { n with value := kvalue })
        let mem ← mem.modify node (fun n => { n with next := 0 })
        return (node, { hash with mem := mem, strs := strs })

/-- `kvs_hash_create`. -/
def kvsHashCreate (hash : KvsHash) (env : Env) : ℤ × KvsHash :=
  if env.malloc 0 then
    (0, { hash with nodes := some (Vector.replicate MAX_TABLE_SIZE 0)
                    max_slots := MAX_TABLE_SIZE
                    count := 0 })
  else
    (-1, { hash with nodes := none })

/-- The loop that `kvs_hash_set`, `kvs_hash_get` and `kvs_hash_mod` share: the
first node of a chain with the key, or `NULL`. -/
def kvsHashFind (hash : KvsHash) (key : CString) (node : Ptr) : Option Ptr :=
  seek hash.nextOf (fun p => (hash.keyAt p).map (fun k => decide (strcmp k key = 0)))
    hash.mem.next node

/-- `kvs_hash_set`. -/
def kvsHashSet (hash : KvsHash) (key value : Option CString) (env : Env) :
    Option (ℤ × KvsHash) :=
  match key, value with
  | some key, some value => do
    let idx := KvsHash.hash (some key) MAX_TABLE_SIZE
    let node ← hash.bucket idx
    let node ← kvsHashFind hash key node
    if node ≠ 0 then
      return (1, hash)
    else
      let (newNode, hash) ← createNode hash key value env
      if newNode = 0 then
        return (-2, hash)
      else
        let head ← hash.bucket idx
        let hash ← hash.setNext newNode head
        let hash ← hash.setBucket idx newNode
        return (0, { hash with count := hash.count + 1 })
  | _, _ => some (-1, hash)

/-- `kvs_hash_get`. -/
def kvsHashGet (hash : KvsHash) : Option CString → Option Ptr
  | none => some 0
  | some key => do
    let node ← hash.bucket (KvsHash.hash (some key) MAX_TABLE_SIZE)
    let node ← kvsHashFind hash key node
    if node = 0 then
      return 0
    else
      let n ← hash.mem.load node
      return n.value

/-- `kvs_hash_mod`: the old value is freed before the new one is allocated. -/
def kvsHashMod (hash : KvsHash) (key value : Option CString) (env : Env) :
    Option (ℤ × KvsHash) :=
  match key, value with
  | some key, some value => do
    let node ← hash.bucket (KvsHash.hash (some key) MAX_TABLE_SIZE)
    let node ← kvsHashFind hash key node
    if node = 0 then
      return (1, hash)
    else
      let n ← hash.mem.load node
      let strs ← hash.strs.free n.value
      let (kvalue, strs) := strs.malloc (env.malloc 0) value
      if kvalue = 0 then
        return (-2, { hash with strs := strs })
      else
        let mem ← hash.mem.modify node (fun n => { n with value := kvalue })
        return (0, { hash with mem := mem, strs := strs })
  | _, _ => some (-1, hash)

/-- `kvs_hash_del`: the first node of the chain is tried on its own, and then
the walk keeps the node before the one it looks at. -/
def kvsHashDel (hash : KvsHash) : Option CString → Option (ℤ × KvsHash)
  | none => some (-2, hash)
  | some key => do
    let idx := KvsHash.hash (some key) MAX_TABLE_SIZE
    let head ← hash.bucket idx
    if head = 0 then
      return (-1, hash)
    else
      let k ← hash.keyAt head
      if strcmp k key = 0 then
        let n ← hash.mem.load head
        let strs ← hash.strs.free n.key
        let strs ← strs.free n.value
        let hash ← KvsHash.setBucket { hash with strs := strs } idx n.next
        let mem ← hash.mem.free head
        return (0, { hash with mem := mem, count := hash.count - 1 })
      else
        let cur ← advance hash.nextOf
          (fun p => (hash.keyAt p).map (fun k => decide (strcmp k key ≠ 0))) hash.mem.next head
        let tmp ← hash.nextOf cur
        if tmp = 0 then
          return (-1, hash)
        else
          let next ← hash.nextOf tmp
          let hash ← hash.setNext cur next
          let n ← hash.mem.load tmp
          let strs ← hash.strs.free n.key
          let strs ← strs.free n.value
          let mem ← hash.mem.free tmp
          return (0, { hash with mem := mem, strs := strs, count := hash.count - 1 })

/-- `kvs_hash_exist`. -/
def kvsHashExist (hash : KvsHash) (key : Option CString) : Option ℤ := do
  let value ← kvsHashGet hash key
  return if value = 0 then 1 else 0

/-- The operations `init_kvengine` registers for the hash table. -/
def kvsHashOps : KvsOps KvsHash where
  set := kvsHashSet
  get := kvsHashGet
  del := kvsHashDel
  mod := kvsHashMod
  exist := kvsHashExist
  strs := KvsHash.strs
