import LinuxLearn.KvsServer

/-!
# Allocations that fail

Everything so far is about calls whose allocations succeed. This module is
about the others: the paths a `mod` and a `set` take when `kvs_malloc`
returns `NULL`, on any state whatever, so on any that can be reached.

A failed `mod` should leave the store as it was. The skip list obtains the
new value first and does; the other three free the old value before they
ask for the new one, and are left with a pointer to freed memory – or, in
the tree, with no value (`mod_keeps_iff`). A failed `set` should leave the
engine as it was. Three engines clean up after themselves; the skip list
has already raised its level, if the level drawn is above it
(`set_undone_iff`).
-/

variable {E : Type}

/-- A state some run of an engine reaches, whatever its allocations do. -/
def Engine.Reached (e : Engine) (s : e.State) : Prop :=
  ∃ garbage env s₀ is rs, e.initKvengine garbage env = some s₀
    ∧ e.ops.machine.run s₀ is = some (rs, s)

/-! ## A failed `mod` -/

namespace KvsOps

/-- What the caller of `get` is given: no string, or the string the pointer
points to. -/
def read (ops : KvsOps E) (s : E) (k : CString) : Option (Option CString) := do
  let p ← ops.get s (some k)
  if p = 0 then
    return none
  else
    let v ← (ops.strs s).load p
    return some v

/-- **A `mod` that fails and leaves the store as it was**: a negative code, the
key still there with its old value, and the other keys as they were. -/
def ModKeeps (ops : KvsOps E) (s : E) (k v : CString) (env : Env) : Prop :=
  ∃ c s', ops.mod s (some k) (some v) env = some (c, s') ∧ c < 0
    ∧ ops.read s' k = ops.read s k ∧ ops.exist s' (some k) = some 0
    ∧ ∀ k', k' ≠ k → ops.read s' k' = ops.read s k'
        ∧ ops.exist s' (some k') = ops.exist s (some k')

theorem read_eq_some {ops : KvsOps E} {s : E} {k v : CString} :
    ops.read s k = some (some v)
      ↔ ∃ p, ops.get s (some k) = some p ∧ p ≠ 0 ∧ (ops.strs s).load p = some v := by
  constructor
  · intro h
    obtain ⟨p, hp, h⟩ := Option.bind_eq_some_iff.mp h
    split at h
    · cases h
    · rename_i hp0
      obtain ⟨w, hw, h⟩ := Option.bind_eq_some_iff.mp h
      cases h
      exact ⟨p, hp, hp0, hw⟩
  · rintro ⟨p, hp, hp0, hv⟩
    unfold read
    simp [hp, hp0, hv]

/-- A `get` that returns no string, or one that is freed, no longer reads the
old value. -/
theorem read_ne {ops : KvsOps E} {s : E} {k v : CString} {p : Ptr}
    (h : ∀ q, ops.get s (some k) = some q → q = p) (hp : p = 0 ∨ (ops.strs s).load p = none) :
    ops.read s k ≠ some (some v) := by
  intro hr
  obtain ⟨q, hq, hq0, hv⟩ := read_eq_some.mp hr
  obtain rfl := h q hq
  rcases hp with rfl | hp
  · exact hq0 rfl
  · rw [hp] at hv
    cases hv

end KvsOps

namespace KvsArray

variable {inst : KvsArray} {key value old : CString} {env : Env}

/-- The scan in a memory with one string less. -/
theorem scan_within (p : Ptr) : ∀ (n i : ℕ),
    Within (kvsArrayScan { inst with strs := inst.strs.erase p } key n i)
      (kvsArrayScan inst key n i) := by
  intro n
  induction n with
  | zero => exact fun i => Within.refl _
  | succ n ih =>
    intro i
    refine .bind (.refl _) (fun item => .ite (ih (i + 1)) ?_)
    refine .bind (inst.strs.load_erase_within p item.key) (fun k => ?_)
    exact .ite (.refl _) (ih (i + 1))

/-- **The array after a `mod` that failed** has a pointer to the freed value. -/
theorem mod_fail (value : CString) (hread : kvsArrayOps.read inst key = some (some old))
    (hfail : env.malloc 0 = false) :
    ∃ p, kvsArrayGet inst (some key) = some p
      ∧ kvsArrayMod inst (some key) (some value) env
        = some (-2, { inst with strs := inst.strs.erase p }) := by
  obtain ⟨p, hget, hp0, hload⟩ := KvsOps.read_eq_some.mp hread
  refine ⟨p, hget, ?_⟩
  have hload' : inst.strs.load p = some old := hload
  obtain ⟨r, hscan, hget⟩ := Option.bind_eq_some_iff.mp hget
  cases r with
  | none => exact absurd (Option.some.inj hget).symm hp0
  | some i =>
    obtain ⟨item, hslot, hitem⟩ := Option.bind_eq_some_iff.mp hget
    obtain rfl : item.value = p := Option.some.inj hitem
    have htotal : inst.total ≠ 0 := by
      intro h0
      rw [h0] at hscan
      cases hscan
    unfold kvsArrayMod
    simp [htotal, hscan, hslot, Heap.free_of_load hload', hfail, Heap.malloc]

theorem mod_loses (hread : kvsArrayOps.read inst key = some (some old))
    (hfail : env.malloc 0 = false) : ¬ kvsArrayOps.ModKeeps inst key value env := by
  rintro ⟨c, inst', hmod, -, hkeep, -⟩
  obtain ⟨p, hget, hmod'⟩ := mod_fail value hread hfail
  obtain ⟨rfl, rfl⟩ := Prod.mk.inj (Option.some.inj (hmod.symm.trans hmod'))
  refine KvsOps.read_ne (p := p) (fun q hq => ?_) (.inr ?_) (hkeep.trans hread)
  · have hwithin : Within (kvsArrayGet { inst with strs := inst.strs.erase p } (some key))
        (kvsArrayGet inst (some key)) :=
      .bind (scan_within p _ 0) (fun _ => .refl _)
    exact Option.some.inj ((hwithin q hq).symm.trans hget)
  · show (inst.strs.erase p).load p = none
    simp

end KvsArray

namespace KvsHash

variable {hash : KvsHash} {key value old : CString} {env : Env}

/-- The walk along a chain in a memory with one string less. -/
theorem find_within (p : Ptr) (node : Ptr) :
    Within (kvsHashFind { hash with strs := hash.strs.erase p } key node)
      (kvsHashFind hash key node) := by
  refine seek_within (fun q => ?_) _ node
  refine Within.map (.bind (.refl _) (fun n => ?_)) _
  exact hash.strs.load_erase_within p n.key

/-- **The hash table after a `mod` that failed** has a pointer to the freed
value. -/
theorem mod_fail (value : CString) (hread : kvsHashOps.read hash key = some (some old))
    (hfail : env.malloc 0 = false) :
    ∃ p, kvsHashGet hash (some key) = some p
      ∧ kvsHashMod hash (some key) (some value) env
        = some (-2, { hash with strs := hash.strs.erase p }) := by
  obtain ⟨p, hget, hp0, hload⟩ := KvsOps.read_eq_some.mp hread
  refine ⟨p, hget, ?_⟩
  have hload' : hash.strs.load p = some old := hload
  obtain ⟨head, hbucket, hget⟩ := Option.bind_eq_some_iff.mp hget
  obtain ⟨node, hfind, hget⟩ := Option.bind_eq_some_iff.mp hget
  split at hget
  · exact absurd (Option.some.inj hget).symm hp0
  · rename_i hnode
    obtain ⟨n, hn, hval⟩ := Option.bind_eq_some_iff.mp hget
    obtain rfl : n.value = p := Option.some.inj hval
    unfold kvsHashMod
    simp [hbucket, hfind, hnode, hn, Heap.free_of_load hload', hfail, Heap.malloc]

theorem mod_loses (hread : kvsHashOps.read hash key = some (some old))
    (hfail : env.malloc 0 = false) : ¬ kvsHashOps.ModKeeps hash key value env := by
  rintro ⟨c, hash', hmod, -, hkeep, -⟩
  obtain ⟨p, hget, hmod'⟩ := mod_fail value hread hfail
  obtain ⟨rfl, rfl⟩ := Prod.mk.inj (Option.some.inj (hmod.symm.trans hmod'))
  refine KvsOps.read_ne (p := p) (fun q hq => ?_) (.inr ?_) (hkeep.trans hread)
  · have hwithin : Within (kvsHashGet { hash with strs := hash.strs.erase p } (some key))
        (kvsHashGet hash (some key)) :=
      .bind (.refl _) (fun head => .bind (find_within p head) (fun _ => .refl _))
    exact Option.some.inj ((hwithin q hq).symm.trans hget)
  · show (hash.strs.erase p).load p = none
    simp

end KvsHash

namespace KvsRbtree

variable {T : KvsRbtree} {key value old : CString} {env : Env}

/-- The tree with the value field of one node cleared and one string freed. -/
def cleared (T : KvsRbtree) (node p : Ptr) : KvsRbtree :=
  { T with nodes := T.nodes.update node (fun n => { n with value := 0 })
           strs := T.strs.erase p }

theorem childOf_cleared (T : KvsRbtree) (node p : Ptr) (d : RedBlack.Side) (q : Ptr) :
    (T.cleared node p).childOf d q = T.childOf d q := by
  unfold childOf cleared
  rw [Heap.load_update]
  split
  · cases T.nodes.load q <;> cases d <;> rfl
  · rfl

theorem keyAt_cleared_within (T : KvsRbtree) (node p q : Ptr) :
    Within ((T.cleared node p).keyAt q) (T.keyAt q) := by
  unfold keyAt cleared
  rw [Heap.load_update]
  split
  · cases T.nodes.load q with
    | none => exact .refl _
    | some n => exact T.strs.load_erase_within p n.key
  · exact .bind (.refl _) (fun n => T.strs.load_erase_within p n.key)

/-- The search in a tree with a value cleared. -/
theorem search_cleared_within (T : KvsRbtree) (node p : Ptr) :
    Within (rbtreeSearch (T.cleared node p) key) (rbtreeSearch T key) := by
  have hloop : ∀ (fuel : ℕ) (x : Ptr),
      Within (rbtreeSearchFrom (T.cleared node p) key fuel x) (rbtreeSearchFrom T key fuel x) := by
    intro fuel
    induction fuel with
    | zero => exact fun x => Within.refl _
    | succ fuel ih =>
      intro x
      simp only [rbtreeSearchFrom, childOf_cleared]
      refine .ite (.bind (keyAt_cleared_within T node p x) (fun k => ?_)) (.refl _)
      refine .ite (.bind (.refl _) ih) (.ite (.bind (.refl _) ih) (.refl _))
  exact hloop _ _

/-- **The tree after a `mod` that failed** has a node without a value. -/
theorem mod_fail (value : CString) (hread : kvsRbtreeOps.read T key = some (some old))
    (hfail : env.malloc 0 = false) :
    ∃ node p, rbtreeSearch T key = some node ∧ (T.nodes.load node).isSome
      ∧ kvsRbtreeMod T (some key) (some value) env = some (-2, T.cleared node p) := by
  obtain ⟨p, hget, hp0, hload⟩ := KvsOps.read_eq_some.mp hread
  have hload' : T.strs.load p = some old := hload
  obtain ⟨node, hsearch, hget⟩ := Option.bind_eq_some_iff.mp hget
  split at hget
  · exact absurd (Option.some.inj hget).symm hp0
  split at hget
  · exact absurd (Option.some.inj hget).symm hp0
  rename_i hnode hnil
  obtain ⟨n, hn, hval⟩ := Option.bind_eq_some_iff.mp hget
  obtain rfl : n.value = p := Option.some.inj hval
  refine ⟨node, n.value, hsearch, by rw [hn]; rfl, ?_⟩
  unfold kvsRbtreeMod KvsRbtree.write
  simp [hsearch, hnode, hnil, hn, Heap.free_of_load hload', hfail, Heap.malloc,
    Heap.modify_of_load _ hn, cleared]

theorem mod_loses (hread : kvsRbtreeOps.read T key = some (some old))
    (hfail : env.malloc 0 = false) : ¬ kvsRbtreeOps.ModKeeps T key value env := by
  rintro ⟨c, T', hmod, -, hkeep, -⟩
  obtain ⟨node, p, hsearch, hlive, hmod'⟩ := mod_fail value hread hfail
  obtain ⟨n, hn⟩ := Option.isSome_iff_exists.mp hlive
  obtain ⟨rfl, rfl⟩ := Prod.mk.inj (Option.some.inj (hmod.symm.trans hmod'))
  refine KvsOps.read_ne (p := 0) (fun q hq => ?_) (.inl rfl) (hkeep.trans hread)
  obtain ⟨x, hx, hq⟩ := Option.bind_eq_some_iff.mp hq
  obtain rfl : node = x :=
    Option.some.inj (hsearch.symm.trans (search_cleared_within T node p x hx))
  split at hq
  · exact (Option.some.inj hq).symm
  split at hq
  · exact (Option.some.inj hq).symm
  have hn' : (T.cleared node p).nodes.load node = some { n with value := 0 } := by
    show (T.nodes.update node _).load node = _
    rw [Heap.load_update, if_pos rfl, hn]
    rfl
  rw [hn'] at hq
  exact (Option.some.inj hq).symm

end KvsRbtree

namespace KvsSkiptable

variable {table : KvsSkiptable} {key value old : CString} {env : Env}

/-- **The skip list after a `mod` that failed** is what it was. -/
theorem mod_fail (value : CString) (hread : kvsSkiptableOps.read table key = some (some old))
    (hfail : env.malloc 0 = false) :
    ∃ node, skiptableSearchNode table (some key) = some node ∧ node ≠ 0
      ∧ kvsSkiptableMod table (some key) (some value) env = some (-1, table) := by
  obtain ⟨p, hget, hp0, -⟩ := KvsOps.read_eq_some.mp hread
  obtain ⟨node, hsearch, hget⟩ := Option.bind_eq_some_iff.mp hget
  split at hget
  · exact absurd (Option.some.inj hget).symm hp0
  rename_i hnode
  refine ⟨node, hsearch, hnode, ?_⟩
  unfold kvsSkiptableMod
  simp [hsearch, hnode, hfail, Heap.malloc]

theorem mod_keeps (hread : kvsSkiptableOps.read table key = some (some old))
    (hfail : env.malloc 0 = false) : kvsSkiptableOps.ModKeeps table key value env := by
  obtain ⟨node, hsearch, hnode, hmod⟩ := mod_fail value hread hfail
  refine ⟨-1, table, hmod, by decide, rfl, ?_, fun k' _ => ⟨rfl, rfl⟩⟩
  show kvsSkiptableExist table (some key) = some 0
  unfold kvsSkiptableExist
  simp [hsearch, hnode]

end KvsSkiptable

/-- **A failed `mod` leaves the store as it was exactly in the skip list**,
whatever the state, the stored key and the new value. -/
theorem mod_keeps_iff (e : Engine) (s : e.State) (k v old : CString) (env : Env)
    (hread : e.ops.read s k = some (some old)) (hfail : env.malloc 0 = false) :
    e.ops.ModKeeps s k v env ↔ e = .skiptable := by
  cases e with
  | array => exact iff_of_false (KvsArray.mod_loses hread hfail) (by decide)
  | hash => exact iff_of_false (KvsHash.mod_loses hread hfail) (by decide)
  | rbtree => exact iff_of_false (KvsRbtree.mod_loses hread hfail) (by decide)
  | skiptable => exact iff_of_true (KvsSkiptable.mod_keeps hread hfail) rfl

/-- What an engine's entries say of a key is what its reader is given. -/
theorem Engine.read_of_inv (e : Engine) {s : e.State} {items : List Item} {it : Item}
    (hI : e.Inv s items) (hit : it ∈ items) : e.ops.read s it.k = some (some it.v) := by
  have hload := (e.implements.owns hI).value_load it hit
  exact KvsOps.read_eq_some.mpr
    ⟨it.value, e.implements.get_hit hI hit, Heap.ne_null_of_load hload, hload⟩

/-- Every engine can come to hold an entry. -/
theorem Engine.exists_reached_read (e : Engine) (k v : CString) :
    ∃ s, e.Reached s ∧ e.ops.read s k = some (some v) := by
  obtain ⟨s₀, hinit, hI⟩ :=
    e.exists_init (Vector.replicate KVS_ARRAY_SIZE ⟨0, 0⟩) (fun _ => false)
  have hroom : e.codes.full ([] : List Item).length = false := by cases e <;> decide
  obtain ⟨s, xs, it, ys, hset, hI', -, rfl, rfl⟩ :=
    e.implements.set_new (k := k) (v := v) (r := fun _ => false) hI hroom (by simp [keysOf])
  refine ⟨s, ⟨_, _, s₀, [(.set it.k it.v, Env.healthy (fun _ => false))], [.code 0], hinit,
    ?_⟩, e.read_of_inv hI' (by simp)⟩
  simp [Machine.run, KvsOps.machine, hset]

/-- A skip list with one entry. -/
theorem mod_keeps_skiptable :
    ∃ s, Engine.skiptable.ops.ModKeeps s ⟨ascii "k", by decide⟩ ⟨ascii "w", by decide⟩
      ⟨fun _ => false, fun _ => false⟩ := by
  obtain ⟨s, -, hread⟩ := Engine.skiptable.exists_reached_read ⟨ascii "k", by decide⟩
    ⟨ascii "v", by decide⟩
  exact ⟨s, (mod_keeps_iff .skiptable s _ _ _ _ hread rfl).mpr rfl⟩

/-- A tree with one entry: the failed `mod` leaves the key without a value. -/
theorem not_mod_keeps :
    ¬ ∀ (e : Engine) (s : e.State) (k v old : CString) (env : Env), e.Reached s →
      e.ops.read s k = some (some old) → env.malloc 0 = false → e.ops.ModKeeps s k v env := by
  intro h
  obtain ⟨s, hs, hread⟩ := Engine.rbtree.exists_reached_read ⟨ascii "k", by decide⟩
    ⟨ascii "v", by decide⟩
  exact KvsRbtree.mod_loses hread rfl
    (h .rbtree s _ ⟨ascii "w", by decide⟩ _ ⟨fun _ => false, fun _ => false⟩ hs hread rfl)

/-! ## A failed `set` -/

namespace Env

variable {env : Env}

/-- Which of two allocations is the first to fail. -/
theorem fails_two (h : ∃ i < 2, env.malloc i = false) :
    env.malloc 0 = false ∨ env.malloc 0 = true ∧ env.malloc 1 = false := by
  obtain ⟨i, hi, hf⟩ := h
  cases h0 : env.malloc 0 with
  | false => exact .inl rfl
  | true =>
    refine .inr ⟨rfl, ?_⟩
    interval_cases i
    · rw [h0] at hf
      cases hf
    · exact hf

/-- Which of three allocations is the first to fail. -/
theorem fails_three (h : ∃ i < 3, env.malloc i = false) :
    env.malloc 0 = false ∨ env.malloc 0 = true ∧ env.malloc 1 = false
      ∨ env.malloc 0 = true ∧ env.malloc 1 = true ∧ env.malloc 2 = false := by
  obtain ⟨i, hi, hf⟩ := h
  by_cases htwo : ∃ i < 2, env.malloc i = false
  · rcases fails_two htwo with h0 | h1
    · exact .inl h0
    · exact .inr (.inl h1)
  · have htrue : ∀ j < 2, env.malloc j = true := fun j hj => by
      by_contra hne
      exact htwo ⟨j, hj, by simpa using hne⟩
    have hi2 : i = 2 := by
      by_contra hne
      exact htwo ⟨i, by omega, hf⟩
    exact .inr (.inr ⟨htrue 0 (by decide), htrue 1 (by decide), hi2 ▸ hf⟩)

end Env

namespace KvsArray

variable {inst : KvsArray} {key value : CString} {env : Env}

/-- The same array, up to what memory was used in between. -/
structure Same (inst' inst : KvsArray) : Prop where
  table : inst'.table = inst.table
  total : inst'.total = inst.total
  strs : inst'.strs.Agrees inst.strs

/-- **`kvs_array_set` undoes** the allocation of a key. -/
theorem set_fail (habsent : kvsArrayGet inst (some key) = some 0)
    (hfail : ∃ i < 2, env.malloc i = false) :
    ∃ c inst', kvsArraySet inst (some key) (some value) env = some (c, inst') ∧ c < 0
      ∧ inst'.Same inst := by
  unfold kvsArraySet
  by_cases htotal : inst.total = KVS_ARRAY_SIZE
  · exact ⟨-1, inst, if_pos htotal, by decide, rfl, rfl, .refl _⟩
  rcases Env.fails_two hfail with hkey | ⟨hkey, hvalue⟩
  · refine ⟨-2, inst, ?_, by decide, rfl, rfl, .refl _⟩
    simp [htotal, habsent, hkey, Heap.malloc]
  · refine ⟨-2, { inst with strs := (inst.strs.alloc key).erase inst.strs.next }, ?_, by decide,
      rfl, rfl, .alloc_erase _ _⟩
    simp [htotal, habsent, hkey, hvalue, Heap.malloc, Heap.next_ne_null, Heap.free]

end KvsArray

namespace KvsHash

variable {hash : KvsHash} {key value : CString} {env : Env}

/-- The same table, up to what memory was used in between. -/
structure Same (hash' hash : KvsHash) : Prop where
  nodes : hash'.nodes = hash.nodes
  max_slots : hash'.max_slots = hash.max_slots
  count : hash'.count = hash.count
  mem : hash'.mem.Agrees hash.mem
  strs : hash'.strs.Agrees hash.strs

/-- **`_create_node` undoes** what it allocated. -/
theorem createNode_fail (key value : CString) (hfail : ∃ i < 3, env.malloc i = false) :
    ∃ hash', createNode hash key value env = some (0, hash') ∧ hash'.Same hash := by
  unfold createNode
  rcases Env.fails_three hfail with hnode | ⟨hnode, hkey⟩ | ⟨hnode, hkey, hvalue⟩
  · exact ⟨hash, by simp [hnode, Heap.malloc], rfl, rfl, rfl, .refl _, .refl _⟩
  · refine ⟨{ hash with mem := (hash.mem.alloc ⟨0, 0, 0⟩).erase hash.mem.next }, ?_,
      rfl, rfl, rfl, .alloc_erase _ _, .refl _⟩
    simp [hnode, hkey, Heap.malloc, Heap.next_ne_null, Heap.free]
  · refine ⟨{ hash with
        mem := ((hash.mem.alloc ⟨0, 0, 0⟩).update hash.mem.next
          (fun n => { n with key := hash.strs.next })).erase hash.mem.next
        strs := (hash.strs.alloc key).erase hash.strs.next }, ?_,
      rfl, rfl, rfl, (Heap.Agrees.alloc_erase _ _).update_erase _, .alloc_erase _ _⟩
    simp [hnode, hkey, hvalue, Heap.malloc, Heap.next_ne_null, Heap.free, Heap.modify_alloc_next]

theorem set_fail {head : Ptr}
    (hbucket : hash.bucket (KvsHash.hash (some key) MAX_TABLE_SIZE) = some head)
    (habsent : kvsHashFind hash key head = some 0) (hfail : ∃ i < 3, env.malloc i = false) :
    ∃ c hash', kvsHashSet hash (some key) (some value) env = some (c, hash') ∧ c < 0
      ∧ hash'.Same hash := by
  obtain ⟨hash', hcreate, hsame⟩ := createNode_fail key value hfail
  refine ⟨-2, hash', ?_, by decide, hsame⟩
  unfold kvsHashSet
  simp [hbucket, habsent, hcreate]

end KvsHash

namespace KvsRbtree

variable {T : KvsRbtree} {key value : CString} {env : Env}

/-- The same tree, up to what memory was used in between. -/
structure Same (T' T : KvsRbtree) : Prop where
  root : T'.root = T.root
  nil : T'.nil = T.nil
  nodes : T'.nodes.Agrees T.nodes
  strs : T'.strs.Agrees T.strs

/-- **`kvs_rbtree_set` undoes** what it allocated: the node is not in the tree
before it is complete. -/
theorem set_fail (habsent : rbtreeSearch T key = some T.nil)
    (hfail : ∃ i < 3, env.malloc i = false) :
    ∃ c T', kvsRbtreeSet T (some key) (some value) env = some (c, T') ∧ c < 0 ∧ T'.Same T := by
  unfold kvsRbtreeSet KvsRbtree.write
  rcases Env.fails_three hfail with hnode | ⟨hnode, hkey⟩ | ⟨hnode, hkey, hvalue⟩
  · refine ⟨-2, T, ?_, by decide, rfl, rfl, .refl _, .refl _⟩
    simp [habsent, hnode, Heap.malloc]
  · refine ⟨-2, { T with nodes := ((T.nodes.alloc ⟨0, 0, 0, 0, 0, 0⟩).update T.nodes.next
          (fun n => { n with key := 0 })).erase T.nodes.next }, ?_, by decide,
      rfl, rfl, (Heap.Agrees.alloc_erase _ _).update_erase _, .refl _⟩
    simp [habsent, hnode, hkey, Heap.malloc, Heap.next_ne_null, Heap.free, Heap.modify_alloc_next]
  · refine ⟨-2, { T with
        nodes := (((T.nodes.alloc ⟨0, 0, 0, 0, 0, 0⟩).update T.nodes.next
          (fun n => { n with key := T.strs.next })).update T.nodes.next
            (fun n => { n with value := 0 })).erase T.nodes.next
        strs := (T.strs.alloc key).erase T.strs.next }, ?_, by decide,
      rfl, rfl, ((Heap.Agrees.alloc_erase _ _).update_erase _).update_erase _, .alloc_erase _ _⟩
    simp [habsent, hnode, hkey, hvalue, Heap.malloc, Heap.next_ne_null, Heap.free, Heap.modify]

end KvsRbtree

namespace KvsSkiptable

variable {table : KvsSkiptable} {key value : CString} {env : Env}

/-- The same list, up to what memory was used in between. -/
structure Same (table' table : KvsSkiptable) : Prop where
  head : table'.head = table.head
  level : table'.level = table.level
  count : table'.count = table.count
  nodes : table'.nodes.Agrees table.nodes
  strs : table'.strs.Agrees table.strs

/-- **`skiptable_create_node` undoes** what it allocated. -/
theorem createNode_fail (table : KvsSkiptable) (key value : CString) (level : ℕ)
    (hfail : ∃ i < 3, env.malloc i = false) :
    ∃ table', skiptableCreateNode table (some key) (some value) level env = some (0, table')
      ∧ table'.Same table := by
  unfold skiptableCreateNode
  rcases Env.fails_three hfail with hnode | ⟨hnode, hkey⟩ | ⟨hnode, hkey, hvalue⟩
  · exact ⟨table, by simp [hnode, Heap.malloc], rfl, rfl, rfl, .refl _, .refl _⟩
  · refine ⟨{ table with nodes := (table.nodes.alloc ⟨0, 0, level,
        Vector.replicate SKIPTABLE_MAX_LEVEL 0⟩).erase table.nodes.next }, ?_,
      rfl, rfl, rfl, .alloc_erase _ _, .refl _⟩
    simp [hnode, hkey, copyArg, Heap.malloc, Heap.next_ne_null, Heap.free]
  · refine ⟨{ table with
        nodes := ((table.nodes.alloc ⟨0, 0, level, Vector.replicate SKIPTABLE_MAX_LEVEL 0⟩).update
          table.nodes.next (fun n => { n with key := table.strs.next })).erase table.nodes.next
        strs := (table.strs.alloc key).erase table.strs.next }, ?_,
      rfl, rfl, rfl, (Heap.Agrees.alloc_erase _ _).update_erase _, .alloc_erase _ _⟩
    simp [hnode, hkey, hvalue, copyArg, Heap.malloc, Heap.next_ne_null, Heap.free,
      Heap.modify_alloc_next]

/-- **`kvs_skiptable_set` has raised the level** when the node cannot be
created, and nothing else. -/
theorem set_fail (value : CString) (habsent : skiptableSearchNode table (some key) = some 0)
    (hfail : ∃ i < 3, env.malloc i = false) :
    ∃ table', kvsSkiptableSet table (some key) (some value) env = some (-1, table')
      ∧ table'.Same { table with level := max table.level (skiptableRandomLevel env.rand) } := by
  obtain ⟨table', hcreate, hsame⟩ := createNode_fail
    { table with level := max table.level (skiptableRandomLevel env.rand) } key value
    (skiptableRandomLevel env.rand) hfail
  refine ⟨table', ?_, hsame⟩
  obtain ⟨⟨cur, update⟩, hdescend, hrest⟩ := Option.bind_eq_some_iff.mp habsent
  obtain ⟨next, hforward, hrest⟩ := Option.bind_eq_some_iff.mp hrest
  obtain ⟨hit, hmatch, hrest⟩ := Option.bind_eq_some_iff.mp hrest
  -- a node that matches is not null
  have hmiss : hit = false := by
    cases hit with
    | false => rfl
    | true =>
      have hnull : next = 0 := Option.some.inj hrest
      rw [skiptableMatches, if_pos hnull] at hmatch
      exact (Option.some.inj hmatch).symm
  subst hmiss
  unfold kvsSkiptableSet
  simp [hdescend, hforward, hmatch, hcreate]

end KvsSkiptable

namespace Engine

/-- The same engine, up to what memory was used in between. -/
def Same : (e : Engine) → e.State → e.State → Prop
  | .array => KvsArray.Same
  | .hash => KvsHash.Same
  | .rbtree => KvsRbtree.Same
  | .skiptable => KvsSkiptable.Same

/-- **The key is absent**: the search that `set` begins with finds nothing. -/
def Absent : (e : Engine) → e.State → CString → Prop
  | .array, inst, key => kvsArrayGet inst (some key) = some 0
  | .hash, table, key => (do
    let node ← table.bucket (KvsHash.hash (some key) MAX_TABLE_SIZE)
    kvsHashFind table key node) = some 0
  | .rbtree, T, key => rbtreeSearch T key = some T.nil
  | .skiptable, table, key => skiptableSearchNode table (some key) = some 0

/-- An engine that holds no entry with the key has it absent. -/
theorem absent_of_inv {items : List Item} {key : CString} (hk : key ∉ keysOf items) :
    (e : Engine) → {s : e.State} → e.Inv s items → e.Absent s key
  | .array, _, h => KvsArray.Inv.get_miss h hk
  | .hash, _, ⟨_, h, hB⟩ => by
    subst hB
    obtain ⟨head, hbucket, hfind⟩ := h.find_miss (KvsHash.ne_of_notMem_keysOf hk)
    exact bind_of_eq hbucket hfind
  | .rbtree, _, ⟨_, h, hW⟩ => h.fit.search_miss (KvsRbtree.ne_of_notMem_keysOf (hW ▸ hk))
  | .skiptable, _, ⟨_, h, hL⟩ => KvsSkiptable.search_miss h (hL ▸ hk)

/-- How many allocations entering a key takes. -/
def mallocs : Engine → ℕ
  | .array => 2
  | .hash | .rbtree | .skiptable => 3

/-- The level drawn for a new node is not above the list's; the other engines
draw none. -/
def LevelInUse : (e : Engine) → e.State → Env → Prop
  | .skiptable, table, env => skiptableRandomLevel env.rand ≤ table.level
  | _, _, _ => True

/-- **A `set` that fails and leaves the engine as it was.** -/
def SetUndone (e : Engine) (s : e.State) (k v : CString) (env : Env) : Prop :=
  ∃ c s', e.ops.set s (some k) (some v) env = some (c, s') ∧ c < 0 ∧ e.Same s' s

end Engine

/-- **A failed `set` leaves the engine as it was exactly when it does not raise
the skip list's level**, whatever the state, the absent key, the value, the
level drawn and the allocations that fail. -/
theorem set_undone_iff (e : Engine) (s : e.State) (k v : CString) (env : Env)
    (habsent : e.Absent s k) (hfail : ∃ i < e.mallocs, env.malloc i = false) :
    e.SetUndone s k v env ↔ e.LevelInUse s env := by
  cases e with
  | array => exact iff_of_true (KvsArray.set_fail habsent hfail) trivial
  | hash =>
    obtain ⟨head, hbucket, hfind⟩ := Option.bind_eq_some_iff.mp habsent
    exact iff_of_true (KvsHash.set_fail hbucket hfind hfail) trivial
  | rbtree => exact iff_of_true (KvsRbtree.set_fail habsent hfail) trivial
  | skiptable =>
    obtain ⟨table', hset, hsame⟩ := KvsSkiptable.set_fail v habsent hfail
    constructor
    · rintro ⟨c, s', hset', -, hsame'⟩
      obtain ⟨rfl, rfl⟩ := Prod.mk.inj (Option.some.inj (hset.symm.trans hset'))
      exact max_eq_left_iff.mp (hsame.level.symm.trans hsame'.level)
    · intro hlevel
      refine ⟨-1, table', hset, by decide, hsame.head, ?_, hsame.count, hsame.nodes, hsame.strs⟩
      exact hsame.level.trans (max_eq_left hlevel)

/-- An empty tree, and the second allocation failing. -/
theorem set_undone_rbtree :
    ∃ s, Engine.rbtree.SetUndone s ⟨ascii "k", by decide⟩ ⟨ascii "v", by decide⟩
      ⟨fun i => decide (i = 0), fun _ => false⟩ := by
  obtain ⟨s, -, hI⟩ :=
    Engine.rbtree.exists_init (Vector.replicate KVS_ARRAY_SIZE ⟨0, 0⟩) (fun _ => false)
  exact ⟨s, (set_undone_iff .rbtree s _ _ _ (Engine.absent_of_inv (by simp [keysOf]) .rbtree hI)
    ⟨1, by decide, rfl⟩).mpr trivial⟩

/-- An empty skip list, and a node of level two that cannot be allocated. -/
theorem not_set_undone :
    ¬ ∀ (e : Engine) (s : e.State) (k v : CString) (env : Env), e.Reached s → e.Absent s k →
      (∃ i < e.mallocs, env.malloc i = false) → e.SetUndone s k v env := by
  intro h
  obtain ⟨s, hinit, hI⟩ :=
    Engine.skiptable.exists_init (Vector.replicate KVS_ARRAY_SIZE ⟨0, 0⟩) (fun _ => false)
  have habsent : Engine.skiptable.Absent s ⟨ascii "k", by decide⟩ :=
    Engine.absent_of_inv (by simp [keysOf]) .skiptable hI
  have hfail : ∃ i < 3, (⟨fun _ => false, fun i => decide (i = 0)⟩ : Env).malloc i = false :=
    ⟨0, by decide, rfl⟩
  have hlevel : s.level = 1 := by
    have hmap : (Engine.skiptable.initKvengine (Vector.replicate KVS_ARRAY_SIZE ⟨0, 0⟩)
        (Env.healthy (fun _ => false))).map KvsSkiptable.level = some 1 := rfl
    rw [hinit] at hmap
    exact Option.some.inj hmap
  obtain ⟨c, s', hset, -, hsame⟩ := h .skiptable s _ ⟨ascii "v", by decide⟩ _
    ⟨_, _, s, [], [], hinit, rfl⟩ habsent hfail
  obtain ⟨table', hset', hraised⟩ := KvsSkiptable.set_fail ⟨ascii "v", by decide⟩ habsent
    hfail
  obtain ⟨-, rfl⟩ := Prod.mk.inj (Option.some.inj (hset'.symm.trans hset))
  have h12 : s.level = 2 := by
    rw [← hsame.level, hraised.level, hlevel]
    rfl
  omega
