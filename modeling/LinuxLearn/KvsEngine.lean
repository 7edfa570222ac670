import LinuxLearn.Heap
import LinuxLearn.KvsString
import LinuxLearn.Simulation
import Mathlib.Data.Finmap

/-!
# Storage engines

The store reaches its data through `kvs_ops_t`, a table of five operations
on an opaque engine. The array, the hash table, the red-black tree and the
skip list each fill it in. `KvsOps` is that table; a call may run through
undefined behaviour, so each operation has an optional result, and what
the C library decides during the call – which allocations succeed, what
`rand` returns – is its `Env`.

What an engine is for is a finite map from keys to values. `mapSpec` is
that map with the return codes of the interface, and `engineSpec` is the
same map with the codes an engine really returns on a miss and the
capacity it really has: the table's convention – zero for a hit, positive
for a miss, negative for an error – is only a comment in the source, and
not every engine keeps it.

Every engine stores its own copies of a key and a value, so what its data
structure holds is a sequence of `Item`s: two pointers and the strings
they point to. `Owns` says the strings are live and no two pointers are
equal, and `storeOf` is the map they amount to.
-/

/-- **What the C library decides during one call**: whether the `i`-th
`kvs_malloc` of the call succeeds, and whether the `i`-th `rand()` of the
call falls below `SKIPTABLE_P`. -/
structure Env where
  /-- Whether the `i`-th allocation succeeds. -/
  malloc : ℕ → Bool
  /-- Whether the `i`-th draw is below the promotion probability. -/
  rand : ℕ → Bool

/-- A call all of whose allocations succeed. -/
def Env.healthy (rand : ℕ → Bool) : Env := ⟨fun _ => true, rand⟩

@[simp] theorem Env.malloc_healthy (rand : ℕ → Bool) (i : ℕ) :
    (Env.healthy rand).malloc i = true := rfl

@[simp] theorem Env.rand_healthy (rand : ℕ → Bool) : (Env.healthy rand).rand = rand := rfl

/-- **`kvs_ops_t`**: the operations of an engine with states `E`. A missing
key or value argument is the null pointer; `get` returns a pointer into
the engine's string memory. -/
structure KvsOps (E : Type) where
  set : E → Option CString → Option CString → Env → Option (ℤ × E)
  get : E → Option CString → Option Ptr
  del : E → Option CString → Option (ℤ × E)
  mod : E → Option CString → Option CString → Env → Option (ℤ × E)
  exist : E → Option CString → Option ℤ
  /-- The memory holding the engine's strings. -/
  strs : E → Heap CString

/-- A call of an engine, with its arguments. -/
inductive KvsOp where
  | set (k v : CString)
  | get (k : CString)
  | del (k : CString)
  | mod (k v : CString)
  | exist (k : CString)
deriving DecidableEq

/-- What a call returns: a code, or the string `get` points to. -/
inductive KvsRes where
  | code (c : ℤ)
  | value (v : Option CString)
deriving DecidableEq

namespace KvsOps

variable {E : Type}

/-- **An engine as a machine.** The string `get` points to is read before
the next call. -/
def machine (ops : KvsOps E) : Machine E (KvsOp × Env) KvsRes
  | s, (.set k v, env) => do
    let (c, s) ← ops.set s (some k) (some v) env
    return (.code c, s)
  | s, (.get k, _) => do
    let p ← ops.get s (some k)
    if p = 0 then
      return (.value none, s)
    else
      let v ← (ops.strs s).load p
      return (.value (some v), s)
  | s, (.del k, _) => do
    let (c, s) ← ops.del s (some k)
    return (.code c, s)
  | s, (.mod k v, env) => do
    let (c, s) ← ops.mod s (some k) (some v) env
    return (.code c, s)
  | s, (.exist k, _) => do
    let c ← ops.exist s (some k)
    return (.code c, s)

end KvsOps

/-! ## The finite map an engine stands for -/

/-- The abstract contents of an engine. -/
abbrev Store := Finmap (fun _ : CString => CString)

/-- The number of keys stored. -/
def Store.size (m : Store) : ℕ := m.keys.card

/-- **The finite map with the return codes of the interface.** -/
def mapSpec : Spec Store KvsOp KvsRes
  | m, .set k v => if k ∈ m then (.code 1, m) else (.code 0, m.insert k v)
  | m, .get k => (.value (m.lookup k), m)
  | m, .del k => if k ∈ m then (.code 0, m.erase k) else (.code 1, m)
  | m, .mod k v => if k ∈ m then (.code 0, m.insert k v) else (.code 1, m)
  | m, .exist k => (.code (if k ∈ m then 0 else 1), m)

/-- What an engine returns where the interface leaves it open. -/
structure Codes where
  /-- Whether a store of this size takes no further key. -/
  full : ℕ → Bool
  /-- The code of deleting a missing key from a store of this size. -/
  delMiss : ℕ → ℤ
  /-- The code of modifying a missing key in a store of this size. -/
  modMiss : ℕ → ℤ

/-- **The finite map with an engine's own codes.** Capacity is tested before
presence. -/
def engineSpec (c : Codes) : Spec Store KvsOp KvsRes
  | m, .set k v =>
    if c.full m.size then (.code (-1), m)
    else if k ∈ m then (.code 1, m)
    else (.code 0, m.insert k v)
  | m, .get k => (.value (m.lookup k), m)
  | m, .del k => if k ∈ m then (.code 0, m.erase k) else (.code (c.delMiss m.size), m)
  | m, .mod k v => if k ∈ m then (.code 0, m.insert k v) else (.code (c.modMiss m.size), m)
  | m, .exist k => (.code (if k ∈ m then 0 else 1), m)

/-- The codes the interface means: no capacity, and `1` for a miss. -/
def Codes.plain : Codes := ⟨fun _ => false, fun _ => 1, fun _ => 1⟩

/-- With the interface's codes the engine's map is the map. -/
theorem engineSpec_plain : engineSpec Codes.plain = mapSpec := by
  funext m op
  cases op <;> rfl

/-- Whatever the codes, a call that answers a miss leaves the map as it is,
so the abstract state does not depend on the codes but through capacity. -/
theorem engineSpec_snd {c : Codes} {m : Store} (hfull : c.full m.size = false) (op : KvsOp) :
    (engineSpec c m op).2 = (mapSpec m op).2 := by
  cases op with
  | set k v =>
    simp only [engineSpec, mapSpec, hfull, Bool.false_eq_true, if_false]
  | get k => rfl
  | del k =>
    simp only [engineSpec, mapSpec]
    split <;> rfl
  | mod k v =>
    simp only [engineSpec, mapSpec]
    split <;> rfl
  | exist k => rfl

/-! ## Items -/

/-- **An entry of an engine**: the pointers a node keeps and the strings they
point to. -/
structure Item where
  /-- The node's `key` field. -/
  key : Ptr
  /-- The node's `value` field. -/
  value : Ptr
  /-- The string at `key`. -/
  k : CString
  /-- The string at `value`. -/
  v : CString

/-- The two strings an entry owns. -/
def Item.ptrs (it : Item) : List Ptr := [it.key, it.value]

/-- **The entries own their strings**: each pointer is to a live string, and
no string is shared. -/
structure Owns (strs : Heap CString) (items : List Item) : Prop where
  key_load : ∀ it ∈ items, strs.load it.key = some it.k
  value_load : ∀ it ∈ items, strs.load it.value = some it.v
  nodup : (items.flatMap Item.ptrs).Nodup

namespace Owns

variable {strs : Heap CString} {items items' : List Item} {it : Item}

theorem nil (strs : Heap CString) : Owns strs [] :=
  ⟨fun _ h => absurd h List.not_mem_nil, fun _ h => absurd h List.not_mem_nil, List.nodup_nil⟩

/-- Ownership does not depend on the order of the entries. -/
theorem perm (h : Owns strs items) (hp : items.Perm items') : Owns strs items' where
  key_load := fun it hit => h.key_load it (hp.mem_iff.mpr hit)
  value_load := fun it hit => h.value_load it (hp.mem_iff.mpr hit)
  nodup := (hp.flatMap_right Item.ptrs).nodup_iff.mp h.nodup

/-- A pointer of an entry is live. -/
theorem load_isSome (h : Owns strs items) {p : Ptr} (hp : p ∈ items.flatMap Item.ptrs) :
    ∃ s, strs.load p = some s := by
  obtain ⟨it, hit, hp⟩ := List.mem_flatMap.mp hp
  rcases List.mem_cons.mp hp with rfl | hp
  · exact ⟨it.k, h.key_load it hit⟩
  · rw [List.mem_singleton.mp hp]
    exact ⟨it.v, h.value_load it hit⟩

theorem nodup_cons (h : Owns strs (it :: items)) :
    it.key ≠ it.value ∧ it.key ∉ items.flatMap Item.ptrs ∧ it.value ∉ items.flatMap Item.ptrs
      ∧ (items.flatMap Item.ptrs).Nodup := by
  have hnd : (it.key :: it.value :: items.flatMap Item.ptrs).Nodup := h.nodup
  obtain ⟨hk, hnd⟩ := List.nodup_cons.mp hnd
  obtain ⟨hv, hnd⟩ := List.nodup_cons.mp hnd
  exact ⟨fun he => hk (he ▸ List.mem_cons_self), fun hm => hk (List.mem_cons_of_mem _ hm), hv, hnd⟩

/-- Entries keep owning their strings in a memory that agrees on them. -/
theorem congr {strs' : Heap CString} (h : Owns strs items)
    (hagree : ∀ p ∈ items.flatMap Item.ptrs, strs'.load p = strs.load p) : Owns strs' items where
  key_load := fun it hit => by
    rw [hagree it.key (List.mem_flatMap.mpr ⟨it, hit, List.mem_cons_self⟩)]
    exact h.key_load it hit
  value_load := fun it hit => by
    rw [hagree it.value (List.mem_flatMap.mpr ⟨it, hit, by simp [Item.ptrs]⟩)]
    exact h.value_load it hit
  nodup := h.nodup

/-- **One more entry**, the way an entry is put together: its strings are
live and no other entry has them. -/
theorem cons (h : Owns strs items) (hk : strs.load it.key = some it.k)
    (hv : strs.load it.value = some it.v) (hne : it.key ≠ it.value)
    (hkn : it.key ∉ items.flatMap Item.ptrs) (hvn : it.value ∉ items.flatMap Item.ptrs) :
    Owns strs (it :: items) where
  key_load := fun it' hit => by
    rcases List.mem_cons.mp hit with rfl | hit
    · exact hk
    · exact h.key_load it' hit
  value_load := fun it' hit => by
    rcases List.mem_cons.mp hit with rfl | hit
    · exact hv
    · exact h.value_load it' hit
  nodup := by
    show (it.key :: it.value :: items.flatMap Item.ptrs).Nodup
    refine List.nodup_cons.mpr ⟨?_, List.nodup_cons.mpr ⟨hvn, h.nodup⟩⟩
    intro hm
    rcases List.mem_cons.mp hm with he | hm
    · exact hne he
    · exact hkn hm

theorem of_cons (h : Owns strs (it :: items)) : Owns strs items where
  key_load := fun it' hit => h.key_load it' (List.mem_cons_of_mem it hit)
  value_load := fun it' hit => h.value_load it' (List.mem_cons_of_mem it hit)
  nodup := h.nodup_cons.2.2.2

/-- The next address is nobody's. -/
theorem next_notMem (h : Owns strs items) : strs.next ∉ items.flatMap Item.ptrs := by
  intro hm
  obtain ⟨s, hs⟩ := h.load_isSome hm
  exact Heap.ne_next_of_load hs rfl

/-- An allocation disturbs no entry. -/
theorem alloc (h : Owns strs items) (s : CString) : Owns (strs.alloc s) items :=
  h.congr (fun p hp => by
    obtain ⟨t, ht⟩ := h.load_isSome hp
    rw [Heap.load_alloc_of_load s ht, ht])

/-- Freeing a string nobody has disturbs no entry. -/
theorem erase (h : Owns strs items) {p : Ptr} (hp : p ∉ items.flatMap Item.ptrs) :
    Owns (strs.erase p) items :=
  h.congr (fun q hq => by
    have hne : q ≠ p := fun he => hp (he ▸ hq)
    rw [Heap.load_erase, if_neg hne])

/-- **Copying a key and a value** makes an entry. -/
theorem alloc_item (h : Owns strs items) (k v : CString) :
    Owns ((strs.alloc k).alloc v) (⟨strs.next, (strs.alloc k).next, k, v⟩ :: items) := by
  have h₁ := h.alloc k
  refine (h₁.alloc v).cons ?_ ?_ ?_ h.next_notMem h₁.next_notMem
  · exact Heap.load_alloc_of_load v (by simp)
  · simp
  · simp

/-- **Freeing an entry's key and value** leaves the others. -/
theorem free_item (h : Owns strs (it :: items)) :
    strs.free it.key = some (strs.erase it.key)
      ∧ (strs.erase it.key).free it.value = some ((strs.erase it.key).erase it.value)
      ∧ Owns ((strs.erase it.key).erase it.value) items := by
  obtain ⟨hne, hk, hv, -⟩ := h.nodup_cons
  have hkl := h.key_load it List.mem_cons_self
  have hvl := h.value_load it List.mem_cons_self
  refine ⟨Heap.free_of_load hkl, Heap.free_of_load (v := it.v) ?_, (h.of_cons.erase hk).erase hv⟩
  rw [Heap.load_erase, if_neg hne.symm, hvl]

/-- **Replacing an entry's value**, the old one freed first. -/
theorem replace_value (h : Owns strs (it :: items)) (v : CString) :
    strs.free it.value = some (strs.erase it.value)
      ∧ Owns ((strs.erase it.value).alloc v)
          ({ it with value := (strs.erase it.value).next, v := v } :: items) := by
  obtain ⟨hne, hk, hv, -⟩ := h.nodup_cons
  have hkl := h.key_load it List.mem_cons_self
  have hkl' : (strs.erase it.value).load it.key = some it.k := by
    rw [Heap.load_erase, if_neg hne, hkl]
  have h₁ := h.of_cons.erase hv
  refine ⟨Heap.free_of_load (h.value_load it List.mem_cons_self),
    (h₁.alloc v).cons ?_ ?_ ?_ hk h₁.next_notMem⟩
  · exact Heap.load_alloc_of_load v hkl'
  · simp
  · exact Heap.ne_next_of_load hkl'

/-- **Replacing an entry's value**, the new one allocated first. -/
theorem replace_value_alloc_first (h : Owns strs (it :: items)) (v : CString) :
    (strs.alloc v).free it.value = some ((strs.alloc v).erase it.value)
      ∧ Owns ((strs.alloc v).erase it.value)
          ({ it with value := strs.next, v := v } :: items) := by
  have hvl := h.value_load it List.mem_cons_self
  refine ⟨Heap.free_of_load (Heap.load_alloc_of_load v hvl),
    (h.replace_value v).2.congr (fun p _ => ?_)⟩
  have hne := Heap.ne_next_of_load hvl
  by_cases hp : p = it.value
  · subst hp
    simp [hne]
  · simp [hp]

end Owns

/-! ## The map of a sequence of items -/

/-- **The map a sequence of entries amounts to.** -/
def storeOf (items : List Item) : Store :=
  (items.map (fun it => (⟨it.k, it.v⟩ : Sigma (fun _ : CString => CString)))).toFinmap

/-- The keys of a sequence of entries. -/
def keysOf (items : List Item) : List CString := items.map Item.k

theorem storeOf_cons (it : Item) (items : List Item) :
    storeOf (it :: items) = (storeOf items).insert it.k it.v :=
  Finmap.toFinmap_cons _ _ _

theorem mem_storeOf {k : CString} {items : List Item} : k ∈ storeOf items ↔ k ∈ keysOf items := by
  induction items with
  | nil => exact iff_of_false Finmap.notMem_empty List.not_mem_nil
  | cons it items ih =>
    rw [storeOf_cons, Finmap.mem_insert, ih]
    simp [keysOf]

theorem lookup_storeOf_of_notMem {k : CString} {items : List Item} (h : k ∉ keysOf items) :
    (storeOf items).lookup k = none :=
  Finmap.lookup_eq_none.mpr (fun hm => h (mem_storeOf.mp hm))

/-- An entry's key is mapped to its value, when no other entry has the key. -/
theorem lookup_storeOf {items : List Item} (hnd : (keysOf items).Nodup) {it : Item}
    (hit : it ∈ items) : (storeOf items).lookup it.k = some it.v := by
  induction items with
  | nil => cases hit
  | cons x items ih =>
    obtain ⟨hx, hnd'⟩ := List.nodup_cons.mp hnd
    rw [storeOf_cons]
    rcases List.mem_cons.mp hit with rfl | hit
    · exact Finmap.lookup_insert _
    · have hne : it.k ≠ x.k := fun he => hx (he ▸ List.mem_map_of_mem hit)
      rw [Finmap.lookup_insert_of_ne _ hne]
      exact ih hnd' hit

/-- The map does not depend on the order of the entries. -/
theorem storeOf_perm {items items' : List Item} (hnd : (keysOf items).Nodup)
    (hp : items.Perm items') : storeOf items = storeOf items' := by
  have hnd' : (keysOf items').Nodup := (hp.map Item.k).nodup_iff.mp hnd
  refine Finmap.ext_lookup (fun k => ?_)
  by_cases hk : k ∈ keysOf items
  · obtain ⟨it, hit, rfl⟩ := List.mem_map.mp hk
    rw [lookup_storeOf hnd hit, lookup_storeOf hnd' (hp.mem_iff.mp hit)]
  · have hk' : k ∉ keysOf items' := fun h => hk ((hp.map Item.k).mem_iff.mpr h)
    rw [lookup_storeOf_of_notMem hk, lookup_storeOf_of_notMem hk']

/-- The map has as many keys as there are entries. -/
theorem size_storeOf {items : List Item} (hnd : (keysOf items).Nodup) :
    (storeOf items).size = items.length := by
  have hkeys : (storeOf items).keys = (keysOf items).toFinset := by
    ext k
    rw [Finmap.mem_keys, mem_storeOf, List.mem_toFinset]
  rw [Store.size, hkeys, List.toFinset_card_of_nodup hnd, keysOf, List.length_map]

section Middle

variable {xs ys : List Item} {it : Item}

theorem keysOf_append (xs ys : List Item) : keysOf (xs ++ ys) = keysOf xs ++ keysOf ys :=
  List.map_append

theorem keysOf_cons (it : Item) (xs : List Item) : keysOf (it :: xs) = it.k :: keysOf xs := rfl

/-- Bringing a middle entry to the front. -/
theorem storeOf_middle (hnd : (keysOf (xs ++ it :: ys)).Nodup) :
    storeOf (xs ++ it :: ys) = (storeOf (xs ++ ys)).insert it.k it.v := by
  rw [storeOf_perm hnd List.perm_middle, storeOf_cons]

theorem nodup_keysOf_middle :
    (keysOf (xs ++ it :: ys)).Nodup ↔ it.k ∉ keysOf (xs ++ ys) ∧ (keysOf (xs ++ ys)).Nodup := by
  rw [keysOf_append, keysOf_cons, List.nodup_middle, ← keysOf_append, List.nodup_cons]

/-- **Removing an entry** erases its key. -/
theorem storeOf_remove (hnd : (keysOf (xs ++ it :: ys)).Nodup) :
    storeOf (xs ++ ys) = (storeOf (xs ++ it :: ys)).erase it.k := by
  obtain ⟨hk, -⟩ := nodup_keysOf_middle.mp hnd
  rw [storeOf_middle hnd]
  refine Finmap.ext_lookup (fun k => ?_)
  by_cases hkk : k = it.k
  · subst hkk
    rw [Finmap.lookup_erase, lookup_storeOf_of_notMem hk]
  · rw [Finmap.lookup_erase_ne hkk, Finmap.lookup_insert_of_ne _ hkk]

/-- **Replacing an entry** by one with the same key maps the key to the new
value. -/
theorem storeOf_replace {it' : Item} (hk : it'.k = it.k)
    (hnd : (keysOf (xs ++ it :: ys)).Nodup) :
    storeOf (xs ++ it' :: ys) = (storeOf (xs ++ it :: ys)).insert it.k it'.v := by
  have hnd' : (keysOf (xs ++ it' :: ys)).Nodup := by
    rw [nodup_keysOf_middle, hk]
    exact nodup_keysOf_middle.mp hnd
  rw [storeOf_middle hnd, storeOf_middle hnd', hk, Finmap.insert_insert]

/-- **Entries with distinct keys split in one way at a key.** -/
theorem split_unique {xs' ys' : List Item} {it' : Item} (hnd : (keysOf (xs ++ it :: ys)).Nodup)
    (heq : xs ++ it :: ys = xs' ++ it' :: ys') (hk : it.k = it'.k) :
    xs = xs' ∧ it = it' ∧ ys = ys' := by
  obtain ⟨hnot, -⟩ := nodup_keysOf_middle.mp hnd
  have hsides : it' ∉ xs ++ ys := fun hm => hnot (hk ▸ List.mem_map_of_mem hm)
  exact (List.append_cons_inj_of_notMem (fun hm => hsides (List.mem_append_left _ hm))
    (fun hm => hsides (List.mem_append_right _ hm))).mp heq

end Middle

/-! ## Engines that implement the map -/

/-- A stored key splits the entries at its own. -/
theorem exists_split_of_mem_keysOf {k : CString} {items : List Item} (h : k ∈ keysOf items) :
    ∃ xs it ys, items = xs ++ it :: ys ∧ it.k = k := by
  obtain ⟨it, hit, rfl⟩ := List.mem_map.mp h
  obtain ⟨xs, ys, rfl⟩ := List.append_of_mem hit
  exact ⟨xs, it, ys, rfl, rfl⟩

/-- An engine on calls all of whose allocations succeed; what remains open is
what `rand` returns. -/
def KvsOps.healthy {E : Type} (ops : KvsOps E) : Machine E (KvsOp × (ℕ → Bool)) KvsRes :=
  fun s i => ops.machine s (i.1, Env.healthy i.2)

/-- **An engine implements the map, with codes `c`**: in a state whose
entries are `items` – which is what `Inv` relates – each operation returns
its code and changes the entries as the map changes. Each field is the
specification of one operation of the engine. -/
structure Implements {E : Type} (ops : KvsOps E) (Inv : E → List Item → Prop) (c : Codes) :
    Prop where
  owns : ∀ {s items}, Inv s items → Owns (ops.strs s) items
  nodup : ∀ {s items}, Inv s items → (keysOf items).Nodup
  get_hit : ∀ {s items it}, Inv s items → it ∈ items → ops.get s (some it.k) = some it.value
  get_miss : ∀ {s items k}, Inv s items → k ∉ keysOf items → ops.get s (some k) = some 0
  set_full : ∀ {s items k v r}, Inv s items → c.full items.length = true →
    ops.set s (some k) (some v) (Env.healthy r) = some (-1, s)
  set_hit : ∀ {s items k v r}, Inv s items → c.full items.length = false →
    k ∈ keysOf items → ops.set s (some k) (some v) (Env.healthy r) = some (1, s)
  set_new : ∀ {s items k v r}, Inv s items → c.full items.length = false →
    k ∉ keysOf items → ∃ s' xs it ys, ops.set s (some k) (some v) (Env.healthy r)
      = some (0, s') ∧ Inv s' (xs ++ it :: ys) ∧ items = xs ++ ys ∧ it.k = k ∧ it.v = v
  del_hit : ∀ {s xs it ys}, Inv s (xs ++ it :: ys) →
    ∃ s', ops.del s (some it.k) = some (0, s') ∧ Inv s' (xs ++ ys)
  del_miss : ∀ {s items k}, Inv s items → k ∉ keysOf items →
    ops.del s (some k) = some (c.delMiss items.length, s)
  mod_hit : ∀ {s xs it ys v r}, Inv s (xs ++ it :: ys) →
    ∃ s' it', ops.mod s (some it.k) (some v) (Env.healthy r) = some (0, s')
      ∧ Inv s' (xs ++ it' :: ys) ∧ it'.k = it.k ∧ it'.v = v
  mod_miss : ∀ {s items k v r}, Inv s items → k ∉ keysOf items →
    ops.mod s (some k) (some v) (Env.healthy r) = some (c.modMiss items.length, s)
  exist_hit : ∀ {s items k}, Inv s items → k ∈ keysOf items → ops.exist s (some k) = some 0
  exist_miss : ∀ {s items k}, Inv s items → k ∉ keysOf items → ops.exist s (some k) = some 1

/-- The engine holds the entries of the map. -/
def Represents {E : Type} (Inv : E → List Item → Prop) (s : E) (m : Store) : Prop :=
  ∃ items, Inv s items ∧ m = storeOf items

namespace Implements

variable {E : Type} {ops : KvsOps E} {Inv : E → List Item → Prop} {c : Codes}

/-- **An engine that implements the map simulates it.** -/
theorem simulates (h : Implements ops Inv c) :
    Simulates ops.healthy (engineSpec c) Prod.fst (fun _ _ => True) (Represents Inv) := by
  rintro s m ⟨op, rand⟩ ⟨items, hI, rfl⟩ -
  have hsize := size_storeOf (h.nodup hI)
  cases op with
  | set k v =>
    simp only [KvsOps.healthy, KvsOps.machine, engineSpec, hsize, mem_storeOf]
    by_cases hfull : c.full items.length = true
    · rw [h.set_full hI hfull, if_pos hfull]
      exact ⟨s, rfl, items, hI, rfl⟩
    have hroom : c.full items.length = false := by simpa using hfull
    rw [if_neg hfull]
    by_cases hk : k ∈ keysOf items
    · rw [h.set_hit hI hroom hk, if_pos hk]
      exact ⟨s, rfl, items, hI, rfl⟩
    · obtain ⟨s', xs, it, ys, hset, hI', rfl, rfl, rfl⟩ := h.set_new (v := v) (r := rand) hI hroom hk
      rw [hset, if_neg hk]
      exact ⟨s', rfl, _, hI', (storeOf_middle (h.nodup hI')).symm⟩
  | get k =>
    simp only [KvsOps.healthy, KvsOps.machine, engineSpec]
    by_cases hk : k ∈ keysOf items
    · obtain ⟨it, hit, rfl⟩ := List.mem_map.mp hk
      have hload := (h.owns hI).value_load it hit
      rw [h.get_hit hI hit, lookup_storeOf (h.nodup hI) hit]
      refine ⟨s, ?_, items, hI, rfl⟩
      simp [Heap.ne_null_of_load hload, hload]
    · rw [h.get_miss hI hk, lookup_storeOf_of_notMem hk]
      exact ⟨s, rfl, items, hI, rfl⟩
  | del k =>
    simp only [KvsOps.healthy, KvsOps.machine, engineSpec, hsize, mem_storeOf]
    by_cases hk : k ∈ keysOf items
    · obtain ⟨xs, it, ys, rfl, rfl⟩ := exists_split_of_mem_keysOf hk
      obtain ⟨s', hdel, hI'⟩ := h.del_hit hI
      rw [hdel, if_pos hk]
      exact ⟨s', rfl, _, hI', (storeOf_remove (h.nodup hI)).symm⟩
    · rw [h.del_miss hI hk, if_neg hk]
      exact ⟨s, rfl, items, hI, rfl⟩
  | mod k v =>
    simp only [KvsOps.healthy, KvsOps.machine, engineSpec, hsize, mem_storeOf]
    by_cases hk : k ∈ keysOf items
    · obtain ⟨xs, it, ys, rfl, rfl⟩ := exists_split_of_mem_keysOf hk
      obtain ⟨s', it', hmod, hI', hk', rfl⟩ := h.mod_hit (v := v) (r := rand) hI
      rw [hmod, if_pos hk]
      exact ⟨s', rfl, _, hI', (storeOf_replace hk' (h.nodup hI)).symm⟩
    · rw [h.mod_miss hI hk, if_neg hk]
      exact ⟨s, rfl, items, hI, rfl⟩
  | exist k =>
    simp only [KvsOps.healthy, KvsOps.machine, engineSpec, mem_storeOf]
    by_cases hk : k ∈ keysOf items
    · rw [h.exist_hit hI hk, if_pos hk]
      exact ⟨s, rfl, items, hI, rfl⟩
    · rw [h.exist_miss hI hk, if_neg hk]
      exact ⟨s, rfl, items, hI, rfl⟩

/-- **Runs of an engine that implements the map**, from an empty store. -/
theorem run (h : Implements ops Inv c) {s : E} (hI : Inv s []) (is : List (KvsOp × (ℕ → Bool))) :
    ∃ s', ops.healthy.run s is = some (((engineSpec c).run ∅ (is.map Prod.fst)).1, s')
      ∧ Represents Inv s' ((engineSpec c).run ∅ (is.map Prod.fst)).2 :=
  h.simulates.run ⟨[], hI, rfl⟩ (Spec.Along.of_forall (fun _ _ => trivial) _ _)

end Implements
