import LinuxLearn.KvsHash

/-!
# The invariant of the hash table

The nodes of a hash table are given by the lists `B i` of the nodes on the
chain of each bucket, and all of them in a row by `allOf B`. What does not
depend on the links – that the nodes are live, own their strings, have
distinct keys and are counted – is `Entries`, a statement about the nodes
in any order; the invariant `Inv` adds the chains, and that every node is
in the bucket its key hashes to.

Every operation changes one bucket. `Inv.replace` is the frame rule for
that: the other buckets are unchanged because their nodes have keys that
hash elsewhere.
-/

namespace KvsHash

/-! ## Buckets -/

/-- The bucket of a key, as an index. -/
def slotOf (key : CString) : ℕ := (KvsHash.hash (some key) MAX_TABLE_SIZE).toNat

theorem hash_eq (key : CString) : KvsHash.hash (some key) MAX_TABLE_SIZE = slotOf key := rfl

theorem slotOf_lt (key : CString) : slotOf key < MAX_TABLE_SIZE :=
  Nat.mod_lt _ (by decide)

/-- The members of all buckets, in the order of the table. -/
@[irreducible] def allOf {α : Type} (B : ℕ → List α) : List α := (List.range MAX_TABLE_SIZE).flatMap B

section AllOf

variable {α : Type} {B : ℕ → List α} {i : ℕ} {x : α}

theorem mem_allOf : x ∈ allOf B ↔ ∃ i < MAX_TABLE_SIZE, x ∈ B i := by
  unfold allOf
  rw [List.mem_flatMap]
  simp only [List.mem_range]

theorem allOf_nil : allOf (fun _ => ([] : List α)) = [] :=
  List.eq_nil_iff_forall_not_mem.mpr (fun _ hx => by
    obtain ⟨_, -, hx⟩ := mem_allOf.mp hx
    cases hx)

theorem mem_allOf_of_mem (hi : i < MAX_TABLE_SIZE) (hx : x ∈ B i) : x ∈ allOf B :=
  mem_allOf.mpr ⟨i, hi, hx⟩

/-- **Changing part of one bucket** changes that part of the whole. -/
theorem exists_allOf_update (B : ℕ → List α) (hi : i < MAX_TABLE_SIZE) (us vs : List α) :
    ∃ xs ys, ∀ zs, allOf (Function.update B i (us ++ zs ++ vs)) = xs ++ zs ++ ys := by
  -- the buckets before and after the changed one stay as they are
  obtain ⟨n, hn⟩ := Nat.exists_eq_add_of_lt hi
  have hrange : List.range MAX_TABLE_SIZE = List.range i ++ i :: List.range' (i + 1) n := by
    rw [hn, show i + n + 1 = i + (n + 1) by omega, List.range_eq_range', List.range_eq_range',
      ← List.range'_append_1, Nat.zero_add, List.range'_succ]
  refine ⟨(List.range i).flatMap B ++ us, vs ++ (List.range' (i + 1) n).flatMap B, fun zs => ?_⟩
  have hpre : (List.range i).flatMap (Function.update B i (us ++ zs ++ vs))
      = (List.range i).flatMap B :=
    List.flatMap_congr (fun j hj => Function.update_of_ne (List.mem_range.mp hj).ne _ _)
  have hpost : (List.range' (i + 1) n).flatMap (Function.update B i (us ++ zs ++ vs))
      = (List.range' (i + 1) n).flatMap B :=
    List.flatMap_congr (fun j hj => by
      have hlt := (List.mem_range'_1.mp hj).1
      exact Function.update_of_ne (by omega) _ _)
  unfold allOf
  rw [hrange, List.flatMap_append, List.flatMap_cons, hpre, hpost, Function.update_self]
  simp only [List.append_assoc]

/-- The same, with what the part was before. -/
theorem exists_allOf_split {us zs vs : List α} (hi : i < MAX_TABLE_SIZE)
    (hB : B i = us ++ zs ++ vs) :
    ∃ xs ys, allOf B = xs ++ zs ++ ys
      ∧ ∀ zs', allOf (Function.update B i (us ++ zs' ++ vs)) = xs ++ zs' ++ ys := by
  obtain ⟨xs, ys, h⟩ := exists_allOf_update B hi us vs
  refine ⟨xs, ys, ?_, h⟩
  rw [← h zs, ← hB, Function.update_eq_self]

theorem sublist_allOf (hi : i < MAX_TABLE_SIZE) : (B i).Sublist (allOf B) := by
  obtain ⟨xs, ys, h, -⟩ := exists_allOf_split hi (show B i = [] ++ B i ++ [] by simp)
  rw [h]
  exact (List.sublist_append_right xs (B i)).trans (List.sublist_append_left _ ys)

end AllOf

/-! ## Writing buckets and links -/

section Writes

variable {hash : KvsHash} {i : ℕ} {p q r : Ptr} {n : HashNode}

/-- The table with one bucket replaced, where there is one. -/
def putBucket (hash : KvsHash) (i : ℕ) (p : Ptr) : KvsHash :=
  { hash with nodes := hash.nodes.map (fun nodes => nodes.setIfInBounds i p) }

/-- The table with one link changed, where there is one. -/
def putNext (hash : KvsHash) (p q : Ptr) : KvsHash :=
  { hash with mem := hash.mem.update p (fun node => { node with next := q }) }

theorem bucket_natCast (hash : KvsHash) (i : ℕ) :
    hash.bucket i = hash.nodes.bind (fun nodes => nodes[i]?) := by
  unfold bucket
  simp

theorem setBucket_eq (hi : i < MAX_TABLE_SIZE) (hb : hash.bucket i = some q) :
    hash.setBucket i p = some (hash.putBucket i p) := by
  unfold bucket at hb
  obtain ⟨nodes, hn, -⟩ := Option.bind_eq_some_iff.mp hb
  unfold setBucket putBucket
  simp [hn, hi]

theorem bucket_putBucket (hi : i < MAX_TABLE_SIZE) (hb : hash.bucket i = some q) (j : ℕ) :
    (hash.putBucket i p).bucket j = if j = i then some p else hash.bucket j := by
  unfold bucket at hb
  obtain ⟨nodes, hn, -⟩ := Option.bind_eq_some_iff.mp hb
  rw [bucket_natCast, bucket_natCast]
  simp [putBucket, hn, Vector.getElem?_setIfInBounds, hi, eq_comm]

theorem setNext_eq (hp : hash.mem.load p = some n) :
    hash.setNext p q = some (hash.putNext p q) := by
  unfold setNext
  simp [Heap.modify_of_load _ hp, putNext]

theorem nextOf_of_load (hp : hash.mem.load p = some n) : hash.nextOf p = some n.next := by
  unfold nextOf
  simp [hp]

theorem nextOf_congr {hash' : KvsHash} (h : hash'.mem.load p = hash.mem.load p) :
    hash'.nextOf p = hash.nextOf p := by
  unfold nextOf
  rw [h]

end Writes

/-! ## The invariant -/

/-- A node of the table: its address and its entry. -/
structure HashEntry where
  addr : Ptr
  item : Item

/-- **The nodes are where the entries say**, in whatever order: their keys are
distinct, their strings are their own, and the table counts them. -/
structure Entries (hash : KvsHash) (L : List HashEntry) : Prop where
  cell : ∀ e ∈ L, ∃ n, hash.mem.load e.addr = some ⟨e.item.key, e.item.value, n⟩
  nodup_addr : (L.map HashEntry.addr).Nodup
  nodup : (keysOf (L.map HashEntry.item)).Nodup
  owns : Owns hash.strs (L.map HashEntry.item)
  count_eq : hash.count = L.length

/-- **The invariant of the hash table**, for the nodes of its buckets. -/
structure Inv (hash : KvsHash) (B : ℕ → List HashEntry) : Prop
    extends Entries hash (allOf B) where
  linked : ∀ i < MAX_TABLE_SIZE,
    ∃ p, hash.bucket i = some p ∧ Linked hash.nextOf p ((B i).map HashEntry.addr)
  placed : ∀ i < MAX_TABLE_SIZE, ∀ e ∈ B i, slotOf e.item.k = i

theorem Entries.perm {hash : KvsHash} {L L' : List HashEntry} (h : Entries hash L)
    (hp : L'.Perm L) : Entries hash L' where
  cell := fun e he => h.cell e (hp.mem_iff.mp he)
  nodup_addr := (hp.map HashEntry.addr).nodup_iff.mpr h.nodup_addr
  nodup := ((hp.map HashEntry.item).map Item.k).nodup_iff.mpr h.nodup
  owns := h.owns.perm (hp.map HashEntry.item).symm
  count_eq := by rw [h.count_eq, hp.length_eq]

/-- **Dropping a node**: the others keep their keys and values, whatever their
links. -/
theorem Entries.tail {hash hash' : KvsHash} {L : List HashEntry} {e : HashEntry}
    (h : Entries hash (e :: L))
    (hcell : ∀ x ∈ L, ∀ n, hash.mem.load x.addr = some n →
      ∃ m, hash'.mem.load x.addr = some { n with next := m })
    (hstrs : hash'.strs = (hash.strs.erase e.item.key).erase e.item.value)
    (hcount : hash'.count = hash.count - 1) : Entries hash' L where
  cell := fun x hx => by
    obtain ⟨n, hn⟩ := h.cell x (List.mem_cons_of_mem e hx)
    exact hcell x hx _ hn
  nodup_addr := (List.nodup_cons.mp h.nodup_addr).2
  nodup := (List.nodup_cons.mp h.nodup).2
  owns := hstrs ▸ h.owns.free_item.2.2
  count_eq := by
    rw [hcount, h.count_eq, List.length_cons]
    simp

namespace Inv

variable {hash hash' : KvsHash} {B : ℕ → List HashEntry} {us vs : List HashEntry}
  {e e' : HashEntry} {key : CString} {p : Ptr}

theorem keyAt (h : Inv hash B) (he : e ∈ allOf B) : hash.keyAt e.addr = some e.item.k := by
  obtain ⟨n, hn⟩ := h.cell e he
  unfold KvsHash.keyAt
  simp [hn, h.owns.key_load e.item (List.mem_map_of_mem he)]

/-- The walk along a chain of the table has fuel enough. -/
theorem length_lt (h : Inv hash B) {i : ℕ} (hi : i < MAX_TABLE_SIZE) :
    (B i).length < hash.mem.next := by
  have hlen := Heap.length_lt_next h.nodup_addr (fun p hp => by
    obtain ⟨e, he, rfl⟩ := List.mem_map.mp hp
    obtain ⟨n, hn⟩ := h.cell e he
    rw [hn]
    rfl)
  have hle := (sublist_allOf (B := B) hi).length_le
  rw [List.length_map] at hlen
  omega

/-- An entry is in the bucket of its key. -/
theorem mem_bucket (h : Inv hash B) (he : e ∈ allOf B) : e ∈ B (slotOf e.item.k) := by
  obtain ⟨i, hi, he⟩ := mem_allOf.mp he
  rw [h.placed i hi e he]
  exact he

/-- **The loop stops at the first node with the key.** -/
theorem find_eq (h : Inv hash B) (hB : B (slotOf key) = us ++ vs)
    (hus : ∀ e ∈ us, e.item.k ≠ key) (hvs : ∀ e ∈ vs.head?, e.item.k = key) :
    ∃ p, hash.bucket (KvsHash.hash (some key) MAX_TABLE_SIZE) = some p
      ∧ kvsHashFind hash key p = some ((vs.map HashEntry.addr).headD 0) := by
  obtain ⟨p, hp, hlinked⟩ := h.linked _ (slotOf_lt key)
  have hlen := h.length_lt (slotOf_lt key)
  have hmem : ∀ e ∈ us ++ vs, e ∈ allOf B := fun e he =>
    mem_allOf_of_mem (slotOf_lt key) (hB ▸ he)
  rw [hB, List.length_append] at hlen
  rw [hB, List.map_append] at hlinked
  refine ⟨p, hp, seek_eq hlinked ?_ (fun q hq => ?_) (fun q hq => ?_)⟩
  · rw [List.length_map]
    omega
  · obtain ⟨e, he, rfl⟩ := List.mem_map.mp hq
    rw [h.keyAt (hmem e (List.mem_append_left vs he))]
    simpa [strcmp_eq_zero] using hus e he
  · cases vs with
    | nil => cases hq
    | cons e vs =>
      obtain rfl : e.addr = q := Option.some.inj hq
      rw [h.keyAt (hmem e (by simp))]
      simpa [strcmp_eq_zero] using hvs e rfl

theorem nodup_bucket (h : Inv hash B) {i : ℕ} (hi : i < MAX_TABLE_SIZE) :
    ((B i).map HashEntry.addr).Nodup :=
  h.nodup_addr.sublist ((sublist_allOf hi).map HashEntry.addr)

/-- The other nodes of a bucket are at other addresses. -/
theorem addr_ne_of_split (h : Inv hash B) {i : ℕ} (hi : i < MAX_TABLE_SIZE)
    (hB : B i = us ++ [e] ++ vs) : ∀ x ∈ us ++ vs, x.addr ≠ e.addr := by
  have hperm : (B i).Perm (e :: (us ++ vs)) := by
    rw [hB]
    simp
  have hnd := (hperm.map HashEntry.addr).nodup_iff.mp (h.nodup_bucket hi)
  rw [List.map_cons, List.nodup_cons] at hnd
  exact fun x hx heq => hnd.1 (heq ▸ List.mem_map_of_mem hx)

/-- Nodes at one address are one node. -/
theorem addr_inj (h : Inv hash B) (he : e ∈ allOf B) (he' : e' ∈ allOf B)
    (heq : e.addr = e'.addr) : e = e' :=
  List.inj_on_of_nodup_map h.nodup_addr he he' heq

/-- Nodes with one key are one node. -/
theorem key_inj (h : Inv hash B) (he : e ∈ allOf B) (he' : e' ∈ allOf B)
    (heq : e.item.k = e'.item.k) : e = e' := by
  have hnd : ((allOf B).map (fun e => e.item.k)).Nodup := by
    have hkeys := h.nodup
    unfold keysOf at hkeys
    rwa [List.map_map] at hkeys
  exact List.inj_on_of_nodup_map hnd he he' heq

/-- A node splits the chain of its bucket, and no node before it has its
key. -/
theorem exists_bucket_split (h : Inv hash B) (he : e ∈ allOf B) :
    ∃ us vs, B (slotOf e.item.k) = us ++ [e] ++ vs ∧ ∀ x ∈ us, x.item.k ≠ e.item.k := by
  obtain ⟨us, vs, hB, hus⟩ := List.eq_append_cons_of_mem (h.mem_bucket he)
  refine ⟨us, vs, by simpa using hB, fun x hx hk => hus ?_⟩
  have hxB : x ∈ allOf B := mem_allOf_of_mem (slotOf_lt e.item.k) (by simp [hB, hx])
  rw [← h.key_inj hxB he hk]
  exact hx

theorem find_hit (h : Inv hash B) (he : e ∈ allOf B) :
    ∃ p, hash.bucket (KvsHash.hash (some e.item.k) MAX_TABLE_SIZE) = some p
      ∧ kvsHashFind hash e.item.k p = some e.addr := by
  obtain ⟨us, vs, hB, hus⟩ := h.exists_bucket_split he
  rw [List.append_assoc] at hB
  exact h.find_eq hB hus (by simp)

theorem find_miss (h : Inv hash B) (hk : ∀ e ∈ allOf B, e.item.k ≠ key) :
    ∃ p, hash.bucket (KvsHash.hash (some key) MAX_TABLE_SIZE) = some p
      ∧ kvsHashFind hash key p = some 0 :=
  h.find_eq (List.append_nil _).symm
    (fun e he => hk e (mem_allOf_of_mem (slotOf_lt key) he)) (by simp)

theorem addr_ne_null (h : Inv hash B) (he : e ∈ allOf B) : e.addr ≠ 0 := by
  obtain ⟨n, hn⟩ := h.cell e he
  exact Heap.ne_null_of_load hn

theorem value_load (h : Inv hash B) (he : e ∈ allOf B) :
    hash.strs.load e.item.value = some e.item.v :=
  h.owns.value_load e.item (List.mem_map_of_mem he)

/-! ### Lookup -/

theorem get_hit (h : Inv hash B) (he : e ∈ allOf B) :
    kvsHashGet hash (some e.item.k) = some e.item.value := by
  obtain ⟨p, hp, hfind⟩ := h.find_hit he
  obtain ⟨n, hn⟩ := h.cell e he
  simp [kvsHashGet, hp, hfind, hn, h.addr_ne_null he]

theorem get_miss (h : Inv hash B) (hk : ∀ e ∈ allOf B, e.item.k ≠ key) :
    kvsHashGet hash (some key) = some 0 := by
  obtain ⟨p, hp, hfind⟩ := h.find_miss hk
  simp [kvsHashGet, hp, hfind]

theorem exist_hit (h : Inv hash B) (he : e ∈ allOf B) :
    kvsHashExist hash (some e.item.k) = some 0 := by
  simp [kvsHashExist, h.get_hit he, Heap.ne_null_of_load (h.value_load he)]

theorem exist_miss (h : Inv hash B) (hk : ∀ e ∈ allOf B, e.item.k ≠ key) :
    kvsHashExist hash (some key) = some 1 := by
  simp [kvsHashExist, h.get_miss hk]

/-- **Replacing the chain of one bucket.** The other buckets, and the nodes in
them, are as before. -/
theorem replace (h : Inv hash B) {i : ℕ} (hi : i < MAX_TABLE_SIZE) {L : List HashEntry}
    (hE : Entries hash' (allOf (Function.update B i L)))
    (hbucket : ∀ j < MAX_TABLE_SIZE, j ≠ i → hash'.bucket j = hash.bucket j)
    (hload : ∀ e ∈ allOf B, e ∉ B i → hash'.mem.load e.addr = hash.mem.load e.addr)
    (hlinked : ∃ p, hash'.bucket i = some p ∧ Linked hash'.nextOf p (L.map HashEntry.addr))
    (hplaced : ∀ e ∈ L, slotOf e.item.k = i) :
    Inv hash' (Function.update B i L) := by
  refine ⟨hE, fun j hj => ?_, fun j hj e he => ?_⟩
  · by_cases hji : j = i
    · subst hji
      rw [Function.update_self]
      exact hlinked
    · rw [Function.update_of_ne hji]
      obtain ⟨p, hp, hl⟩ := h.linked j hj
      refine ⟨p, (hbucket j hj hji).trans hp, hl.congr (fun q hq => ?_)⟩
      obtain ⟨e, he, rfl⟩ := List.mem_map.mp hq
      -- a node of another bucket has a key of another bucket
      refine nextOf_congr (hload e (mem_allOf_of_mem hj he) (fun hei => hji ?_))
      rw [← h.placed j hj e he, h.placed i hi e hei]
  · by_cases hji : j = i
    · subst hji
      rw [Function.update_self] at he
      exact hplaced e he
    · rw [Function.update_of_ne hji] at he
      exact h.placed j hj e he

/-! ### Insertion -/

theorem set_hit (h : Inv hash B) (he : e ∈ allOf B) (v : CString) (env : Env) :
    kvsHashSet hash (some e.item.k) (some v) env = some (1, hash) := by
  obtain ⟨p, hp, hfind⟩ := h.find_hit he
  simp [kvsHashSet, hp, hfind, h.addr_ne_null he]

/-- **A new node** holds copies of the key and the value, and disturbs no
other. -/
theorem createNode_eq (hash : KvsHash) (k v : CString) (rand : ℕ → Bool) :
    ∃ mem, createNode hash k v (Env.healthy rand)
        = some (hash.mem.next, { hash with mem := mem, strs := (hash.strs.alloc k).alloc v })
      ∧ ∀ q, mem.load q = if q = hash.mem.next then
          some ⟨hash.strs.next, (hash.strs.alloc k).next, 0⟩ else hash.mem.load q := by
  have hne := Heap.next_ne_null hash.mem
  refine ⟨(((hash.mem.alloc ⟨0, 0, 0⟩).update hash.mem.next
    (fun n => { n with key := hash.strs.next })).update hash.mem.next
    (fun n => { n with value := (hash.strs.alloc k).next })).update hash.mem.next
    (fun n => { n with next := 0 }), ?_, fun q => ?_⟩
  · simp [createNode, hne, Heap.next_ne_null, Heap.modify]
  · by_cases hq : q = hash.mem.next
    · simp [hq]
    · simp [hq]

/-- The entries with one more. -/
theorem entries_cons (h : Inv hash B) (hk : ∀ e ∈ allOf B, e.item.k ≠ e'.item.k)
    (hmem : ∀ q, hash'.mem.load q = if q = e'.addr then some ⟨e'.item.key, e'.item.value, p⟩
      else hash.mem.load q) (hnew : hash.mem.load e'.addr = none)
    (howns : Owns hash'.strs (e'.item :: (allOf B).map HashEntry.item))
    (hcount : hash'.count = hash.count + 1) : Entries hash' (e' :: allOf B) where
  cell := fun e he => by
    rcases List.mem_cons.mp he with rfl | he
    · exact ⟨p, (hmem e.addr).trans (if_pos rfl)⟩
    · obtain ⟨n, hn⟩ := h.cell e he
      have hne : e.addr ≠ e'.addr := fun heq => by simp [← heq, hn] at hnew
      exact ⟨n, by rw [hmem, if_neg hne, hn]⟩
  nodup_addr := by
    refine List.nodup_cons.mpr ⟨fun hm => ?_, h.nodup_addr⟩
    obtain ⟨e, he, heq⟩ := List.mem_map.mp hm
    obtain ⟨n, hn⟩ := h.cell e he
    rw [heq, hnew] at hn
    cases hn
  nodup := by
    refine List.nodup_cons.mpr ⟨fun hm => ?_, h.nodup⟩
    obtain ⟨it, hit, heq⟩ := List.mem_map.mp hm
    obtain ⟨e, he, rfl⟩ := List.mem_map.mp hit
    exact hk e he heq
  owns := howns
  count_eq := by
    rw [hcount, h.count_eq, List.length_cons]
    rfl

/-- **`kvs_hash_set` of a new key** puts a node at the front of its bucket. -/
theorem set_new (h : Inv hash B) (hk : ∀ e ∈ allOf B, e.item.k ≠ key) (v : CString)
    (rand : ℕ → Bool) :
    ∃ hash' e, kvsHashSet hash (some key) (some v) (Env.healthy rand) = some (0, hash')
      ∧ e.item.k = key ∧ e.item.v = v
      ∧ Inv hash' (Function.update B (slotOf key) (e :: B (slotOf key))) := by
  obtain ⟨p, hp, hfind⟩ := h.find_miss hk
  obtain ⟨mem, hnew, hmem⟩ := createNode_eq hash key v rand
  have hslot := slotOf_lt key
  have hfresh : hash.mem.load hash.mem.next = none := hash.mem.cells_fresh _ le_rfl
  rw [hash_eq] at hp
  -- the table with the new node, and then with its link and its bucket set
  let hash₁ : KvsHash := { hash with mem := mem, strs := (hash.strs.alloc key).alloc v }
  let hash₂ : KvsHash := (hash₁.putNext hash.mem.next p).putBucket (slotOf key) hash.mem.next
  have hload₁ : hash₁.mem.load hash.mem.next
      = some ⟨hash.strs.next, (hash.strs.alloc key).next, 0⟩ := by
    rw [hmem, if_pos rfl]
  have hp₁ : hash₁.bucket (slotOf key) = some p := hp
  have hp₂ : (hash₁.putNext hash.mem.next p).bucket (slotOf key) = some p := hp
  have hrun : kvsHashSet hash (some key) (some v) (Env.healthy rand)
      = some (0, { hash₂ with count := hash.count + 1 }) := by
    simp only [kvsHashSet, hash_eq, hp, hfind, hnew, Option.bind_eq_bind, Option.bind_some,
      ne_eq, not_true_eq_false, if_false, Heap.next_ne_null]
    rw [show KvsHash.bucket { hash with mem := mem, strs := (hash.strs.alloc key).alloc v }
      (slotOf key) = some p from hp]
    simp only [Option.bind_some]
    rw [setNext_eq hload₁, Option.bind_some, setBucket_eq hslot hp₂]
    rfl
  have hload₂ : ∀ q, hash₂.mem.load q = if q = hash.mem.next then
      some ⟨hash.strs.next, (hash.strs.alloc key).next, p⟩ else hash.mem.load q := by
    intro q
    show (mem.update hash.mem.next _).load q = _
    rw [Heap.load_update, hmem]
    by_cases hq : q = hash.mem.next
    · simp [hq]
    · simp [hq]
  let e : HashEntry := ⟨hash.mem.next, hash.strs.next, (hash.strs.alloc key).next, key, v⟩
  have hE : Entries { hash₂ with count := hash.count + 1 } (e :: allOf B) :=
    h.entries_cons hk hload₂ hfresh (h.owns.alloc_item key v) rfl
  have hold : ∀ e ∈ allOf B, hash₂.mem.load e.addr = hash.mem.load e.addr := by
    intro e he
    obtain ⟨n, hn⟩ := h.cell e he
    rw [hload₂, if_neg (Heap.ne_next_of_load hn)]
  obtain ⟨xs, ys, hall, hall'⟩ := exists_allOf_split hslot
    (show B (slotOf key) = [] ++ [] ++ B (slotOf key) from rfl)
  have hperm : (allOf (Function.update B (slotOf key) (e :: B (slotOf key)))).Perm
      (e :: allOf B) := by
    have heq : allOf (Function.update B (slotOf key) (e :: B (slotOf key))) = xs ++ [e] ++ ys :=
      hall' [e]
    rw [heq, hall]
    simp
  refine ⟨_, e, hrun, rfl, rfl, h.replace hslot (hE.perm hperm) ?_ (fun e he _ => hold e he) ?_ ?_⟩
  · intro j _ hji
    exact (bucket_putBucket hslot hp₂ j).trans (if_neg hji)
  · refine ⟨hash.mem.next, (bucket_putBucket hslot hp₂ (slotOf key)).trans (if_pos rfl), rfl,
      Heap.next_ne_null _, ?_⟩
    obtain ⟨p', hp', hl⟩ := h.linked _ hslot
    obtain rfl : p = p' := Option.some.inj (hp.symm.trans hp')
    refine Linked.chain (hl.congr (fun q hq => ?_)) ?_
    · obtain ⟨e, he, rfl⟩ := List.mem_map.mp hq
      exact nextOf_congr (hold e (mem_allOf_of_mem hslot he))
    · exact nextOf_of_load ((hload₂ hash.mem.next).trans (if_pos rfl))
  · intro e' he'
    rcases List.mem_cons.mp he' with rfl | he'
    · rfl
    · exact h.placed _ hslot e' he'

/-- A node, and the others. -/
theorem exists_perm (h : Inv hash B) (he : e ∈ allOf B) :
    ∃ L, (allOf B).Perm (e :: L) ∧ Entries hash (e :: L) := by
  obtain ⟨xs, ys, hall⟩ := List.append_of_mem he
  have hperm : (allOf B).Perm (e :: (xs ++ ys)) := hall ▸ List.perm_middle
  exact ⟨xs ++ ys, hperm, h.toEntries.perm hperm.symm⟩

/-! ### Modification -/

theorem mod_miss (h : Inv hash B) (hk : ∀ e ∈ allOf B, e.item.k ≠ key) (v : CString) (env : Env) :
    kvsHashMod hash (some key) (some v) env = some (1, hash) := by
  obtain ⟨p, hp, hfind⟩ := h.find_miss hk
  simp [kvsHashMod, hp, hfind]

/-- A node splits the whole as it splits its bucket. -/
theorem exists_split (h : Inv hash B) (he : e ∈ allOf B) :
    ∃ us vs xs ys, B (slotOf e.item.k) = us ++ [e] ++ vs ∧ (∀ x ∈ us, x.item.k ≠ e.item.k)
      ∧ allOf B = xs ++ [e] ++ ys
      ∧ ∀ zs, allOf (Function.update B (slotOf e.item.k) (us ++ zs ++ vs)) = xs ++ zs ++ ys := by
  obtain ⟨us, vs, hB, hus⟩ := h.exists_bucket_split he
  obtain ⟨xs, ys, hall, hall'⟩ := exists_allOf_split (slotOf_lt e.item.k) hB
  exact ⟨us, vs, xs, ys, hB, hus, hall, hall'⟩

/-- **`kvs_hash_mod` of a stored key** replaces the value of its node. -/
theorem mod_hit (h : Inv hash B) (he : e ∈ allOf B)
    (hB : B (slotOf e.item.k) = us ++ [e] ++ vs) (v : CString) (rand : ℕ → Bool) :
    ∃ hash' e', kvsHashMod hash (some e.item.k) (some v) (Env.healthy rand) = some (0, hash')
      ∧ e'.addr = e.addr ∧ e'.item.k = e.item.k ∧ e'.item.v = v
      ∧ Inv hash' (Function.update B (slotOf e.item.k) (us ++ [e'] ++ vs)) := by
  obtain ⟨p, hp, hfind⟩ := h.find_hit he
  obtain ⟨n, hn⟩ := h.cell e he
  have hslot := slotOf_lt e.item.k
  obtain ⟨xs, ys, hall, hall'⟩ := exists_allOf_split hslot hB
  have hperm : (allOf B).Perm (e :: (xs ++ ys)) := by
    rw [hall]
    simp
  have hE := h.toEntries.perm hperm.symm
  obtain ⟨hfree, howns⟩ := hE.owns.replace_value v
  have hne := Heap.next_ne_null (hash.strs.erase e.item.value)
  -- the table after the call, and the node's new entry
  let strs := hash.strs.erase e.item.value
  let hash' : KvsHash := { hash with
    mem := hash.mem.update e.addr (fun n => { n with value := strs.next }), strs := strs.alloc v }
  let e' : HashEntry := ⟨e.addr, { e.item with value := strs.next, v := v }⟩
  have hrun : kvsHashMod hash (some e.item.k) (some v) (Env.healthy rand) = some (0, hash') := by
    simp [kvsHashMod, hp, hfind, hn, h.addr_ne_null he, hfree, Heap.next_ne_null,
      Heap.modify_of_load _ hn, hash', strs]
  have hother : ∀ x : HashEntry, x.addr ≠ e.addr → hash'.mem.load x.addr = hash.mem.load x.addr :=
    fun x hx => Heap.load_update_of_ne _ _ hx
  have hnext : ∀ q, hash'.nextOf q = hash.nextOf q := by
    intro q
    unfold nextOf
    by_cases hq : q = e.addr
    · simp [hash', hq, hn]
    · simp [hash', hq]
  obtain ⟨hea, hnd⟩ := List.nodup_cons.mp hE.nodup_addr
  have hE' : Entries hash' (e' :: (xs ++ ys)) := by
    refine ⟨fun x hx => ?_, hE.nodup_addr, hE.nodup, howns, hE.count_eq⟩
    rcases List.mem_cons.mp hx with rfl | hx
    · exact ⟨n, by simp [hash', e', hn]⟩
    · obtain ⟨m, hm⟩ := hE.cell x (List.mem_cons_of_mem e hx)
      exact ⟨m, (hother x (fun heq => hea (heq ▸ List.mem_map_of_mem hx))).trans hm⟩
  have hperm' : (allOf (Function.update B (slotOf e.item.k) (us ++ [e'] ++ vs))).Perm
      (e' :: (xs ++ ys)) := by
    rw [hall']
    simp
  have hmap : (us ++ [e'] ++ vs).map HashEntry.addr = (B (slotOf e.item.k)).map HashEntry.addr := by
    rw [hB]
    simp [e']
  refine ⟨hash', e', hrun, rfl, rfl, rfl,
    h.replace hslot (hE'.perm hperm') (fun _ _ _ => rfl) (fun x hx hxB => ?_) ?_ ?_⟩
  · refine hother x (fun heq => hxB ?_)
    rw [h.addr_inj hx he heq]
    exact h.mem_bucket he
  · obtain ⟨p, hp, hl⟩ := h.linked _ hslot
    rw [hmap]
    exact ⟨p, hp, hl.congr (fun q _ => hnext q)⟩
  · intro x hx
    rw [List.mem_append, List.mem_append, List.mem_singleton] at hx
    rcases hx with (hx | rfl) | hx
    · exact h.placed _ hslot x (by simp [hB, hx])
    · rfl
    · exact h.placed _ hslot x (by simp [hB, hx])

/-! ### Deletion -/

theorem del_miss (h : Inv hash B) (hk : ∀ e ∈ allOf B, e.item.k ≠ key) :
    kvsHashDel hash (some key) = some (-1, hash) := by
  obtain ⟨p, hp, hl⟩ := h.linked _ (slotOf_lt key)
  have hlen := h.length_lt (slotOf_lt key)
  have hmem : ∀ e ∈ B (slotOf key), e ∈ allOf B := fun e => mem_allOf_of_mem (slotOf_lt key)
  cases hB : B (slotOf key) with
  | nil =>
    rw [hB] at hl
    obtain rfl : p = 0 := hl
    simp [kvsHashDel, hash_eq, hp]
  | cons u us =>
    rw [hB] at hl hlen hmem
    obtain ⟨rfl, hu0, hchain⟩ := hl
    have hu := hmem u List.mem_cons_self
    -- the walk meets no node with the key and ends at the last one
    have hwalk : advance hash.nextOf
        (fun p => (hash.keyAt p).map (fun k => decide (strcmp k key ≠ 0))) hash.mem.next u.addr
          = some ((us.map HashEntry.addr).getLastD u.addr) := by
      refine advance_eq (show Chain _ _ (_ ++ []) by rwa [List.append_nil]) ?_ (fun q hq => ?_)
        (by simp)
      · rw [List.length_map]
        exact (Nat.lt_succ_self _).trans hlen
      · obtain ⟨x, hx, rfl⟩ := List.mem_map.mp hq
        have hx' := hmem x (List.mem_cons_of_mem u hx)
        rw [h.keyAt hx']
        simpa [strcmp_eq_zero] using hk x hx'
    have hend : hash.nextOf ((us.map HashEntry.addr).getLastD u.addr) = some 0 := by
      have hchain' : Chain hash.nextOf u.addr (us.map HashEntry.addr ++ []) := by
        rwa [List.append_nil]
      exact hchain'.next_getLastD
    have hne : strcmp u.item.k key ≠ 0 := fun heq => hk u hu ((strcmp_eq_zero _ _).mp heq)
    simp only [kvsHashDel, hash_eq, hp, Option.bind_eq_bind, Option.bind_some, hu0, if_false,
      h.keyAt hu, hne, hwalk, hend, if_true]
    rfl

/-- **Dropping a node from its chain**, however the chain was relinked. -/
theorem drop (h : Inv hash B) {i : ℕ} (hi : i < MAX_TABLE_SIZE) (hB : B i = us ++ [e] ++ vs)
    (hbucket : ∀ j < MAX_TABLE_SIZE, j ≠ i → hash'.bucket j = hash.bucket j)
    (hload : ∀ x ∈ allOf B, x ∉ B i → hash'.mem.load x.addr = hash.mem.load x.addr)
    (hcell : ∀ x ∈ us ++ vs, ∀ n, hash.mem.load x.addr = some n →
      ∃ m, hash'.mem.load x.addr = some { n with next := m })
    (hlinked : ∃ p, hash'.bucket i = some p
      ∧ Linked hash'.nextOf p ((us ++ vs).map HashEntry.addr))
    (hstrs : hash'.strs = (hash.strs.erase e.item.key).erase e.item.value)
    (hcount : hash'.count = hash.count - 1) :
    Inv hash' (Function.update B i (us ++ vs)) := by
  obtain ⟨xs, ys, hall, hall'⟩ := exists_allOf_split hi hB
  have hperm : (allOf B).Perm (e :: (xs ++ ys)) := by
    rw [hall]
    simp
  have heq : allOf (Function.update B i (us ++ vs)) = xs ++ ys := by
    simpa using hall' []
  have hE := h.toEntries.perm hperm.symm
  obtain ⟨hea, -⟩ := List.nodup_cons.mp hE.nodup_addr
  have hE' : Entries hash' (xs ++ ys) := by
    refine hE.tail (fun x hx n hn => ?_) hstrs hcount
    have hxB : x ∈ allOf B := hperm.mem_iff.mpr (List.mem_cons_of_mem e hx)
    by_cases hxi : x ∈ B i
    · have hne : x ≠ e := fun h => hea (h ▸ List.mem_map_of_mem hx)
      refine hcell x ?_ n hn
      rw [hB] at hxi
      simpa [hne] using hxi
    · exact ⟨n.next, (hload x hxB hxi).trans hn⟩
  refine h.replace hi (heq ▸ hE') hbucket hload hlinked (fun x hx => h.placed i hi x ?_)
  rcases List.mem_append.mp hx with hx | hx
  · simp [hB, hx]
  · simp [hB, hx]

/-- **`kvs_hash_del` of the first node of a chain.** -/
theorem del_head (h : Inv hash B) (he : e ∈ allOf B) (hB : B (slotOf e.item.k) = e :: vs) :
    ∃ hash', kvsHashDel hash (some e.item.k) = some (0, hash')
      ∧ Inv hash' (Function.update B (slotOf e.item.k) vs) := by
  have hslot := slotOf_lt e.item.k
  obtain ⟨p, hp, hl⟩ := h.linked _ hslot
  rw [hB] at hl
  obtain ⟨rfl, he0, hchain⟩ := hl
  obtain ⟨n, hn⟩ := h.cell e he
  obtain ⟨L, -, hE⟩ := h.exists_perm he
  obtain ⟨hfree, hfree', -⟩ := hE.owns.free_item
  have hnext : n = (vs.map HashEntry.addr).headD 0 := by
    have hn' := (nextOf_of_load hn).symm.trans hchain.next_eq
    exact Option.some.inj hn'
  let strs := (hash.strs.erase e.item.key).erase e.item.value
  let hash₁ : KvsHash := KvsHash.putBucket { hash with strs := strs } (slotOf e.item.k) n
  let hash' : KvsHash := { hash₁ with mem := hash.mem.erase e.addr, count := hash.count - 1 }
  have hset : KvsHash.setBucket { hash with strs := strs } (slotOf e.item.k) n = some hash₁ :=
    setBucket_eq hslot hp
  have hrun : kvsHashDel hash (some e.item.k) = some (0, hash') := by
    simp only [kvsHashDel, hash_eq, hp, Option.bind_eq_bind, Option.bind_some, he0, if_false,
      h.keyAt he, (strcmp_eq_zero e.item.k e.item.k).mpr rfl, if_true, hn, hfree, hfree']
    refine (congrArg (fun o => Option.bind o _) hset).trans ?_
    exact congrArg (fun o => Option.bind o _) (Heap.free_of_load hn)
  have hload : ∀ x ∈ allOf B, x ≠ e → hash'.mem.load x.addr = hash.mem.load x.addr := by
    intro x hx hne
    exact (Heap.load_erase _ _ _).trans (if_neg (fun heq => hne (h.addr_inj hx he heq)))
  have hB' : B (slotOf e.item.k) = [] ++ [e] ++ vs := hB
  have hvs : ∀ x ∈ vs, hash'.mem.load x.addr = hash.mem.load x.addr := fun x hx =>
    hload x (mem_allOf_of_mem hslot (hB ▸ List.mem_cons_of_mem e hx))
      (fun heq => h.addr_ne_of_split hslot hB' x hx (congrArg HashEntry.addr heq))
  refine ⟨hash', hrun, h.drop hslot hB' ?_ ?_ ?_ ?_ rfl rfl⟩
  · intro j _ hji
    exact (bucket_putBucket hslot hp j).trans (if_neg hji)
  · refine fun x hx hxB => hload x hx (fun heq => hxB ?_)
    rw [heq, hB]
    exact List.mem_cons_self
  · exact fun x hx n hn => ⟨n.next, (hvs x hx).trans hn⟩
  · refine ⟨n, (bucket_putBucket hslot hp _).trans (if_pos rfl), ?_⟩
    rw [hnext]
    refine hchain.linked.congr (fun q hq => ?_)
    obtain ⟨x, hx, rfl⟩ := List.mem_map.mp hq
    exact nextOf_congr (hvs x hx)

/-- **The walk of `kvs_hash_del`** ends at the node before the deleted one. -/
theorem del_walk {u : HashEntry} {ps : List Ptr} (h : Inv hash B) (he : e ∈ allOf B)
    (hmem : ∀ x ∈ us, x ∈ allOf B) (hus : ∀ x ∈ us, x.item.k ≠ e.item.k)
    (hchain : Chain hash.nextOf u.addr (us.map HashEntry.addr ++ e.addr :: ps))
    (hlen : us.length < hash.mem.next) :
    advance hash.nextOf
      (fun p => (hash.keyAt p).map (fun k => decide (strcmp k e.item.k ≠ 0))) hash.mem.next u.addr
        = some ((us.map HashEntry.addr).getLastD u.addr) := by
  refine advance_eq hchain ?_ (fun q hq => ?_) (fun q hq => ?_)
  · rwa [List.length_map]
  · obtain ⟨x, hx, rfl⟩ := List.mem_map.mp hq
    rw [h.keyAt (hmem x hx)]
    simpa [strcmp_eq_zero] using hus x hx
  · obtain rfl : e.addr = q := Option.some.inj hq
    rw [h.keyAt he]
    simp [strcmp_eq_zero]

/-- The node the walk ends at is the one before the deleted. -/
theorem exists_before {u : HashEntry} {ps : List Ptr}
    (hchain : Chain hash.nextOf u.addr (us.map HashEntry.addr ++ e.addr :: ps)) :
    ∃ c ∈ u :: us, (us.map HashEntry.addr).getLastD u.addr = c.addr
      ∧ hash.nextOf c.addr = some e.addr := by
  have hm : (us.map HashEntry.addr).getLastD u.addr ∈ (u :: us).map HashEntry.addr :=
    Chain.getLastD_mem_cons _ _
  obtain ⟨c, hc, hcaddr⟩ := List.mem_map.mp hm
  refine ⟨c, hc, hcaddr.symm, ?_⟩
  rw [hcaddr]
  exact hchain.next_getLastD

/-- **`kvs_hash_del` of a later node of a chain.** -/
theorem del_next {u : HashEntry} (h : Inv hash B) (he : e ∈ allOf B)
    (hB : B (slotOf e.item.k) = u :: us ++ [e] ++ vs)
    (hus : ∀ x ∈ u :: us, x.item.k ≠ e.item.k) :
    ∃ hash', kvsHashDel hash (some e.item.k) = some (0, hash')
      ∧ Inv hash' (Function.update B (slotOf e.item.k) (u :: us ++ vs)) := by
  have hslot := slotOf_lt e.item.k
  obtain ⟨p, hp, hl⟩ := h.linked _ hslot
  have hlen := h.length_lt hslot
  have hnd := h.nodup_bucket hslot
  have hmem : ∀ x ∈ B (slotOf e.item.k), x ∈ allOf B := fun x => mem_allOf_of_mem hslot
  rw [hB] at hl hlen hnd hmem
  have hmap : (u :: us ++ [e] ++ vs).map HashEntry.addr
      = u.addr :: (us.map HashEntry.addr ++ e.addr :: vs.map HashEntry.addr) := by simp
  rw [hmap] at hl hnd
  obtain ⟨rfl, hu0, hchain⟩ := hl
  have hu := hmem u (by simp)
  obtain ⟨n, hn⟩ := h.cell e he
  obtain ⟨L, -, hE⟩ := h.exists_perm he
  obtain ⟨hfree, hfree', -⟩ := hE.owns.free_item
  -- the walk ends at the node before the deleted one
  obtain ⟨c, hc, hlast, hcur⟩ := exists_before hchain
  have hwalk : advance hash.nextOf
      (fun p => (hash.keyAt p).map (fun k => decide (strcmp k e.item.k ≠ 0))) hash.mem.next u.addr
        = some c.addr := by
    rw [← hlast]
    refine h.del_walk he (fun x hx => hmem x (by simp [hx]))
      (fun x hx => hus x (List.mem_cons_of_mem u hx)) hchain ?_
    simp only [List.length_append, List.length_cons] at hlen
    omega
  have hcB := hmem c (List.mem_append_left vs (List.mem_append_left [e] hc))
  obtain ⟨m, hm⟩ := h.cell c hcB
  have hne := h.addr_ne_of_split hslot hB
  have hcne : c.addr ≠ e.addr := hne c (List.mem_append_left vs hc)
  have hnvs : n = (vs.map HashEntry.addr).headD 0 :=
    Option.some.inj ((nextOf_of_load hn).symm.trans hchain.drop.2.2.next_eq)
  -- the table relinked, and then without the node
  let strs := (hash.strs.erase e.item.key).erase e.item.value
  let hash₁ : KvsHash := hash.putNext c.addr n
  let hash' : KvsHash := { hash₁ with
    mem := hash₁.mem.erase e.addr, strs := strs, count := hash.count - 1 }
  have hload₁ : hash₁.mem.load e.addr = some ⟨e.item.key, e.item.value, n⟩ :=
    (Heap.load_update_of_ne _ _ hcne.symm).trans hn
  have hload : ∀ q, q ≠ e.addr → q ≠ c.addr → hash'.mem.load q = hash.mem.load q := by
    intro q hqe hqc
    rw [show hash'.mem.load q = _ from Heap.load_erase _ _ _, if_neg hqe]
    exact Heap.load_update_of_ne _ _ hqc
  have hloadcur : hash'.mem.load c.addr = some ⟨c.item.key, c.item.value, n⟩ := by
    rw [show hash'.mem.load c.addr = _ from Heap.load_erase _ _ _, if_neg hcne]
    exact Heap.load_update_self _ hm
  have hrun : kvsHashDel hash (some e.item.k) = some (0, hash') := by
    have hune : strcmp u.item.k e.item.k ≠ 0 := fun heq =>
      hus u List.mem_cons_self ((strcmp_eq_zero _ _).mp heq)
    simp only [kvsHashDel, hash_eq, hp, Option.bind_eq_bind, Option.bind_some, hu0, if_false,
      h.keyAt hu, hune, hwalk, hcur, h.addr_ne_null he, nextOf_of_load hn, setNext_eq hm]
    refine (congrArg (fun o => Option.bind o _) hload₁).trans ?_
    refine (congrArg (fun o => Option.bind o _) hfree).trans ?_
    refine (congrArg (fun o => Option.bind o _) hfree').trans ?_
    exact congrArg (fun o => Option.bind o _) (Heap.free_of_load hload₁)
  refine ⟨hash', hrun, h.drop hslot hB (fun _ _ _ => rfl) ?_ ?_ ⟨u.addr, hp, rfl, hu0, ?_⟩ rfl rfl⟩
  · intro x hx hxB
    rw [hB] at hxB
    refine hload x.addr (fun heq => hxB ?_) (fun heq => hxB ?_)
    · rw [h.addr_inj hx he heq]
      simp
    · rw [h.addr_inj hx hcB heq]
      exact List.mem_append_left vs (List.mem_append_left [e] hc)
  · intro x hx n' hn'
    by_cases hxc : x.addr = c.addr
    · rw [hxc, hm] at hn'
      obtain rfl := Option.some.inj hn'
      exact ⟨n, hxc ▸ hloadcur⟩
    · exact ⟨n'.next, (hload _ (hne x hx) hxc).trans hn'⟩
  · show Chain hash'.nextOf u.addr ((us ++ vs).map HashEntry.addr)
    rw [List.map_append]
    refine hchain.remove hnd ?_ (fun q hq hqc => nextOf_congr (hload q ?_ (hlast ▸ hqc)))
    · rw [hlast]
      exact (nextOf_of_load hloadcur).trans (congrArg some hnvs)
    · rw [← List.map_append] at hq
      obtain ⟨x, hx, rfl⟩ := List.mem_map.mp (show q ∈ (u :: us ++ vs).map HashEntry.addr from hq)
      exact hne x hx

/-- **`kvs_hash_del` of a stored key** drops its node from its chain. -/
theorem del_hit (h : Inv hash B) (he : e ∈ allOf B)
    (hB : B (slotOf e.item.k) = us ++ [e] ++ vs) (hus : ∀ x ∈ us, x.item.k ≠ e.item.k) :
    ∃ hash', kvsHashDel hash (some e.item.k) = some (0, hash')
      ∧ Inv hash' (Function.update B (slotOf e.item.k) (us ++ vs)) := by
  cases us with
  | nil => exact h.del_head he hB
  | cons u us => exact h.del_next he hB hus

/-- The entry in the middle of the whole is in the middle of its bucket. -/
theorem exists_split_item (h : Inv hash B) {xs ys : List Item} {it : Item}
    (heq : (allOf B).map HashEntry.item = xs ++ it :: ys) :
    ∃ e us vs, e.item = it ∧ e ∈ allOf B ∧ B (slotOf e.item.k) = us ++ [e] ++ vs
      ∧ (∀ x ∈ us, x.item.k ≠ e.item.k)
      ∧ ∀ zs, (allOf (Function.update B (slotOf e.item.k) (us ++ zs ++ vs))).map HashEntry.item
        = xs ++ zs.map HashEntry.item ++ ys := by
  have hit : it ∈ (allOf B).map HashEntry.item := by simp [heq]
  obtain ⟨e, he, rfl⟩ := List.mem_map.mp hit
  obtain ⟨us, vs, X, Y, hB, hus, hall, hall'⟩ := h.exists_split he
  -- both splits are at the one entry with this key
  have hnd := h.nodup
  rw [heq] at hnd
  rw [hall] at heq
  simp only [List.map_append, List.map_cons, List.append_assoc, List.singleton_append] at heq
  obtain ⟨hx, -, hy⟩ := split_unique hnd heq.symm rfl
  refine ⟨e, us, vs, rfl, he, hB, hus, fun zs => ?_⟩
  rw [hall', hx, hy]
  simp

end Inv

/-- The hash table holds the entries, in the order of its buckets. -/
def Holds (hash : KvsHash) (items : List Item) : Prop :=
  ∃ B, Inv hash B ∧ items = (allOf B).map HashEntry.item

/-- The codes of the hash table: no capacity, and a negative code for deleting
a missing key. -/
def codes : Codes := ⟨fun _ => false, fun _ => -1, fun _ => 1⟩

theorem ne_of_notMem_keysOf {B : ℕ → List HashEntry} {k : CString}
    (hk : k ∉ keysOf ((allOf B).map HashEntry.item)) : ∀ e ∈ allOf B, e.item.k ≠ k :=
  fun _ he heq => hk (heq ▸ List.mem_map_of_mem (List.mem_map_of_mem he))

theorem exists_of_mem_keysOf {B : ℕ → List HashEntry} {k : CString}
    (hk : k ∈ keysOf ((allOf B).map HashEntry.item)) : ∃ e ∈ allOf B, e.item.k = k := by
  obtain ⟨it, hit, rfl⟩ := List.mem_map.mp hk
  obtain ⟨e, he, rfl⟩ := List.mem_map.mp hit
  exact ⟨e, he, rfl⟩

/-- **The hash table implements the map.** -/
theorem implements : Implements kvsHashOps KvsHash.Holds codes where
  owns := by
    rintro hash _ ⟨B, h, rfl⟩
    exact h.owns
  nodup := by
    rintro hash _ ⟨B, h, rfl⟩
    exact h.nodup
  get_hit := by
    rintro hash _ it ⟨B, h, rfl⟩ hit
    obtain ⟨e, he, rfl⟩ := List.mem_map.mp hit
    exact h.get_hit he
  get_miss := by
    rintro hash _ k ⟨B, h, rfl⟩ hk
    exact h.get_miss (ne_of_notMem_keysOf hk)
  set_full := fun _ hfull => by cases hfull
  set_hit := by
    rintro hash _ k v rand ⟨B, h, rfl⟩ - hk
    obtain ⟨e, he, rfl⟩ := exists_of_mem_keysOf hk
    exact h.set_hit he v _
  set_new := by
    rintro hash _ k v rand ⟨B, h, rfl⟩ - hk
    obtain ⟨hash', e, hset, hek, hev, hI⟩ := h.set_new (ne_of_notMem_keysOf hk) v rand
    obtain ⟨xs, ys, hall, hall'⟩ := exists_allOf_split (slotOf_lt k)
      (show B (slotOf k) = [] ++ [] ++ B (slotOf k) from rfl)
    refine ⟨hash', xs.map HashEntry.item, e.item, ys.map HashEntry.item, hset, ⟨_, hI, ?_⟩, ?_,
      hek, hev⟩
    · have heq : allOf (Function.update B (slotOf k) (e :: B (slotOf k))) = xs ++ [e] ++ ys :=
        hall' [e]
      simp [heq]
    · simp [hall]
  del_hit := by
    rintro hash xs it ys ⟨B, h, heq⟩
    obtain ⟨e, us, vs, rfl, he, hB, hus, hall⟩ := h.exists_split_item heq.symm
    obtain ⟨hash', hdel, hI⟩ := h.del_hit he hB hus
    have heq' := hall []
    rw [List.append_nil, List.map_nil, List.append_nil] at heq'
    exact ⟨hash', hdel, _, hI, heq'.symm⟩
  del_miss := by
    rintro hash _ k ⟨B, h, rfl⟩ hk
    exact h.del_miss (ne_of_notMem_keysOf hk)
  mod_hit := by
    rintro hash xs it ys v rand ⟨B, h, heq⟩
    obtain ⟨e, us, vs, rfl, he, hB, -, hall⟩ := h.exists_split_item heq.symm
    obtain ⟨hash', e', hmod, -, hk, hv, hI⟩ := h.mod_hit he hB v rand
    refine ⟨hash', e'.item, hmod, ⟨_, hI, ?_⟩, hk, hv⟩
    rw [hall [e']]
    simp
  mod_miss := by
    rintro hash _ k v rand ⟨B, h, rfl⟩ hk
    exact h.mod_miss (ne_of_notMem_keysOf hk) v (Env.healthy rand)
  exist_hit := by
    rintro hash _ k ⟨B, h, rfl⟩ hk
    obtain ⟨e, he, rfl⟩ := exists_of_mem_keysOf hk
    exact h.exist_hit he
  exist_miss := by
    rintro hash _ k ⟨B, h, rfl⟩ hk
    exact h.exist_miss (ne_of_notMem_keysOf hk)

/-- `kvs_hash_create` makes an empty table. -/
theorem create_inv (rand : ℕ → Bool) :
    ∃ hash, kvsHashCreate KvsHash.zero (Env.healthy rand) = (0, hash) ∧ Inv hash (fun _ => []) := by
  have hall : allOf (fun _ => ([] : List HashEntry)) = [] := allOf_nil
  refine ⟨_, rfl, ⟨?_, ?_, ?_, ?_, ?_⟩, fun i hi => ⟨0, ?_, rfl⟩, ?_⟩
  · simp [hall]
  · simp [hall]
  · simp [hall, keysOf]
  · rw [hall]
    exact Owns.nil _
  · simp [hall]
  · simp [bucket_natCast, hi]
  · simp

/-! ## What a run of the hash table keeps -/

/-- The key and the value of a node. -/
def entryAt (hash : KvsHash) (p : Ptr) : Option (CString × CString) := do
  let node ← hash.mem.load p
  let k ← hash.strs.load node.key
  let v ← hash.strs.load node.value
  return (k, v)

/-- **The shape of the table**: bucket `i` is the head of the finite chain
`P i`. -/
structure Shape (hash : KvsHash) (P : ℕ → List Ptr) : Prop where
  /-- Every bucket heads its chain. -/
  linked : ∀ i < MAX_TABLE_SIZE, ∃ p, hash.bucket i = some p ∧ Linked hash.nextOf p (P i)
  /-- Every node is in the bucket its key hashes to. -/
  placed : ∀ i < MAX_TABLE_SIZE, ∀ p ∈ P i,
    ∃ k, hash.keyAt p = some k ∧ KvsHash.hash (some k) MAX_TABLE_SIZE = i
  /-- No key occurs twice in the whole table. -/
  distinct : ((allOf P).map hash.keyAt).Nodup
  /-- The table counts its nodes. -/
  count_eq : hash.count = (allOf P).length

/-- **What a call owes**: it keeps the shape, and a deletion of a stored key
removes its node and no other, in place, while a deletion of another key is
an error that changes nothing. -/
def StepOk (hash : KvsHash) (i : KvsOp × (ℕ → Bool)) (r : KvsRes) (hash' : KvsHash) : Prop :=
  ∃ P P', Shape hash P ∧ Shape hash' P' ∧
    match i.1 with
    | .del k =>
      (some k ∈ (allOf P).map hash.keyAt → r = .code 0
        ∧ (∀ i < MAX_TABLE_SIZE, P' i = (P i).filter (fun p => hash.keyAt p ≠ some k))
        ∧ ∀ p ∈ allOf P', hash'.entryAt p = hash.entryAt p)
      ∧ (some k ∉ (allOf P).map hash.keyAt → (∃ c < 0, r = .code c) ∧ hash' = hash)
    | _ => True

theorem allOf_map {α β : Type} (f : α → β) (B : ℕ → List α) :
    allOf (fun i => (B i).map f) = (allOf B).map f := by
  unfold allOf
  rw [List.map_flatMap]

namespace Inv

variable {hash hash' : KvsHash} {B : ℕ → List HashEntry} {e : HashEntry}

theorem entryAt_eq (h : Inv hash B) (he : e ∈ allOf B) :
    hash.entryAt e.addr = some (e.item.k, e.item.v) := by
  obtain ⟨n, hn⟩ := h.cell e he
  unfold entryAt
  simp [hn, h.owns.key_load e.item (List.mem_map_of_mem he), h.value_load he]

theorem map_keyAt (h : Inv hash B) {L : List HashEntry} (hL : ∀ e ∈ L, e ∈ allOf B) :
    (L.map HashEntry.addr).map hash.keyAt = L.map (fun e => some e.item.k) := by
  rw [List.map_map]
  exact List.map_congr_left (fun e he => h.keyAt (hL e he))

/-- A table that satisfies the invariant has the shape. -/
theorem shape (h : Inv hash B) : Shape hash (fun i => (B i).map HashEntry.addr) where
  linked := h.linked
  placed := fun i hi p hp => by
    obtain ⟨e, he, rfl⟩ := List.mem_map.mp hp
    refine ⟨e.item.k, h.keyAt (mem_allOf_of_mem hi he), ?_⟩
    rw [hash_eq, h.placed i hi e he]
  distinct := by
    have hkeys := h.nodup
    unfold keysOf at hkeys
    rw [List.map_map] at hkeys
    rw [allOf_map, h.map_keyAt (fun _ he => he)]
    have hsome := hkeys.map (Option.some_injective CString)
    rw [List.map_map] at hsome
    exact hsome
  count_eq := by
    rw [allOf_map, List.length_map]
    exact h.count_eq

/-- **A deletion keeps the rest of every chain**: where a node is dropped from
its bucket, the chains are those without the nodes that have its key. -/
theorem filter_bucket (h : Inv hash B) {us vs : List HashEntry} (he : e ∈ allOf B)
    (hB : B (slotOf e.item.k) = us ++ [e] ++ vs) {i : ℕ} (hi : i < MAX_TABLE_SIZE) :
    (Function.update B (slotOf e.item.k) (us ++ vs) i).map HashEntry.addr
      = ((B i).map HashEntry.addr).filter (fun p => hash.keyAt p ≠ some e.item.k) := by
  have hkeep : ∀ L : List HashEntry, (∀ x ∈ L, x ∈ allOf B ∧ x ≠ e) →
      (L.map HashEntry.addr).filter (fun p => hash.keyAt p ≠ some e.item.k)
        = L.map HashEntry.addr := by
    refine fun L hL => List.filter_eq_self.mpr (fun p hp => ?_)
    obtain ⟨x, hx, rfl⟩ := List.mem_map.mp hp
    rw [h.keyAt (hL x hx).1]
    refine decide_eq_true (fun heq => (hL x hx).2 (h.key_inj (hL x hx).1 he ?_))
    exact Option.some.inj heq
  by_cases his : i = slotOf e.item.k
  · subst his
    have hnd := (h.nodup_bucket hi).of_map
    have hmem : ∀ x ∈ us ++ [e] ++ vs, x ∈ allOf B := fun x hx =>
      mem_allOf_of_mem hi (hB ▸ hx)
    rw [hB] at hnd
    rw [List.append_assoc, List.singleton_append, List.nodup_middle, List.nodup_cons] at hnd
    have hne : ∀ x ∈ us ++ vs, x ≠ e := fun x hx heq => hnd.1 (heq ▸ hx)
    rw [Function.update_self, hB, List.map_append, List.map_append, List.map_append,
      List.filter_append, List.filter_append,
      hkeep us (fun x hx => ⟨hmem x (by simp [hx]), hne x (List.mem_append_left vs hx)⟩),
      hkeep vs (fun x hx => ⟨hmem x (by simp [hx]), hne x (List.mem_append_right us hx)⟩)]
    simp [h.keyAt he]
  · rw [Function.update_of_ne his]
    refine (hkeep (B i) (fun x hx => ⟨mem_allOf_of_mem hi hx, fun heq => his ?_⟩)).symm
    rw [← h.placed i hi x hx, heq]

/-- **One call of the hash table** returns, keeps the invariant and does what
it owes. -/
theorem step_ok (h : Inv hash B) (i : KvsOp × (ℕ → Bool)) :
    ∃ r hash', kvsHashOps.healthy hash i = some (r, hash') ∧ (∃ B', Inv hash' B')
      ∧ StepOk hash i r hash' := by
  obtain ⟨op, rand⟩ := i
  -- that the call returns and keeps the invariant is the simulation
  have hsim : ∃ r hash', kvsHashOps.healthy hash (op, rand) = some (r, hash')
      ∧ ∃ B', Inv hash' B' := by
    obtain ⟨hash', hs, _, ⟨B', hB', -⟩, -⟩ :=
      implements.simulates hash _ (op, rand) ⟨_, ⟨B, h, rfl⟩, rfl⟩ trivial
    exact ⟨_, hash', hs, B', hB'⟩
  cases op with
  | del k =>
    have hk : some k ∈ ((allOf (fun i => (B i).map HashEntry.addr)).map hash.keyAt)
        ↔ ∃ e ∈ allOf B, e.item.k = k := by
      rw [allOf_map, h.map_keyAt (fun _ he => he)]
      simp
    by_cases hex : ∃ e ∈ allOf B, e.item.k = k
    · obtain ⟨e, he, rfl⟩ := hex
      obtain ⟨us, vs, hB, hus⟩ := h.exists_bucket_split he
      obtain ⟨hash', hdel, hI⟩ := h.del_hit he hB hus
      refine ⟨.code 0, hash', ?_, ⟨_, hI⟩, _, _, h.shape, hI.shape, fun _ => ⟨rfl, ?_, ?_⟩, ?_⟩
      · simp [KvsOps.healthy, KvsOps.machine, kvsHashOps, hdel]
      · exact fun i hi => h.filter_bucket he hB hi
      · intro p hp
        rw [allOf_map] at hp
        obtain ⟨x, hx, rfl⟩ := List.mem_map.mp hp
        have hxB : x ∈ allOf B := by
          obtain ⟨j, hj, hx⟩ := mem_allOf.mp hx
          by_cases hjs : j = slotOf e.item.k
          · subst hjs
            rw [Function.update_self] at hx
            refine mem_allOf_of_mem hj ?_
            rcases List.mem_append.mp hx with hx | hx
            · simp [hB, hx]
            · simp [hB, hx]
          · rw [Function.update_of_ne hjs] at hx
            exact mem_allOf_of_mem hj hx
        rw [hI.entryAt_eq hx, h.entryAt_eq hxB]
      · exact fun hn => absurd (hk.mpr ⟨e, he, rfl⟩) hn
    · have hmiss : ∀ e ∈ allOf B, e.item.k ≠ k := fun e he heq => hex ⟨e, he, heq⟩
      refine ⟨.code (-1), hash, ?_, ⟨_, h⟩, _, _, h.shape, h.shape, ?_, ?_⟩
      · simp [KvsOps.healthy, KvsOps.machine, kvsHashOps, h.del_miss hmiss]
      · exact fun hm => absurd (hk.mp hm) hex
      · exact fun _ => ⟨⟨-1, by decide, rfl⟩, rfl⟩
  | set k v =>
    obtain ⟨r, hash', hs, B', hB'⟩ := hsim
    exact ⟨r, hash', hs, ⟨B', hB'⟩, _, _, h.shape, hB'.shape, trivial⟩
  | get k =>
    obtain ⟨r, hash', hs, B', hB'⟩ := hsim
    exact ⟨r, hash', hs, ⟨B', hB'⟩, _, _, h.shape, hB'.shape, trivial⟩
  | mod k v =>
    obtain ⟨r, hash', hs, B', hB'⟩ := hsim
    exact ⟨r, hash', hs, ⟨B', hB'⟩, _, _, h.shape, hB'.shape, trivial⟩
  | exist k =>
    obtain ⟨r, hash', hs, B', hB'⟩ := hsim
    exact ⟨r, hash', hs, ⟨B', hB'⟩, _, _, h.shape, hB'.shape, trivial⟩

end Inv

/-- **Every run of the hash table.** The bucket of a key is always in the
table. After every run of calls from `kvs_hash_create`, with allocations
succeeding, the results are those of the map – with a negative code for
deleting a missing key – the table has its shape, and every call on the way
did what it owes. -/
theorem run_chained (rand : ℕ → Bool) :
    (∀ key, 0 ≤ KvsHash.hash (some key) MAX_TABLE_SIZE
        ∧ KvsHash.hash (some key) MAX_TABLE_SIZE < MAX_TABLE_SIZE)
      ∧ ∃ hash, kvsHashCreate KvsHash.zero (Env.healthy rand) = (0, hash)
        ∧ ∀ ops, kvsHashOps.healthy.Holds StepOk hash ops
          ∧ ∃ hash', kvsHashOps.healthy.run hash ops
              = some (((engineSpec codes).run ∅ (ops.map Prod.fst)).1, hash')
            ∧ ∃ P, Shape hash' P := by
  refine ⟨fun key => ?_, ?_⟩
  · rw [hash_eq]
    exact ⟨Int.natCast_nonneg _, by exact_mod_cast slotOf_lt key⟩
  obtain ⟨hash, hcreate, hI⟩ := create_inv rand
  have hholds : KvsHash.Holds hash [] := ⟨_, hI, by rw [allOf_nil, List.map_nil]⟩
  refine ⟨hash, hcreate, fun ops => ⟨?_, ?_⟩⟩
  · exact Machine.holds_of_step (I := fun hash => ∃ B, Inv hash B)
      (fun _ i ⟨_, h⟩ => h.step_ok i) ⟨_, hI⟩
  · obtain ⟨hash', hrun, _, ⟨B', hB', -⟩, -⟩ := implements.run hholds ops
    exact ⟨hash', hrun, _, hB'.shape⟩

end KvsHash
