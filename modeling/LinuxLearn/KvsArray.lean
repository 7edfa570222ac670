import LinuxLearn.KvsEngine

/-!
# The array engine

`kvs_array.c`: a table of `KVS_ARRAY_SIZE` slots, of which the first
`total` hold an entry each. Everything is a linear scan; deleting an entry
moves the later ones down by one slot.

The table is allocated without being cleared, so what its unused slots
hold is arbitrary (`kvsArrayCreate` takes it as an argument) and nothing
may depend on it.
-/

/-- `KVS_ARRAY_SIZE`. -/
def KVS_ARRAY_SIZE : ℕ := 1024

/-- `kvs_array_item_t`. -/
structure KvsArrayItem where
  key : Ptr
  value : Ptr
deriving DecidableEq

/-- **`kvs_array_t`.** -/
structure KvsArray where
  /-- Missing before it is allocated. -/
  table : Option (Vector KvsArrayItem KVS_ARRAY_SIZE)
  total : ℤ
  /-- The memory of the strings. -/
  strs : Heap CString

namespace KvsArray

/-- The instance cleared by `init_kvengine`. -/
def zero : KvsArray := ⟨none, 0, Heap.empty⟩

/-- Reading `table[i]`, undefined outside the table. -/
def slot (inst : KvsArray) (i : ℤ) : Option KvsArrayItem := do
  let t ← inst.table
  if 0 ≤ i then t[i.toNat]? else none

/-- Writing `table[i]`, undefined outside the table. -/
def setSlot (inst : KvsArray) (i : ℤ) (item : KvsArrayItem) : Option KvsArray := do
  let t ← inst.table
  if 0 ≤ i ∧ i < KVS_ARRAY_SIZE then
    return { inst with table := some (t.setIfInBounds i.toNat item) }
  else
    none

end KvsArray

/-- `kvs_array_create`; `garbage` is what the allocated block holds. -/
def kvsArrayCreate (inst : KvsArray) (garbage : Vector KvsArrayItem KVS_ARRAY_SIZE)
    (env : Env) : ℤ × KvsArray :=
  if inst.table.isSome then (-1, inst)
  else if env.malloc 0 then (0, { inst with table := some garbage, total := 0 })
  else (-1, inst)

/-- The scan that `kvs_array_get`, `kvs_array_del` and `kvs_array_mod` share:
from slot `i`, over at most `n` slots, the index of the first whose key is
`key`. Slots without a key are passed over. -/
def kvsArrayScan (inst : KvsArray) (key : CString) : ℕ → ℕ → Option (Option ℕ)
  | 0, _ => some none
  | n + 1, i => do
    let item ← inst.slot i
    if item.key = 0 then
      kvsArrayScan inst key n (i + 1)
    else
      let k ← inst.strs.load item.key
      if strcmp k key = 0 then return some i else kvsArrayScan inst key n (i + 1)

/-- `kvs_array_get`. -/
def kvsArrayGet (inst : KvsArray) : Option CString → Option Ptr
  | none => some 0
  | some key => do
    match ← kvsArrayScan inst key inst.total.toNat 0 with
    | some i =>
      let item ← inst.slot i
      return item.value
    | none => return 0

/-- `kvs_array_set`: the capacity is tested before the key is looked up. -/
def kvsArraySet (inst : KvsArray) (key value : Option CString) (env : Env) :
    Option (ℤ × KvsArray) :=
  match key, value with
  | some key, some value =>
    if inst.total = KVS_ARRAY_SIZE then some (-1, inst)
    else do
      let str ← kvsArrayGet inst (some key)
      if str ≠ 0 then return (1, inst)
      else
        let (kcopy, strs) := inst.strs.malloc (env.malloc 0) key
        if kcopy = 0 then return (-2, { inst with strs := strs })
        else
          let (kvalue, strs) := strs.malloc (env.malloc 1) value
          if kvalue = 0 then
            let strs ← strs.free kcopy
            return (-2, { inst with strs := strs })
          else
            let inst ← KvsArray.setSlot { inst with strs := strs } inst.total ⟨kcopy, kvalue⟩
            return (0, { inst with total := inst.total + 1 })
  | _, _ => some (-1, inst)

/-- The loop that closes the gap a deleted entry leaves: `n` times, slot
`j + 1` is copied to slot `j`. -/
def kvsArrayShift (inst : KvsArray) : ℕ → ℕ → Option KvsArray
  | 0, _ => some inst
  | n + 1, j => do
    let item ← inst.slot (j + 1)
    let inst ← inst.setSlot j item
    kvsArrayShift inst n (j + 1)

/-- `kvs_array_del`: on a miss the loop counter is returned. -/
def kvsArrayDel (inst : KvsArray) : Option CString → Option (ℤ × KvsArray)
  | none => some (-1, inst)
  | some key => do
    match ← kvsArrayScan inst key inst.total.toNat 0 with
    | some i =>
      let item ← inst.slot i
      let strs ← inst.strs.free item.key
      let strs ← strs.free item.value
      let inst ← kvsArrayShift { inst with strs := strs } ((inst.total - 1).toNat - i) i
      let inst ← inst.setSlot (inst.total - 1) ⟨0, 0⟩
      return (0, { inst with total := inst.total - 1 })
    | none => return (inst.total.toNat, inst)

/-- `kvs_array_mod`: an empty table is answered before the scan. -/
def kvsArrayMod (inst : KvsArray) (key value : Option CString) (env : Env) :
    Option (ℤ × KvsArray) :=
  match key, value with
  | some key, some value =>
    if inst.total = 0 then some (KVS_ARRAY_SIZE, inst)
    else do
      match ← kvsArrayScan inst key inst.total.toNat 0 with
      | some i =>
        let item ← inst.slot i
        let strs ← inst.strs.free item.value
        let (kvalue, strs) := strs.malloc (env.malloc 0) value
        if kvalue = 0 then return (-2, { inst with strs := strs })
        else
          let inst ← KvsArray.setSlot { inst with strs := strs } i { item with value := kvalue }
          return (0, inst)
      | none => return (inst.total.toNat, inst)
  | _, _ => some (-1, inst)

/-- `kvs_array_exist`. -/
def kvsArrayExist (inst : KvsArray) : Option CString → Option ℤ
  | none => some (-1)
  | some key => do
    let str ← kvsArrayGet inst (some key)
    return if str = 0 then 1 else 0

/-- The operations `init_kvengine` registers for the array. -/
def kvsArrayOps : KvsOps KvsArray where
  set := kvsArraySet
  get := kvsArrayGet
  del := kvsArrayDel
  mod := kvsArrayMod
  exist := kvsArrayExist
  strs := KvsArray.strs

/-! ## Slots -/

namespace KvsArray

/-- The instance with slot `i` replaced, where there is one. -/
def putSlot (inst : KvsArray) (i : ℕ) (item : KvsArrayItem) : KvsArray :=
  { inst with table := inst.table.map (fun t => t.setIfInBounds i item) }

/-- The slot an entry is kept in. -/
def ofItem (it : Item) : KvsArrayItem := ⟨it.key, it.value⟩

theorem slot_natCast (inst : KvsArray) (i : ℕ) :
    inst.slot i = inst.table.bind (fun t => t[i]?) := by
  unfold slot
  simp

theorem setSlot_eq {inst : KvsArray} (ht : inst.table.isSome) {i : ℕ}
    (hi : i < KVS_ARRAY_SIZE) (item : KvsArrayItem) :
    inst.setSlot i item = some (inst.putSlot i item) := by
  obtain ⟨t, ht⟩ := Option.isSome_iff_exists.mp ht
  unfold setSlot putSlot
  simp [ht, hi]

theorem slot_putSlot {inst : KvsArray} (ht : inst.table.isSome) {i : ℕ}
    (hi : i < KVS_ARRAY_SIZE) (item : KvsArrayItem) (j : ℕ) :
    (inst.putSlot i item).slot j = if j = i then some item else inst.slot j := by
  obtain ⟨t, ht⟩ := Option.isSome_iff_exists.mp ht
  rw [slot_natCast, slot_natCast]
  simp [putSlot, ht, Vector.getElem?_setIfInBounds, hi, eq_comm]

@[simp] theorem table_putSlot_isSome (inst : KvsArray) (i : ℕ) (item : KvsArrayItem) :
    (inst.putSlot i item).table.isSome = inst.table.isSome := by
  simp [putSlot]

@[simp] theorem total_putSlot (inst : KvsArray) (i : ℕ) (item : KvsArrayItem) :
    (inst.putSlot i item).total = inst.total := rfl

@[simp] theorem strs_putSlot (inst : KvsArray) (i : ℕ) (item : KvsArrayItem) :
    (inst.putSlot i item).strs = inst.strs := rfl

theorem slot_isSome {inst : KvsArray} (ht : inst.table.isSome) {i : ℕ}
    (hi : i < KVS_ARRAY_SIZE) : ∃ item, inst.slot i = some item := by
  obtain ⟨t, ht⟩ := Option.isSome_iff_exists.mp ht
  exact ⟨t[i], by rw [slot_natCast, ht, Option.bind_some, Vector.getElem?_eq_getElem hi]⟩

/-- **The shift moves `n` slots down by one**, from slot `i + 1` on. -/
theorem shift_eq (n : ℕ) : ∀ (i : ℕ) {inst : KvsArray}, inst.table.isSome = true →
    i + n < KVS_ARRAY_SIZE → ∃ inst', kvsArrayShift inst n i = some inst'
      ∧ inst'.table.isSome = true ∧ inst'.total = inst.total ∧ inst'.strs = inst.strs
      ∧ ∀ j : ℕ, inst'.slot j = if i ≤ j ∧ j < i + n then inst.slot (j + 1 : ℕ) else inst.slot j := by
  induction n with
  | zero =>
    refine fun i inst ht _ => ⟨inst, rfl, ht, rfl, rfl, fun j => ?_⟩
    rw [if_neg (by omega)]
  | succ n ih =>
    intro i inst ht hi
    obtain ⟨item, hitem⟩ := slot_isSome ht (show i + 1 < KVS_ARRAY_SIZE by omega)
    have hset := setSlot_eq ht (show i < KVS_ARRAY_SIZE by omega) item
    have hput := slot_putSlot ht (show i < KVS_ARRAY_SIZE by omega) item
    obtain ⟨inst', hshift, ht', htotal, hstrs, hslot⟩ :=
      ih (i + 1) ((table_putSlot_isSome inst i item).trans ht) (by omega)
    refine ⟨inst', ?_, ht', htotal, hstrs, fun j => ?_⟩
    · have hitem' : inst.slot ((i : ℤ) + 1) = some item := hitem
      simp only [kvsArrayShift, hitem', hset, Option.bind_eq_bind, Option.bind_some, hshift]
    · rw [hslot, hput, hput]
      rcases Nat.lt_trichotomy j i with hlt | heq | hgt
      · rw [if_neg (by omega), if_neg (by omega), if_neg (by omega)]
      · subst heq
        rw [if_neg (by omega), if_pos rfl, if_pos (by omega), hitem]
      · by_cases hj : j < i + 1 + n
        · rw [if_pos (by omega), if_neg (by omega), if_pos (by omega)]
        · rw [if_neg (by omega), if_neg (by omega), if_neg (by omega)]

/-- **The entries of the array**: the first `total` slots hold them, in order,
their keys are distinct and their strings are their own. -/
structure Inv (inst : KvsArray) (items : List Item) : Prop where
  table_isSome : inst.table.isSome = true
  total_eq : inst.total = items.length
  length_le : items.length ≤ KVS_ARRAY_SIZE
  slot_eq : ∀ (i : ℕ) (it : Item), items[i]? = some it → inst.slot i = some (ofItem it)
  nodup : (keysOf items).Nodup
  owns : Owns inst.strs items

end KvsArray

namespace KvsArray.Inv

variable {inst : KvsArray} {items xs ys : List Item} {it : Item} {key : CString}

theorem toNat_total (h : Inv inst items) : inst.total.toNat = items.length := by
  rw [h.total_eq, Int.toNat_natCast]

/-- One step of the scan, at a slot that holds an entry. -/
theorem scan_succ (h : Inv inst items) {i : ℕ} (hi : items[i]? = some it) (n : ℕ) :
    kvsArrayScan inst key (n + 1) i
      = if it.k = key then some (some i) else kvsArrayScan inst key n (i + 1) := by
  have hmem : it ∈ items := List.mem_of_getElem? hi
  have hload := h.owns.key_load it hmem
  have hslot : inst.slot i = some ⟨it.key, it.value⟩ := h.slot_eq i it hi
  simp [kvsArrayScan, hslot, hload, Heap.ne_null_of_load hload, strcmp_eq_zero]

/-- **The scan finds nothing** for a key that is not stored. -/
theorem scan_miss (h : Inv inst items) (hk : key ∉ keysOf items) :
    kvsArrayScan inst key inst.total.toNat 0 = some none := by
  have hloop : ∀ n i, i + n = items.length → kvsArrayScan inst key n i = some none := by
    intro n
    induction n with
    | zero => exact fun i _ => rfl
    | succ n ih =>
      intro i hi
      have hlt : i < items.length := by omega
      have hne : items[i].k ≠ key := fun he =>
        hk (he ▸ List.mem_map_of_mem (List.getElem_mem hlt))
      rw [h.scan_succ (List.getElem?_eq_getElem hlt), if_neg hne]
      exact ih (i + 1) (by omega)
  rw [h.toNat_total]
  exact hloop _ 0 (Nat.zero_add _)

/-- **The scan finds the slot** of a stored key. -/
theorem scan_hit (h : Inv inst (xs ++ it :: ys)) :
    kvsArrayScan inst it.k inst.total.toNat 0 = some (some xs.length) := by
  have hxs : it.k ∉ keysOf xs := fun hm =>
    (nodup_keysOf_middle.mp h.nodup).1 (by rw [keysOf_append]; exact List.mem_append_left _ hm)
  -- the counter runs over the entries before the key's own, all of them misses
  have hloop : ∀ n i, i + n = xs.length →
      kvsArrayScan inst it.k (n + (ys.length + 1)) i = some (some xs.length) := by
    intro n
    induction n with
    | zero =>
      intro i hi
      have hget : (xs ++ it :: ys)[i]? = some it := by simp [show i = xs.length by omega]
      rw [Nat.zero_add, h.scan_succ hget, if_pos rfl, show i = xs.length by omega]
    | succ n ih =>
      intro i hi
      have hlt : i < xs.length := by omega
      have hget : (xs ++ it :: ys)[i]? = some xs[i] := by
        rw [List.getElem?_append_left hlt, List.getElem?_eq_getElem hlt]
      have hne : xs[i].k ≠ it.k := fun he =>
        hxs (he ▸ List.mem_map_of_mem (List.getElem_mem hlt))
      rw [show n + 1 + (ys.length + 1) = n + (ys.length + 1) + 1 by omega,
        h.scan_succ hget, if_neg hne]
      exact ih (i + 1) (by omega)
  rw [h.toNat_total, List.length_append, List.length_cons]
  exact hloop xs.length 0 (Nat.zero_add _)

theorem slot_middle (h : Inv inst (xs ++ it :: ys)) :
    inst.slot xs.length = some ⟨it.key, it.value⟩ :=
  h.slot_eq xs.length it (by simp)

/-- `kvs_array_get` of a stored key. -/
theorem get_hit (h : Inv inst (xs ++ it :: ys)) :
    kvsArrayGet inst (some it.k) = some it.value := by
  unfold kvsArrayGet
  simp [h.scan_hit, h.slot_middle]

/-- `kvs_array_get` of a missing key. -/
theorem get_miss (h : Inv inst items) (hk : key ∉ keysOf items) :
    kvsArrayGet inst (some key) = some 0 := by
  unfold kvsArrayGet
  simp [h.scan_miss hk]

/-- A stored key's value is not null. -/
theorem get_ne_null (h : Inv inst (xs ++ it :: ys)) : it.value ≠ 0 :=
  Heap.ne_null_of_load (h.owns.value_load it (by simp))

/-- `kvs_array_set` into a full table. -/
theorem set_full (h : Inv inst items) (hfull : items.length = KVS_ARRAY_SIZE)
    (value : CString) (env : Env) :
    kvsArraySet inst (some key) (some value) env = some (-1, inst) := by
  unfold kvsArraySet
  simp [h.total_eq, hfull]

/-- `kvs_array_set` of a stored key. -/
theorem set_hit (h : Inv inst (xs ++ it :: ys))
    (hroom : (xs ++ it :: ys).length < KVS_ARRAY_SIZE) (value : CString) (env : Env) :
    kvsArraySet inst (some it.k) (some value) env = some (1, inst) := by
  have htotal : inst.total ≠ KVS_ARRAY_SIZE := by rw [h.total_eq]; exact_mod_cast hroom.ne
  unfold kvsArraySet
  simp [htotal, h.get_hit, h.get_ne_null]

/-- **`kvs_array_set` of a missing key appends its entry.** -/
theorem set_new (h : Inv inst items) (hroom : items.length < KVS_ARRAY_SIZE)
    (hk : key ∉ keysOf items) (value : CString) (rand : ℕ → Bool) :
    ∃ inst' it, kvsArraySet inst (some key) (some value) (Env.healthy rand) = some (0, inst')
      ∧ Inv inst' (items ++ [it]) ∧ it.k = key ∧ it.v = value := by
  have htotal : inst.total ≠ KVS_ARRAY_SIZE := by rw [h.total_eq]; exact_mod_cast hroom.ne
  let inst₁ : KvsArray := { inst with strs := (inst.strs.alloc key).alloc value }
  let it : Item := ⟨inst.strs.next, (inst.strs.alloc key).next, key, value⟩
  have ht₁ : inst₁.table.isSome = true := h.table_isSome
  have hset : inst₁.setSlot inst.total (ofItem it) = some (inst₁.putSlot items.length (ofItem it)) := by
    rw [h.total_eq]
    exact setSlot_eq ht₁ hroom _
  refine ⟨{ inst₁.putSlot items.length (ofItem it) with total := inst.total + 1 }, it, ?_,
    ⟨?_, ?_, ?_, ?_, ?_, ?_⟩, rfl, rfl⟩
  · unfold kvsArraySet
    simp only [htotal, h.get_miss hk, if_false, Option.bind_eq_bind, Option.bind_some, ne_eq,
      not_true_eq_false, Env.malloc_healthy, Heap.malloc_true, Heap.next_ne_null]
    exact congrArg (fun o => Option.bind o _) hset
  · exact (table_putSlot_isSome inst₁ _ _).trans ht₁
  · simp [h.total_eq]
  · simpa using hroom
  · intro i x hi
    have hslot := slot_putSlot ht₁ hroom (ofItem it) i
    show (inst₁.putSlot items.length (ofItem it)).slot i = some (ofItem x)
    rw [hslot]
    rcases Nat.lt_trichotomy i items.length with hlt | heq | hgt
    · rw [List.getElem?_append_left hlt] at hi
      rw [if_neg hlt.ne]
      exact h.slot_eq i x hi
    · subst heq
      rw [List.getElem?_concat_length] at hi
      rw [if_pos rfl, Option.some.inj hi]
    · rw [List.getElem?_eq_none (by simp; omega)] at hi
      cases hi
  · rw [keysOf_append, List.nodup_append_comm]
    exact List.nodup_cons.mpr ⟨hk, h.nodup⟩
  · exact (h.owns.alloc_item key value).perm (List.perm_append_singleton it items).symm

/-- **`kvs_array_del` of a stored key removes its entry** and keeps the order
of the others. -/
theorem del_hit (h : Inv inst (xs ++ it :: ys)) :
    ∃ inst', kvsArrayDel inst (some it.k) = some (0, inst') ∧ Inv inst' (xs ++ ys) := by
  have hlen : (xs ++ it :: ys).length = xs.length + ys.length + 1 := by simp; omega
  have hle := h.length_le
  obtain ⟨hfreek, hfreev, howns⟩ := (h.owns.perm List.perm_middle).free_item
  let inst₁ : KvsArray := { inst with strs := (inst.strs.erase it.key).erase it.value }
  have ht₁ : inst₁.table.isSome = true := h.table_isSome
  have hn : (inst.total - 1).toNat - xs.length = ys.length := by rw [h.total_eq]; omega
  obtain ⟨inst₂, hshift, ht₂, htotal₂, hstrs₂, hslot₂⟩ :=
    shift_eq ys.length xs.length ht₁ (by omega)
  have htotal : inst₂.total - 1 = (xs.length + ys.length : ℕ) := by
    rw [htotal₂, show inst₁.total = inst.total from rfl, h.total_eq, hlen]
    push_cast
    omega
  have hset : inst₂.setSlot (inst₂.total - 1) ⟨0, 0⟩
      = some (inst₂.putSlot (xs.length + ys.length) ⟨0, 0⟩) := by
    rw [htotal]
    exact setSlot_eq ht₂ (by omega) _
  refine ⟨{ inst₂.putSlot (xs.length + ys.length) ⟨0, 0⟩ with total := inst₂.total - 1 }, ?_,
    ⟨?_, ?_, ?_, ?_, ?_, ?_⟩⟩
  · unfold kvsArrayDel
    simp only [h.scan_hit, h.slot_middle, hfreek, hfreev, hn, Option.bind_eq_bind,
      Option.bind_some]
    rw [hshift, Option.bind_some, hset]
    rfl
  · exact (table_putSlot_isSome inst₂ _ _).trans ht₂
  · rw [List.length_append]
    exact htotal
  · rw [List.length_append]
    omega
  · intro j x hj
    have hjlt : j < xs.length + ys.length := by
      rw [← List.length_append]
      exact (List.getElem?_eq_some_iff.mp hj).1
    show (inst₂.putSlot (xs.length + ys.length) ⟨0, 0⟩).slot j = some (ofItem x)
    rw [slot_putSlot ht₂ (by omega), if_neg hjlt.ne, hslot₂]
    by_cases hjx : j < xs.length
    · rw [if_neg (by omega)]
      rw [List.getElem?_append_left hjx] at hj
      exact h.slot_eq j x (by rw [List.getElem?_append_left hjx]; exact hj)
    · rw [if_pos (by omega)]
      rw [List.getElem?_append_right (by omega)] at hj
      refine h.slot_eq (j + 1) x ?_
      rw [List.getElem?_append_right (by omega), show j + 1 - xs.length = j - xs.length + 1 by omega,
        List.getElem?_cons_succ]
      exact hj
  · exact (nodup_keysOf_middle.mp h.nodup).2
  · show Owns inst₂.strs (xs ++ ys)
    rw [hstrs₂]
    exact howns

/-- `kvs_array_del` of a missing key returns the number of entries. -/
theorem del_miss (h : Inv inst items) (hk : key ∉ keysOf items) :
    kvsArrayDel inst (some key) = some ((items.length : ℤ), inst) := by
  unfold kvsArrayDel
  simp only [h.scan_miss hk, Option.bind_eq_bind, Option.bind_some]
  rw [h.toNat_total]
  rfl

/-- **`kvs_array_mod` of a stored key replaces its value** in place. -/
theorem mod_hit (h : Inv inst (xs ++ it :: ys)) (value : CString) (rand : ℕ → Bool) :
    ∃ inst' it', kvsArrayMod inst (some it.k) (some value) (Env.healthy rand) = some (0, inst')
      ∧ Inv inst' (xs ++ it' :: ys) ∧ it'.k = it.k ∧ it'.v = value := by
  have hle := h.length_le
  have hlen : (xs ++ it :: ys).length = xs.length + ys.length + 1 := by simp; omega
  have htotal : inst.total ≠ 0 := by rw [h.total_eq]; omega
  obtain ⟨hfree, howns⟩ := (h.owns.perm List.perm_middle).replace_value value
  let inst₁ : KvsArray := { inst with strs := (inst.strs.erase it.value).alloc value }
  let it' : Item := { it with value := (inst.strs.erase it.value).next, v := value }
  have ht₁ : inst₁.table.isSome = true := h.table_isSome
  have hlt : xs.length < KVS_ARRAY_SIZE := by omega
  refine ⟨inst₁.putSlot xs.length (ofItem it'), it', ?_, ⟨?_, ?_, ?_, ?_, ?_, ?_⟩, rfl, rfl⟩
  · unfold kvsArrayMod
    simp only [htotal, if_false, h.scan_hit, h.slot_middle, hfree, Option.bind_eq_bind,
      Option.bind_some, Env.malloc_healthy, Heap.malloc_true, Heap.next_ne_null]
    exact congrArg (fun o => Option.bind o _) (setSlot_eq ht₁ hlt (ofItem it'))
  · exact (table_putSlot_isSome inst₁ _ _).trans ht₁
  · rw [total_putSlot, show inst₁.total = inst.total from rfl, h.total_eq]
    simp
  · simpa using hle
  · intro j x hj
    rw [slot_putSlot ht₁ hlt]
    by_cases hjx : j = xs.length
    · subst hjx
      rw [List.getElem?_append_right (Nat.le_refl _), Nat.sub_self, List.getElem?_cons_zero] at hj
      rw [if_pos rfl, Option.some.inj hj]
    · rw [if_neg hjx]
      refine h.slot_eq j x ?_
      rw [← hj]
      rcases Nat.lt_or_gt_of_ne hjx with hlt | hgt
      · rw [List.getElem?_append_left hlt, List.getElem?_append_left hlt]
      · rw [List.getElem?_append_right hgt.le, List.getElem?_append_right hgt.le,
          show j - xs.length = j - xs.length - 1 + 1 by omega, List.getElem?_cons_succ,
          List.getElem?_cons_succ]
  · obtain ⟨hk, hnd⟩ := nodup_keysOf_middle.mp h.nodup
    exact nodup_keysOf_middle.mpr ⟨hk, hnd⟩
  · exact howns.perm List.perm_middle.symm

/-- `kvs_array_mod` of a missing key: the capacity for an empty table, else
the number of entries. -/
theorem mod_miss (h : Inv inst items) (hk : key ∉ keysOf items) (value : CString) (env : Env) :
    kvsArrayMod inst (some key) (some value) env
      = some (if items.length = 0 then (KVS_ARRAY_SIZE : ℤ) else items.length, inst) := by
  unfold kvsArrayMod
  by_cases h0 : items.length = 0
  · simp [h.total_eq, h0]
  · have htotal : inst.total ≠ 0 := by rw [h.total_eq]; omega
    simp only [htotal, h0, if_false, h.scan_miss hk, Option.bind_eq_bind, Option.bind_some]
    rw [h.toNat_total]
    rfl

theorem exist_hit (h : Inv inst (xs ++ it :: ys)) : kvsArrayExist inst (some it.k) = some 0 := by
  unfold kvsArrayExist
  simp [h.get_hit, h.get_ne_null]

theorem exist_miss (h : Inv inst items) (hk : key ∉ keysOf items) :
    kvsArrayExist inst (some key) = some 1 := by
  unfold kvsArrayExist
  simp [h.get_miss hk]

end KvsArray.Inv

/-- What the array returns on a miss, and when it is full. -/
def kvsArrayCodes : Codes where
  full := fun n => n == KVS_ARRAY_SIZE
  delMiss := fun n => n
  modMiss := fun n => if n = 0 then KVS_ARRAY_SIZE else n

theorem kvsArray_room {inst : KvsArray} {items : List Item} (h : inst.Inv items)
    (hroom : kvsArrayCodes.full items.length = false) : items.length < KVS_ARRAY_SIZE :=
  lt_of_le_of_ne h.length_le (by simpa [kvsArrayCodes] using hroom)

/-- **The array implements the map**, up to its capacity and its miss codes. -/
theorem kvsArray_implements : Implements kvsArrayOps KvsArray.Inv kvsArrayCodes where
  owns := fun h => h.owns
  nodup := fun h => h.nodup
  get_hit := fun h hit => by
    obtain ⟨xs, ys, rfl⟩ := List.append_of_mem hit
    exact h.get_hit
  get_miss := fun h hk => h.get_miss hk
  set_full := fun {_ _ _ v r} h hfull =>
    h.set_full (by simpa [kvsArrayCodes] using hfull) v (Env.healthy r)
  set_hit := fun {_ _ _ v r} h hroom hk => by
    obtain ⟨xs, it, ys, rfl, rfl⟩ := exists_split_of_mem_keysOf hk
    exact h.set_hit (kvsArray_room h hroom) v (Env.healthy r)
  set_new := fun {s items k v r} h hroom hk => by
    obtain ⟨s', it, hset, hI, hk', hv⟩ := h.set_new (kvsArray_room h hroom) hk v r
    exact ⟨s', items, it, [], hset, hI, (List.append_nil items).symm, hk', hv⟩
  del_hit := fun h => h.del_hit
  del_miss := fun h hk => h.del_miss hk
  mod_hit := fun {_ _ _ _ v r} h => h.mod_hit v r
  mod_miss := fun {_ _ _ v r} h hk => h.mod_miss hk v (Env.healthy r)
  exist_hit := fun h hk => by
    obtain ⟨xs, it, ys, rfl, rfl⟩ := exists_split_of_mem_keysOf hk
    exact h.exist_hit
  exist_miss := fun h hk => h.exist_miss hk

/-- The array after `init_kvengine`. -/
def kvsArrayInit (garbage : Vector KvsArrayItem KVS_ARRAY_SIZE) : KvsArray :=
  (kvsArrayCreate KvsArray.zero garbage (Env.healthy (fun _ => false))).2

theorem kvsArrayInit_inv (garbage : Vector KvsArrayItem KVS_ARRAY_SIZE) :
    (kvsArrayInit garbage).Inv [] where
  table_isSome := rfl
  total_eq := rfl
  length_le := Nat.zero_le _
  slot_eq := fun i it h => by simp at h
  nodup := List.nodup_nil
  owns := Owns.nil _

/-! ## What the array is meant to do, and when it does

The table is meant to be a map of at most `KVS_ARRAY_SIZE` keys that keeps
them in the order they came in. `KvsArray.StepOk` says what one call owes;
`KvsArray.Sound` is the calls on which the array pays it. A call outside
them is a `SET` of a stored key while the table is full – the capacity is
tested first – or a `DEL` on an empty table, where the loop counter that a
miss returns is `0`, the code of a hit. -/

namespace KvsArray

/-- The key and the value in slot `i`. -/
def entryAt (inst : KvsArray) (i : ℕ) : Option (CString × CString) := do
  let item ← inst.slot i
  let k ← inst.strs.load item.key
  let v ← inst.strs.load item.value
  return (k, v)

/-- The keys and values in `n` slots from slot `i` on. -/
def entriesFrom (inst : KvsArray) : ℕ → ℕ → Option (List (CString × CString))
  | 0, _ => some []
  | n + 1, i => do
    let e ← inst.entryAt i
    let es ← inst.entriesFrom n (i + 1)
    return e :: es

/-- **The contents of the table**: the keys and values in its first `total`
slots. There are none if one of these slots has a null or dangling
pointer. -/
def contents (inst : KvsArray) : Option (List (CString × CString)) :=
  inst.entriesFrom inst.total.toNat 0

/-- A call on a map of at most `KVS_ARRAY_SIZE` keys in insertion order: from
the contents `l`, it may return `r` and leave the contents `l'`. -/
def BoundedMapStep (l : List (CString × CString)) : KvsOp → KvsRes → List (CString × CString) → Prop
  | .set k v, r, l' =>
    if k ∈ l.map Prod.fst then r = .code 1 ∧ l' = l
    else if l.length < KVS_ARRAY_SIZE then r = .code 0 ∧ l' = l ++ [(k, v)]
    else r = .code (-1) ∧ l' = l
  | .get k, r, l' => r = .value (l.lookup k) ∧ l' = l
  | .del k, r, l' =>
    if k ∈ l.map Prod.fst then r = .code 0 ∧ l' = l.filter (fun e => e.1 ≠ k)
    else (∃ c > 0, r = .code c) ∧ l' = l
  | .mod k v, r, l' =>
    if k ∈ l.map Prod.fst then r = .code 0 ∧ l' = l.map (fun e => if e.1 = k then (k, v) else e)
    else (∃ c > 0, r = .code c) ∧ l' = l
  | .exist k, r, l' => r = .code (if k ∈ l.map Prod.fst then 0 else 1) ∧ l' = l

/-- **What a call owes**: before and after it, `total` is within the capacity
and the used slots hold distinct keys, and the call is one of the bounded
map. -/
def StepOk (inst : KvsArray) (i : KvsOp × (ℕ → Bool)) (r : KvsRes) (inst' : KvsArray) : Prop :=
  (0 ≤ inst.total ∧ inst.total ≤ KVS_ARRAY_SIZE) ∧ (0 ≤ inst'.total ∧ inst'.total ≤ KVS_ARRAY_SIZE)
    ∧ ∃ l l', inst.contents = some l ∧ inst'.contents = some l' ∧ (l.map Prod.fst).Nodup
      ∧ (l'.map Prod.fst).Nodup ∧ BoundedMapStep l i.1 r l'

/-- **The calls on which the array does what it is meant to do.** -/
def Sound (inst : KvsArray) : KvsOp → Prop
  | .set k _ => ∀ l, inst.contents = some l → k ∈ l.map Prod.fst → inst.total ≠ KVS_ARRAY_SIZE
  | .del _ => inst.total ≠ 0
  | _ => True

/-- The keys and values of a sequence of entries. -/
def pairs (items : List Item) : List (CString × CString) := items.map (fun it => (it.k, it.v))

theorem map_fst_pairs (items : List Item) : (pairs items).map Prod.fst = keysOf items := by
  simp [pairs, keysOf]

namespace Inv

variable {inst : KvsArray} {items xs ys : List Item} {it : Item} {key : CString}

/-- The contents of the table are its entries. -/
theorem contents_eq (h : Inv inst items) : inst.contents = some (pairs items) := by
  have hloop : ∀ n i, i + n = items.length →
      inst.entriesFrom n i = some (pairs (items.drop i)) := by
    intro n
    induction n with
    | zero =>
      intro i hi
      rw [List.drop_eq_nil_of_le (by omega)]
      rfl
    | succ n ih =>
      intro i hi
      have hlt : i < items.length := by omega
      have hmem : items[i] ∈ items := List.getElem_mem hlt
      have hslot := h.slot_eq i items[i] (List.getElem?_eq_getElem hlt)
      have hentry : inst.entryAt i = some (items[i].k, items[i].v) := by
        unfold entryAt
        simp [hslot, ofItem, h.owns.key_load _ hmem, h.owns.value_load _ hmem]
      rw [List.drop_eq_getElem_cons hlt]
      simp only [entriesFrom, hentry, ih (i + 1) (by omega), Option.bind_eq_bind,
        Option.bind_some]
      rfl
  unfold contents
  rw [h.toNat_total, hloop items.length 0 (Nat.zero_add _), List.drop_zero]

theorem total_nonneg (h : Inv inst items) : 0 ≤ inst.total := by
  rw [h.total_eq]
  exact Int.natCast_nonneg _

theorem total_le (h : Inv inst items) : inst.total ≤ KVS_ARRAY_SIZE := by
  rw [h.total_eq]
  exact_mod_cast h.length_le

end Inv

/-- Between states that hold entries, what a call owes is the step of the
bounded map. -/
theorem stepOk_iff {inst inst' : KvsArray} {items items' : List Item} (h : inst.Inv items)
    (h' : inst'.Inv items') (i : KvsOp × (ℕ → Bool)) (r : KvsRes) :
    StepOk inst i r inst' ↔ BoundedMapStep (pairs items) i.1 r (pairs items') := by
  constructor
  · rintro ⟨-, -, l, l', hl, hl', -, -, hstep⟩
    rw [h.contents_eq] at hl
    rw [h'.contents_eq] at hl'
    rw [Option.some.inj hl, Option.some.inj hl']
    exact hstep
  · intro hstep
    refine ⟨⟨h.total_nonneg, h.total_le⟩, ⟨h'.total_nonneg, h'.total_le⟩, _, _,
      h.contents_eq, h'.contents_eq, ?_, ?_, hstep⟩
    · rw [map_fst_pairs]
      exact h.nodup
    · rw [map_fst_pairs]
      exact h'.nodup

section Pairs

variable {items xs ys : List Item} {it : Item} {k : CString}

theorem pairs_append (xs ys : List Item) : pairs (xs ++ ys) = pairs xs ++ pairs ys :=
  List.map_append

theorem pairs_cons (it : Item) (xs : List Item) : pairs (it :: xs) = (it.k, it.v) :: pairs xs := rfl

theorem length_pairs (items : List Item) : (pairs items).length = items.length :=
  List.length_map _

/-- The key of a pair is the key of an entry. -/
theorem fst_ne_of_mem_pairs (hk : k ∉ keysOf items) {e : CString × CString}
    (he : e ∈ pairs items) : e.1 ≠ k := by
  obtain ⟨it, hit, rfl⟩ := List.mem_map.mp he
  exact fun heq => hk (List.mem_map.mpr ⟨it, hit, heq⟩)

theorem filter_pairs_of_notMem (hk : k ∉ keysOf items) :
    (pairs items).filter (fun e => e.1 ≠ k) = pairs items :=
  List.filter_eq_self.mpr (fun _ he => decide_eq_true (fst_ne_of_mem_pairs hk he))

theorem map_pairs_of_notMem (hk : k ∉ keysOf items) (v : CString) :
    (pairs items).map (fun e => if e.1 = k then (k, v) else e) = pairs items := by
  refine (List.map_congr_left (fun e he => ?_)).trans (List.map_id _)
  exact if_neg (fst_ne_of_mem_pairs hk he)

theorem lookup_pairs_of_notMem (hk : k ∉ keysOf items) : (pairs items).lookup k = none :=
  List.lookup_eq_none_iff.mpr (fun _ he => by
    simpa using (fst_ne_of_mem_pairs hk he).symm)

/-- The entries around one with a distinct key have other keys. -/
theorem notMem_keysOf_sides (hnd : (keysOf (xs ++ it :: ys)).Nodup) :
    it.k ∉ keysOf xs ∧ it.k ∉ keysOf ys := by
  have hk := (nodup_keysOf_middle.mp hnd).1
  rw [keysOf_append, List.mem_append] at hk
  exact not_or.mp hk

theorem lookup_pairs (hnd : (keysOf (xs ++ it :: ys)).Nodup) :
    (pairs (xs ++ it :: ys)).lookup it.k = some it.v := by
  rw [pairs_append, pairs_cons, List.lookup_append,
    lookup_pairs_of_notMem (notMem_keysOf_sides hnd).1, List.lookup_cons_self]
  rfl

theorem filter_pairs (hnd : (keysOf (xs ++ it :: ys)).Nodup) :
    (pairs (xs ++ it :: ys)).filter (fun e => e.1 ≠ it.k) = pairs (xs ++ ys) := by
  obtain ⟨hx, hy⟩ := notMem_keysOf_sides hnd
  rw [pairs_append, pairs_append, pairs_cons, List.filter_append, filter_pairs_of_notMem hx,
    List.filter_cons_of_neg (by simp), filter_pairs_of_notMem hy]

theorem map_pairs (hnd : (keysOf (xs ++ it :: ys)).Nodup) {it' : Item} (hk : it'.k = it.k) :
    (pairs (xs ++ it :: ys)).map (fun e => if e.1 = it.k then (it.k, it'.v) else e)
      = pairs (xs ++ it' :: ys) := by
  obtain ⟨hx, hy⟩ := notMem_keysOf_sides hnd
  rw [pairs_append, pairs_append, pairs_cons, pairs_cons, List.map_append,
    map_pairs_of_notMem hx, List.map_cons, map_pairs_of_notMem hy, if_pos rfl, hk]

end Pairs

/-- **One call of the array**: it returns, keeps holding entries, and does
what it is meant to do exactly when the call is sound. -/
theorem step_sound {inst : KvsArray} {items : List Item} (h : inst.Inv items)
    (i : KvsOp × (ℕ → Bool)) :
    ∃ r inst', kvsArrayOps.healthy inst i = some (r, inst') ∧ (∃ items', inst'.Inv items')
      ∧ (StepOk inst i r inst' ↔ Sound inst i.1) := by
  obtain ⟨op, rand⟩ := i
  cases op with
  | set k v =>
    have hSound : Sound inst (.set k v) ↔ (k ∈ keysOf items → items.length ≠ KVS_ARRAY_SIZE) := by
      unfold Sound
      rw [h.contents_eq, h.total_eq]
      simp only [Option.some.injEq, forall_eq', map_fst_pairs, ne_eq, Nat.cast_inj]
    by_cases hfull : items.length = KVS_ARRAY_SIZE
    · refine ⟨.code (-1), inst, ?_, ⟨items, h⟩, ?_⟩
      · simp [KvsOps.healthy, KvsOps.machine, kvsArrayOps, h.set_full hfull]
      · rw [stepOk_iff h h, hSound]
        simp [BoundedMapStep, map_fst_pairs, length_pairs, hfull]
    have hroom : items.length < KVS_ARRAY_SIZE := lt_of_le_of_ne h.length_le hfull
    by_cases hk : k ∈ keysOf items
    · obtain ⟨xs, it, ys, rfl, rfl⟩ := exists_split_of_mem_keysOf hk
      refine ⟨.code 1, inst, ?_, ⟨_, h⟩, ?_⟩
      · simp [KvsOps.healthy, KvsOps.machine, kvsArrayOps, h.set_hit hroom]
      · rw [stepOk_iff h h, hSound]
        simp only [BoundedMapStep, map_fst_pairs, hk, if_true, and_true, true_imp_iff, ne_eq, hfull,
          not_false_eq_true]
    · obtain ⟨inst', it, hset, hI, rfl, rfl⟩ := h.set_new hroom hk v rand
      refine ⟨.code 0, inst', ?_, ⟨_, hI⟩, ?_⟩
      · simp [KvsOps.healthy, KvsOps.machine, kvsArrayOps, hset]
      · have hpairs : pairs (items ++ [it]) = pairs items ++ [(it.k, it.v)] :=
          pairs_append items [it]
        rw [stepOk_iff h hI, hSound]
        simp [BoundedMapStep, map_fst_pairs, hk, length_pairs, hroom, hpairs]
  | get k =>
    refine ⟨.value ((pairs items).lookup k), inst, ?_, ⟨items, h⟩, ?_⟩
    · by_cases hk : k ∈ keysOf items
      · obtain ⟨xs, it, ys, rfl, rfl⟩ := exists_split_of_mem_keysOf hk
        have hload := h.owns.value_load it (by simp)
        rw [lookup_pairs h.nodup]
        simp [KvsOps.healthy, KvsOps.machine, kvsArrayOps, h.get_hit, h.get_ne_null, hload]
      · rw [lookup_pairs_of_notMem hk]
        simp [KvsOps.healthy, KvsOps.machine, kvsArrayOps, h.get_miss hk]
    · rw [stepOk_iff h h]
      simp [BoundedMapStep, Sound]
  | del k =>
    have hSound : Sound inst (.del k) ↔ items.length ≠ 0 := by
      show inst.total ≠ 0 ↔ _
      rw [h.total_eq, ne_eq, Nat.cast_eq_zero]
    by_cases hk : k ∈ keysOf items
    · obtain ⟨xs, it, ys, rfl, rfl⟩ := exists_split_of_mem_keysOf hk
      obtain ⟨inst', hdel, hI⟩ := h.del_hit
      refine ⟨.code 0, inst', ?_, ⟨_, hI⟩, ?_⟩
      · simp [KvsOps.healthy, KvsOps.machine, kvsArrayOps, hdel]
      · rw [stepOk_iff h hI, hSound]
        simp only [BoundedMapStep, map_fst_pairs, hk, if_true, filter_pairs h.nodup]
        simp
    · refine ⟨.code items.length, inst, ?_, ⟨items, h⟩, ?_⟩
      · simp [KvsOps.healthy, KvsOps.machine, kvsArrayOps, h.del_miss hk]
      · rw [stepOk_iff h h, hSound]
        simp [BoundedMapStep, map_fst_pairs, hk, Nat.pos_iff_ne_zero]
  | mod k v =>
    by_cases hk : k ∈ keysOf items
    · obtain ⟨xs, it, ys, rfl, rfl⟩ := exists_split_of_mem_keysOf hk
      obtain ⟨inst', it', hmod, hI, hk', rfl⟩ := h.mod_hit v rand
      refine ⟨.code 0, inst', ?_, ⟨_, hI⟩, ?_⟩
      · simp [KvsOps.healthy, KvsOps.machine, kvsArrayOps, hmod]
      · rw [stepOk_iff h hI]
        simp only [BoundedMapStep, map_fst_pairs, hk, if_true, map_pairs h.nodup hk']
        simp [Sound]
    · refine ⟨.code (if items.length = 0 then (KVS_ARRAY_SIZE : ℤ) else items.length), inst, ?_,
        ⟨items, h⟩, ?_⟩
      · simp [KvsOps.healthy, KvsOps.machine, kvsArrayOps, h.mod_miss hk]
      · rw [stepOk_iff h h]
        simp only [BoundedMapStep, map_fst_pairs, hk, if_false, Sound, and_true, iff_true]
        refine ⟨_, ?_, rfl⟩
        split
        · decide
        · exact_mod_cast Nat.pos_of_ne_zero ‹_›
  | exist k =>
    refine ⟨.code (if k ∈ keysOf items then 0 else 1), inst, ?_, ⟨items, h⟩, ?_⟩
    · by_cases hk : k ∈ keysOf items
      · obtain ⟨xs, it, ys, rfl, rfl⟩ := exists_split_of_mem_keysOf hk
        simp only [KvsOps.healthy, KvsOps.machine, kvsArrayOps, h.exist_hit, hk, if_true]
        rfl
      · simp [KvsOps.healthy, KvsOps.machine, kvsArrayOps, h.exist_miss hk, hk]
    · rw [stepOk_iff h h]
      simp [BoundedMapStep, map_fst_pairs, Sound]

/-- **When the array is a bounded map.** Along every run from
`kvs_array_create`, whatever the table held before, every call does what it
is meant to do if and only if no call sets a stored key in a full table or
deletes from an empty one. -/
theorem holds_stepOk_iff (garbage : Vector KvsArrayItem KVS_ARRAY_SIZE)
    (ops : List (KvsOp × (ℕ → Bool))) :
    kvsArrayOps.healthy.Holds StepOk (kvsArrayInit garbage) ops
      ↔ kvsArrayOps.healthy.Holds (fun inst i _ _ => inst.Sound i.1) (kvsArrayInit garbage) ops :=
  Machine.holds_congr (I := fun inst => ∃ items, inst.Inv items)
    (fun _ i _ _ ⟨_, h⟩ hs => by
      obtain ⟨r, s', hstep, hInv⟩ := step_sound h i
      obtain ⟨rfl, rfl⟩ := Prod.mk.inj (Option.some.inj (hstep.symm.trans hs))
      exact hInv) ⟨[], kvsArrayInit_inv garbage⟩

/-- Deleting from an empty table reports a hit. -/
theorem not_holds_stepOk_del :
    ¬ kvsArrayOps.healthy.Holds StepOk (kvsArrayInit (Vector.replicate KVS_ARRAY_SIZE ⟨0, 0⟩))
      [(.del ⟨[107], by decide⟩, fun _ => false)] := by
  rintro ⟨r, inst', hstep, hok, -⟩
  obtain ⟨-, -, l, l', hl, hl', -, -, hmap⟩ := hok
  have hl0 : l = [] := (Option.some.inj hl).symm
  have hr : r = .code 0 := (Prod.mk.inj (Option.some.inj hstep)).1.symm
  subst hl0 hr
  obtain ⟨⟨c, hc, hcode⟩, -⟩ := hmap
  have hc0 : c = 0 := (KvsRes.code.inj hcode).symm
  omega

end KvsArray
