import Mathlib.Data.List.GetD
import Mathlib.Tactic

/-!
# Bytes in memory

What a program finds from an address on is a byte for each offset, and a
field of a structure there is some bytes at an offset. A store replaces the
bytes of a field and no others; of many stores, a load finds the last one to
its field, if none after it overlaps (`load_storeAll`).

Numbers are stored little-endian, as the machine does, or in network order,
which is the other way round.
-/

/-- **Memory**, from some address on. -/
abbrev Bytes := ℕ → UInt8

namespace Bytes

/-! ## Loads and stores -/

/-- The bytes at an offset. -/
def load (m : Bytes) (off n : ℕ) : List UInt8 := (List.range n).map (fun i => m (off + i))

/-- Bytes are written at an offset. -/
def store (m : Bytes) (off : ℕ) (bs : List UInt8) : Bytes :=
  fun i => if off ≤ i then bs[i - off]?.getD (m i) else m i

/-- **Stores**, each at an offset, one after another. -/
def storeAll (m : Bytes) (stores : List (ℕ × List UInt8)) : Bytes :=
  stores.foldl (fun m s => m.store s.1 s.2) m

/-- The memory that holds a list of bytes, with zeros behind it. -/
def ofList (bs : List UInt8) : Bytes := fun i => bs.getD i 0

variable {m m' : Bytes} {off off' n n' : ℕ} {bs : List UInt8}

@[simp] theorem length_load : (m.load off n).length = n := by
  rw [load, List.length_map, List.length_range]

theorem getElem_load {i : ℕ} (hi : i < (m.load off n).length) : (m.load off n)[i] = m (off + i) := by
  simp [load]

theorem load_congr (h : ∀ i < n, m (off + i) = m' (off' + i)) : m.load off n = m'.load off' n :=
  List.map_congr_left (fun i hi => h i (List.mem_range.mp hi))

theorem load_succ : m.load off (n + 1) = m off :: m.load (off + 1) n := by
  unfold load
  rw [List.range_succ_eq_map, List.map_cons, List.map_map, Nat.add_zero]
  refine congrArg (m off :: ·) (List.map_congr_left (fun i _ => congrArg m ?_))
  show off + (i + 1) = off + 1 + i
  omega

/-- A field that is made of two. -/
theorem load_add : m.load off (n + n') = m.load off n ++ m.load (off + n) n' := by
  unfold load
  rw [List.range_add, List.map_append, List.map_map]
  simp only [Function.comp_def, Nat.add_assoc]

theorem load_take (h : n ≤ n') : (m.load off n').take n = m.load off n := by
  obtain ⟨k, rfl⟩ := Nat.exists_eq_add_of_le h
  rw [load_add, List.take_left' length_load]

theorem load_drop : (m.load off (n + n')).drop n = m.load (off + n) n' := by
  rw [load_add, List.drop_left' length_load]

/-- What was stored is loaded. -/
theorem load_store : (m.store off bs).load off bs.length = bs := by
  refine List.ext_getElem length_load (fun i hi hi' => ?_)
  rw [getElem_load]
  unfold store
  rw [if_pos (Nat.le_add_right off i), Nat.add_sub_cancel_left, List.getElem?_eq_getElem hi',
    Option.getD_some]

/-- **A store leaves other fields.** -/
theorem load_store_of_disjoint (h : off' + n ≤ off ∨ off + bs.length ≤ off') :
    (m.store off bs).load off' n = m.load off' n := by
  refine load_congr (fun i hi => ?_)
  unfold store
  split
  · rw [List.getElem?_eq_none (by omega), Option.getD_none]
  · rfl

/-- Stores leave the fields that they do not overlap. -/
theorem load_storeAll_of_disjoint {stores : List (ℕ × List UInt8)}
    (h : ∀ s ∈ stores, off + n ≤ s.1 ∨ s.1 + s.2.length ≤ off) :
    (m.storeAll stores).load off n = m.load off n := by
  induction stores generalizing m with
  | nil => rfl
  | cons s stores ih =>
    obtain ⟨hs, hstores⟩ := List.forall_mem_cons.mp h
    exact (ih hstores).trans (load_store_of_disjoint hs)

/-- **The last store to a field is what is loaded.** -/
theorem load_storeAll (before : List (ℕ × List UInt8)) {after : List (ℕ × List UInt8)}
    (hn : bs.length = n)
    (h : ∀ s ∈ after, off + n ≤ s.1 ∨ s.1 + s.2.length ≤ off) :
    (m.storeAll (before ++ (off, bs) :: after)).load off n = bs := by
  subst hn
  unfold storeAll
  rw [List.foldl_append, List.foldl_cons]
  exact (load_storeAll_of_disjoint h).trans load_store

theorem storeAll_append (stores stores' : List (ℕ × List UInt8)) :
    m.storeAll (stores ++ stores') = (m.storeAll stores).storeAll stores' := List.foldl_append

@[simp] theorem store_nil : m.store off [] = m := by
  funext i
  unfold store
  split
  · rfl
  · rfl

/-- Two stores side by side are one. -/
theorem store_append (bs bs' : List UInt8) :
    m.store off (bs ++ bs') = (m.store off bs).store (off + bs.length) bs' := by
  funext i
  unfold store
  by_cases hoff : off ≤ i
  · rw [if_pos hoff, if_pos hoff]
    by_cases hi : off + bs.length ≤ i
    · rw [if_pos hi, List.getElem?_append_right (by omega), Nat.sub_sub,
        List.getElem?_eq_none (show bs.length ≤ i - off by omega), Option.getD_none]
    · rw [if_neg hi, List.getElem?_append_left (by omega)]
  · rw [if_neg hoff, if_neg hoff, if_neg (by omega)]

/-- **A store over another**, and further. -/
theorem store_store {bs' : List UInt8} (h : bs.length ≤ bs'.length) :
    (m.store off bs).store off bs' = m.store off bs' := by
  funext i
  unfold store
  by_cases hoff : off ≤ i
  · rw [if_pos hoff, if_pos hoff, if_pos hoff]
    by_cases hi : i - off < bs'.length
    · rw [List.getElem?_eq_getElem hi, Option.getD_some, Option.getD_some]
    · rw [List.getElem?_eq_none (show bs.length ≤ i - off by omega), Option.getD_none]
  · rw [if_neg hoff, if_neg hoff, if_neg hoff]

theorem load_ofList (h : off + n ≤ bs.length) : (ofList bs).load off n = (bs.drop off).take n := by
  refine List.ext_getElem ?_ (fun i hi hi' => ?_)
  · rw [length_load, List.length_take, List.length_drop]
    omega
  · rw [length_load] at hi
    rw [getElem_load, List.getElem_take, List.getElem_drop]
    exact List.getD_eq_getElem _ _ (by omega)

/-- A list that is stored over zeros. -/
theorem store_zero (bs : List UInt8) : store (fun _ => 0) 0 bs = ofList bs := by
  funext i
  exact if_pos (Nat.zero_le i)

/-- The front of memory, as a list, has the fields that memory has there. -/
theorem load_ofList_load (h : off' + n' ≤ n) :
    (ofList (m.load 0 n)).load off' n' = m.load off' n' := by
  rw [load_ofList (by rwa [length_load])]
  obtain ⟨k, rfl⟩ := Nat.exists_eq_add_of_le h
  rw [Nat.add_assoc, load_drop, Nat.zero_add]
  exact load_take (Nat.le_add_right n' k)

/-! ## Numbers -/

/-- The bytes of a number, `w` of them, the lowest first. -/
def toLe : ℕ → ℕ → List UInt8
  | 0, _ => []
  | w + 1, n => UInt8.ofNat n :: toLe w (n / 256)

/-- The number that bytes stand for, the lowest first. -/
def ofLe : List UInt8 → ℕ
  | [] => 0
  | b :: bs => b.toNat + 256 * ofLe bs

@[simp] theorem length_toLe (w n : ℕ) : (toLe w n).length = w := by
  induction w generalizing n with
  | zero => rfl
  | succ w ih => exact congrArg (· + 1) (ih (n / 256))

/-- **A number is read as it was written**, up to its width. -/
theorem ofLe_toLe (w n : ℕ) : ofLe (toLe w n) = n % 256 ^ w := by
  induction w generalizing n with
  | zero => exact (Nat.mod_one n).symm
  | succ w ih =>
    show (UInt8.ofNat n).toNat + 256 * ofLe (toLe w (n / 256)) = _
    rw [ih, pow_succ', Nat.mod_mul, UInt8.toNat_ofNat']

/-- A 16-bit field, as the machine reads it. -/
def word16 (m : Bytes) (off : ℕ) : UInt16 := UInt16.ofNat (ofLe (m.load off 2))

/-- A 32-bit field. -/
def word32 (m : Bytes) (off : ℕ) : UInt32 := UInt32.ofNat (ofLe (m.load off 4))

/-- A 16-bit field in network order. -/
def net16 (m : Bytes) (off : ℕ) : UInt16 := UInt16.ofNat (ofLe (m.load off 2).reverse)

/-- A 32-bit field in network order. -/
def net32 (m : Bytes) (off : ℕ) : UInt32 := UInt32.ofNat (ofLe (m.load off 4).reverse)

/-- The bytes of a 16-bit number, as the machine writes it. -/
def bytes16 (x : UInt16) : List UInt8 := toLe 2 x.toNat

/-- The bytes of a 32-bit number. -/
def bytes32 (x : UInt32) : List UInt8 := toLe 4 x.toNat

@[simp] theorem length_bytes16 (x : UInt16) : (bytes16 x).length = 2 := rfl

@[simp] theorem length_bytes32 (x : UInt32) : (bytes32 x).length = 4 := rfl

theorem word16_eq {x : UInt16} (h : m.load off 2 = bytes16 x) : m.word16 off = x := by
  unfold word16
  rw [h, bytes16, ofLe_toLe, Nat.mod_eq_of_lt (show x.toNat < 256 ^ 2 from x.toNat_lt),
    UInt16.ofNat_toNat]

theorem word32_eq {x : UInt32} (h : m.load off 4 = bytes32 x) : m.word32 off = x := by
  unfold word32
  rw [h, bytes32, ofLe_toLe, Nat.mod_eq_of_lt (show x.toNat < 256 ^ 4 from x.toNat_lt),
    UInt32.ofNat_toNat]

theorem net16_eq {x : UInt16} (h : m.load off 2 = (bytes16 x).reverse) : m.net16 off = x := by
  unfold net16
  rw [h, List.reverse_reverse, bytes16, ofLe_toLe,
    Nat.mod_eq_of_lt (show x.toNat < 256 ^ 2 from x.toNat_lt), UInt16.ofNat_toNat]

theorem net32_eq {x : UInt32} (h : m.load off 4 = (bytes32 x).reverse) : m.net32 off = x := by
  unfold net32
  rw [h, List.reverse_reverse, bytes32, ofLe_toLe,
    Nat.mod_eq_of_lt (show x.toNat < 256 ^ 4 from x.toNat_lt), UInt32.ofNat_toNat]

end Bytes
