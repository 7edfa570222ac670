import LinuxLearn.Bytes
import LinuxLearn.Lanes

/-!
# Counting the bits of a packet

`ddos_detect` of `tcp_concurrency.c` compares how many bits of each packet
are set. `count_bit` counts them a word at a time: pairs of bits, then
halves of bytes, then bytes are added up side by side, and a multiplication
adds the bytes. It reads whole words, at least one, so it is right for
packets that are made of whole words (`count_bit_eq`).
-/

namespace Ustack

open Lanes

/-- The set bits of a byte. -/
def bitsOfByte (x : ℕ) : ℕ := (List.range 8).countP (fun i => x.testBit i)

/-- **The set bits of a byte string**, counted one by one. -/
def setBits (msg : List UInt8) : ℕ := (msg.map (fun b => bitsOfByte b.toNat)).sum

/-- `*ptr`, of a pointer to words. -/
def load64 (mem : List UInt8) (ptr : ℕ) : Option UInt64 :=
  if ptr + 8 ≤ mem.length then some (UInt64.ofNat (Bytes.ofLe ((mem.drop ptr).take 8))) else none

/-- **What the loop of `count_bit` adds for a word.** The last shift is by
`(sizeof(v) - 1) * 8`. -/
def countWord (v : UInt64) : UInt64 :=
  let v := v - ((v >>> 1) &&& (0x5555555555555555 : UInt64))
  let v := (v &&& (0x3333333333333333 : UInt64)) + ((v >>> 2) &&& (0x3333333333333333 : UInt64))
  let v := (v + (v >>> 4)) &&& 0x0F0F0F0F0F0F0F0F
  (v * 0x0101010101010101) >>> 56

/-- The loop of `count_bit`, which goes round at least once. -/
def countLoop (mem : List UInt8) (stop : ℕ) : ℕ → ℕ → UInt64 → Option UInt64
  | 0, _, _ => none
  | fuel + 1, ptr, setBits => do
    let v ← load64 mem ptr
    let ptr := ptr + 8
    let setBits := setBits + countWord v
    if stop > ptr then countLoop mem stop fuel ptr setBits else return setBits

/-- **`count_bit`**, of a message at the start of a memory. It does not return where it
reads past the end of that. -/
def countBit (msg : List UInt8) (length : UInt32) : Option UInt32 :=
  (countLoop msg length.toNat (length.toNat + 1) 0 0).map UInt64.toUInt32

/-! ## The three steps on a byte -/

/-- The bits of each pair. -/
def pairs (x : ℕ) : ℕ := x - (x >>> 1 &&& 0x55)

/-- The bits of each half, from those of its pairs. -/
def halves (x : ℕ) : ℕ := (x &&& 0x33) + (x >>> 2 &&& 0x33)

/-- The bits of a byte, from those of its halves. -/
def wholes (x : ℕ) : ℕ := x % 16 + x / 16

/-- **A byte after the three steps** is the number of its bits. -/
theorem wholes_eq {x : ℕ} (hx : x < 256) :
    pairs x < 256 ∧ (halves (pairs x) % 16 ≤ 4 ∧ halves (pairs x) / 16 ≤ 4)
      ∧ wholes (halves (pairs x)) = bitsOfByte x := by
  have hall : ∀ x < 256, pairs x < 256
      ∧ (halves (pairs x) % 16 ≤ 4 ∧ halves (pairs x) / 16 ≤ 4)
      ∧ wholes (halves (pairs x)) = bitsOfByte x := by
    decide +kernel
  exact hall x hx

/-! ## The steps on a word -/

section Word

variable {L : List ℕ} {v : UInt64} {bytes : List UInt8}

theorem ofLe_eq_pack (bytes : List UInt8) : Bytes.ofLe bytes = pack 8 (bytes.map UInt8.toNat) := by
  induction bytes with
  | nil => rfl
  | cons b bytes ih =>
    rw [Bytes.ofLe, ih, List.map_cons, pack_cons]
    rfl

/-- Eight lanes of a byte are a word. -/
theorem pack_lt (hL : ∀ x ∈ L, x < 256) (hlen : L.length = 8) : pack 8 L < 2 ^ 64 := by
  have hlt := Nat.ofDigits_lt_base_pow_length (b := 2 ^ 8) (by decide) hL
  rwa [hlen] at hlt

/-- **The bits of each pair are counted.** -/
theorem toNat_pairs (hv : v.toNat = pack 8 L) (hL : ∀ x ∈ L, x < 256) (hlen : L.length = 8) :
    (v - ((v >>> 1) &&& (0x5555555555555555 : UInt64))).toNat
      = pack 8 (L.map pairs) := by
  have hmask : (0x5555555555555555 : UInt64).toNat = pack 8 (List.replicate L.length 0x55) := by
    rw [hlen]
    rfl
  have hle : ∀ x ∈ L, x >>> 1 &&& 0x55 ≤ x := fun x _ =>
    Nat.and_le_left.trans (Nat.shiftRight_le x 1)
  have hand : ((v >>> 1) &&& (0x5555555555555555 : UInt64)).toNat
      = pack 8 (L.map (fun x => x >>> 1 &&& 0x55)) := by
    rw [UInt64.toNat_and, UInt64.toNat_shiftRight, hv, hmask]
    exact pack_shiftRight_and (s := 1) (by decide) hL (by decide)
  obtain ⟨hsub, hdiff⟩ := pack_sub (w := 8) hle
  rw [UInt64.toNat_sub_of_le _ _ (UInt64.le_iff_toNat_le.mpr (by rw [hand, hv]; exact hsub)), hand,
    hv, hdiff]
  rfl

/-- **Those of each half of a byte are added.** -/
theorem toNat_halves (hv : v.toNat = pack 8 L) (hL : ∀ x ∈ L, x < 256) (hlen : L.length = 8) :
    ((v &&& (0x3333333333333333 : UInt64)) + ((v >>> 2) &&& (0x3333333333333333 : UInt64))).toNat
      = pack 8 (L.map halves) := by
  have hmask : (0x3333333333333333 : UInt64).toNat = pack 8 (List.replicate L.length 0x33) := by
    rw [hlen]
    rfl
  have hlow : (v &&& (0x3333333333333333 : UInt64)).toNat = pack 8 (L.map (fun x => x &&& 0x33)) := by
    rw [UInt64.toNat_and, hv, hmask, pack_and hL (by decide)]
  have hhigh : ((v >>> 2) &&& (0x3333333333333333 : UInt64)).toNat
      = pack 8 (L.map (fun x => x >>> 2 &&& 0x33)) := by
    rw [UInt64.toNat_and, UInt64.toNat_shiftRight, hv, hmask]
    exact pack_shiftRight_and (s := 2) (by decide) hL (by decide)
  rw [UInt64.toNat_add, hlow, hhigh, pack_add]
  refine Nat.mod_eq_of_lt (pack_lt (L := L.map halves) (fun y hy => ?_) (by rwa [List.length_map]))
  obtain ⟨x, -, rfl⟩ := List.mem_map.mp hy
  have hx : x &&& 0x33 ≤ 0x33 := Nat.and_le_right
  have hx' : x >>> 2 &&& 0x33 ≤ 0x33 := Nat.and_le_right
  unfold halves
  omega

/-- **And those of each byte.** -/
theorem toNat_wholes (hv : v.toNat = pack 8 L) (hL : ∀ x ∈ L, x % 16 ≤ 4 ∧ x / 16 ≤ 4)
    (hlen : L.length = 8) :
    ((v + (v >>> 4)) &&& 0x0F0F0F0F0F0F0F0F).toNat
      = pack 8 (L.map wholes) := by
  have hmask : (0x0F0F0F0F0F0F0F0F : UInt64).toNat = pack 8 (List.replicate L.length 0x0F) := by
    rw [hlen]
    rfl
  have hlt : pack 8 L + pack 8 L >>> 4 < 2 ^ 64 := by
    have htwice : pack 8 L + pack 8 L < 2 ^ 64 := by
      have hadd := pack_add (w := 8) (L := L) (f := fun x => x) (g := fun x => x)
      rw [List.map_id'] at hadd
      rw [hadd]
      refine pack_lt (fun y hy => ?_) (by rwa [List.length_map])
      obtain ⟨x, hx, rfl⟩ := List.mem_map.mp hy
      have hx' := hL x hx
      omega
    exact (Nat.add_le_add_left (Nat.shiftRight_le _ 4) _).trans_lt htwice
  rw [UInt64.toNat_and, UInt64.toNat_add, UInt64.toNat_shiftRight, hv, hmask]
  show (pack 8 L + pack 8 L >>> 4) % 2 ^ 64 &&& _ = _
  rw [Nat.mod_eq_of_lt hlt]
  exact pack_fold (s := 4) (c := 4) (by decide) hL

/-- **The multiplication adds the bytes.** -/
theorem toNat_sum (hv : v.toNat = pack 8 L) (hL : L.sum < 256) (hlen : L.length = 8) :
    ((v * 0x0101010101010101) >>> 56).toNat = L.sum := by
  have hones : (0x0101010101010101 : UInt64).toNat = pack 8 (List.replicate L.length 1) := by
    rw [hlen]
    rfl
  have hne : L ≠ [] := fun h => by
    rw [h] at hlen
    cases hlen
  have hsum := pack_mul_ones (w := 8) (by decide) hne hL
  rw [UInt64.toNat_shiftRight, UInt64.toNat_mul, hv, hones, Nat.shiftRight_eq_div_pow]
  rwa [hlen] at hsum ⊢

theorem bitsOfByte_le (x : ℕ) : bitsOfByte x ≤ 8 :=
  List.countP_le_length.trans (List.length_range).le

theorem setBits_append (bytes rest : List UInt8) :
    setBits (bytes ++ rest) = setBits bytes + setBits rest := by
  unfold setBits
  rw [List.map_append, List.sum_append]

/-- A string has at most eight set bits for each byte. -/
theorem setBits_le (bytes : List UInt8) : setBits bytes ≤ 8 * bytes.length := by
  induction bytes with
  | nil => exact Nat.zero_le _
  | cons b bytes ih =>
    have hcons : setBits (b :: bytes) = bitsOfByte b.toNat + setBits bytes := List.sum_cons
    have hb := bitsOfByte_le b.toNat
    rw [hcons, List.length_cons]
    omega

/-- **A word is counted right**, whichever it is. -/
theorem toNat_countWord (hlen : bytes.length = 8) :
    (countWord (UInt64.ofNat (Bytes.ofLe bytes))).toNat = setBits bytes := by
  have hL : ∀ x ∈ bytes.map UInt8.toNat, x < 256 := by
    intro x hx
    obtain ⟨b, -, rfl⟩ := List.mem_map.mp hx
    exact b.toNat_lt
  have hlenL : (bytes.map UInt8.toNat).length = 8 := by rwa [List.length_map]
  have hv : (UInt64.ofNat (Bytes.ofLe bytes)).toNat = pack 8 (bytes.map UInt8.toNat) := by
    rw [ofLe_eq_pack]
    exact UInt64.toNat_ofNat_of_lt' (pack_lt hL hlenL)
  have hpairs := toNat_pairs hv hL hlenL
  have hhalves := toNat_halves hpairs (fun y hy => by
    obtain ⟨x, hx, rfl⟩ := List.mem_map.mp hy
    exact (wholes_eq (hL x hx)).1) (by rwa [List.length_map])
  have hwholes := toNat_wholes hhalves (fun z hz => by
    obtain ⟨y, hy, rfl⟩ := List.mem_map.mp hz
    obtain ⟨x, hx, rfl⟩ := List.mem_map.mp hy
    exact (wholes_eq (hL x hx)).2.1) (by rwa [List.length_map, List.length_map])
  have hcounted : (((bytes.map UInt8.toNat).map pairs).map halves).map wholes
      = bytes.map (fun b => bitsOfByte b.toNat) := by
    rw [List.map_map, List.map_map, List.map_map]
    exact List.map_congr_left (fun b _ => (wholes_eq b.toNat_lt).2.2)
  rw [hcounted] at hwholes
  have hsum : setBits bytes < 256 := (setBits_le bytes).trans_lt (by omega)
  exact toNat_sum hwholes hsum (by rwa [List.length_map])

end Word

/-! ## The loop -/

section Loop

variable {words rest : List UInt8} {fuel n : ℕ}

/-- A word is loaded from inside a memory. -/
theorem load64_eq (before : List UInt8) {word : List UInt8} (hword : word.length = 8) :
    load64 (before ++ (word ++ rest)) before.length = some (UInt64.ofNat (Bytes.ofLe word)) := by
  have hle : before.length + 8 ≤ (before ++ (word ++ rest)).length := by
    rw [List.length_append, List.length_append, hword]
    omega
  unfold load64
  rw [if_pos hle, List.drop_left, List.take_left' hword]

/-- **One round of the loop** counts one word. -/
theorem countLoop_succ (before : List UInt8) {word : List UInt8} (hword : word.length = 8)
    (stop : ℕ) (acc : UInt64) :
    countLoop (before ++ (word ++ rest)) stop (fuel + 1) before.length acc
      = if stop > (before ++ word).length then
          countLoop ((before ++ word) ++ rest) stop fuel (before ++ word).length
            (acc + UInt64.ofNat (setBits word))
        else some (acc + UInt64.ofNat (setBits word)) := by
  have hcount : countWord (UInt64.ofNat (Bytes.ofLe word)) = UInt64.ofNat (setBits word) := by
    rw [← toNat_countWord hword, UInt64.ofNat_toNat]
  rw [countLoop, load64_eq before hword, List.length_append, hword, List.append_assoc, ← hcount]
  rfl

/-- **The loop counts each word once**, from a word on to the end. -/
theorem countLoop_eq (before rest : List UInt8) (acc : UInt64)
    (hwords : words.length = 8 * (n + 1)) (hfuel : n < fuel) :
    countLoop (before ++ (words ++ rest)) (before.length + words.length) fuel before.length acc
      = some (acc + UInt64.ofNat (setBits words)) := by
  induction n generalizing before words fuel acc with
  | zero =>
    obtain ⟨fuel, rfl⟩ := Nat.exists_eq_add_of_lt hfuel
    rw [countLoop_succ before hwords, List.length_append, if_neg (lt_irrefl _)]
  | succ n ih =>
    obtain ⟨fuel, rfl⟩ := Nat.exists_eq_add_of_lt hfuel
    obtain ⟨word, more, rfl, hword⟩ : ∃ word more, words = word ++ more ∧ word.length = 8 :=
      ⟨words.take 8, words.drop 8, (List.take_append_drop 8 words).symm, by
        rw [List.length_take, hwords]
        omega⟩
    rw [List.length_append, hword] at hwords
    have hmore : more.length = 8 * (n + 1) := by omega
    have hstop : before.length + (word ++ more).length = (before ++ word).length + more.length := by
      rw [List.length_append, List.length_append, Nat.add_assoc]
    rw [List.append_assoc, countLoop_succ before hword, hstop, if_pos (by omega),
      ih _ _ hmore (Nat.lt_add_right fuel (Nat.lt_succ_self n)), setBits_append, UInt64.ofNat_add,
      UInt64.add_assoc]

/-- **`count_bit` counts the set bits** of a message that is made of whole words and has at
least one, whatever is in memory behind it. -/
theorem count_bit_eq {msg : List UInt8} (hwords : 8 ∣ msg.length) (hpos : 0 < msg.length)
    (hlt : msg.length < 2 ^ 26) (rest : List UInt8) :
    ∃ r, countBit (msg ++ rest) (UInt32.ofNat msg.length) = some r ∧ r.toNat = setBits msg
      ∧ r.toNat ≤ 8 * msg.length := by
  obtain ⟨n, hn⟩ : ∃ n, msg.length = 8 * (n + 1) := by
    obtain ⟨k, hk⟩ := hwords
    exact ⟨k - 1, by omega⟩
  have hlength : (UInt32.ofNat msg.length).toNat = msg.length :=
    UInt32.toNat_ofNat_of_lt' (hlt.trans (by decide))
  have hle := setBits_le msg
  have hloop := countLoop_eq [] rest 0 hn (show n < msg.length + 1 by omega)
  rw [List.nil_append, List.length_nil, Nat.zero_add, UInt64.zero_add] at hloop
  have hcounted : (UInt64.ofNat (setBits msg)).toUInt32.toNat = setBits msg := by
    rw [UInt64.toNat_toUInt32, UInt64.toNat_ofNat_of_lt' (show setBits msg < 2 ^ 64 by omega)]
    exact Nat.mod_eq_of_lt (by omega)
  refine ⟨_, ?_, hcounted, hcounted.le.trans hle⟩
  unfold countBit
  rw [hlength, hloop]
  rfl

/-- A packet of one word. -/
theorem count_bit_eq_word : ∃ r, countBit ([0, 1, 3, 7, 15, 31, 63, 255] ++ []) 8 = some r
    ∧ r.toNat = setBits [0, 1, 3, 7, 15, 31, 63, 255] ∧ r.toNat ≤ 8 * 8 :=
  have hlen : [0, 1, 3, 7, 15, 31, 63, (255 : UInt8)].length = 8 := rfl
  count_bit_eq (hlen ▸ dvd_refl 8) (by decide) (by decide) []

end Loop

end Ustack
