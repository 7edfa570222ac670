import Mathlib.Data.Nat.Digits.Defs
import Mathlib.Tactic

/-!
# Lanes of a word

A machine word can be taken for a row of lanes of `w` bits each, and what is
done to the word is then done to all of them at once. `pack w L` is the word
with the lanes `L`, the lowest first.

An operation on the word is one on each lane where nothing is carried from a
lane to the next: a mask cuts off what a shift brings in from the lane above
(`pack_shiftRight_and`), a difference is taken where it is not negative
(`pack_sub`), and the halves of a lane are added where their sum fits a half
(`pack_fold`). A multiplication adds them all, in the highest lane
(`pack_mul_ones`).
-/

namespace Lanes

/-- **The word with some lanes**, of `w` bits each. -/
def pack (w : ℕ) (L : List ℕ) : ℕ := Nat.ofDigits (2 ^ w) L

variable {w s m x y a b c : ℕ} {L : List ℕ} {f g : ℕ → ℕ}

theorem pack_cons : pack w (x :: L) = x + 2 ^ w * pack w L := Nat.ofDigits_cons ..

/-- A mask, lane by lane. -/
theorem add_and_add (hx : x < 2 ^ w) (hy : y < 2 ^ w) :
    (x + 2 ^ w * a) &&& (y + 2 ^ w * b) = (x &&& y) + 2 ^ w * (a &&& b) := by
  rw [← Nat.mod_add_div ((x + 2 ^ w * a) &&& (y + 2 ^ w * b)) (2 ^ w), Nat.and_mod_two_pow,
    Nat.and_div_two_pow]
  simp only [Nat.add_mul_mod_self_left, Nat.mod_eq_of_lt hx, Nat.mod_eq_of_lt hy,
    Nat.add_mul_div_left _ _ (Nat.two_pow_pos w), Nat.div_eq_of_lt hx, Nat.div_eq_of_lt hy,
    Nat.zero_add]

/-- **A mask on all lanes.** -/
theorem pack_and (hL : ∀ x ∈ L, x < 2 ^ w) (hm : m < 2 ^ w) :
    pack w L &&& pack w (List.replicate L.length m) = pack w (L.map (fun x => x &&& m)) := by
  induction L with
  | nil => exact Nat.zero_and _
  | cons x L ih =>
    obtain ⟨hx, hL⟩ := List.forall_mem_cons.mp hL
    rw [List.length_cons, List.replicate_succ, List.map_cons, pack_cons, pack_cons, pack_cons,
      add_and_add hx hm, ih hL]

/-- A lane that is shifted takes bits from the lane above. -/
theorem add_shiftRight (hs : s ≤ w) :
    (x + 2 ^ w * a) >>> s = (x >>> s + 2 ^ (w - s) * (a % 2 ^ s)) + 2 ^ w * (a >>> s) := by
  have hpow : 2 ^ w = 2 ^ s * 2 ^ (w - s) := by
    rw [← pow_add, Nat.add_sub_cancel' hs]
  have ha := Nat.mod_add_div a (2 ^ s)
  simp only [Nat.shiftRight_eq_div_pow]
  calc (x + 2 ^ w * a) / 2 ^ s
      = (x + 2 ^ s * (2 ^ (w - s) * a)) / 2 ^ s := by rw [hpow, Nat.mul_assoc]
    _ = x / 2 ^ s + 2 ^ (w - s) * a := Nat.add_mul_div_left _ _ (Nat.two_pow_pos s)
    _ = x / 2 ^ s + 2 ^ (w - s) * (a % 2 ^ s + 2 ^ s * (a / 2 ^ s)) := by rw [ha]
    _ = _ := by
      rw [hpow]
      ring

/-- **A shift of all lanes**, and a mask that cuts off what comes from the lane above. -/
theorem pack_shiftRight_and (hs : s ≤ w) (hL : ∀ x ∈ L, x < 2 ^ w) (hm : m < 2 ^ (w - s)) :
    (pack w L >>> s) &&& pack w (List.replicate L.length m)
      = pack w (L.map (fun x => x >>> s &&& m)) := by
  induction L with
  | nil => exact Nat.and_zero _
  | cons x L ih =>
    obtain ⟨hx, hL⟩ := List.forall_mem_cons.mp hL
    have hpow : 2 ^ w = 2 ^ (w - s) * 2 ^ s := by
      rw [← pow_add, Nat.sub_add_cancel hs]
    have hshift : x >>> s < 2 ^ (w - s) := by
      rw [Nat.shiftRight_eq_div_pow]
      exact Nat.div_lt_of_lt_mul (by rwa [Nat.mul_comm, ← hpow])
    have hlow : x >>> s + 2 ^ (w - s) * (pack w L % 2 ^ s) < 2 ^ w := by
      have hmod := Nat.mod_lt (pack w L) (Nat.two_pow_pos s)
      calc x >>> s + 2 ^ (w - s) * (pack w L % 2 ^ s)
          < 2 ^ (w - s) * (pack w L % 2 ^ s + 1) := by
            rw [Nat.mul_succ, Nat.add_comm]
            exact Nat.add_lt_add_left hshift _
        _ ≤ 2 ^ w := by
            rw [hpow]
            exact Nat.mul_le_mul_left _ hmod
    have hmw : m < 2 ^ w := hm.trans_le (Nat.pow_le_pow_right (by decide) (Nat.sub_le w s))
    have hand : (x >>> s + 2 ^ (w - s) * (pack w L % 2 ^ s)) &&& m = x >>> s &&& m := by
      have hcut := add_and_add (a := pack w L % 2 ^ s) (b := 0) hshift hm
      rwa [Nat.mul_zero, Nat.add_zero, Nat.and_zero, Nat.mul_zero, Nat.add_zero] at hcut
    rw [List.length_cons, List.replicate_succ, List.map_cons, pack_cons, pack_cons, pack_cons,
      add_shiftRight hs, add_and_add hlow hmw, hand, ih hL]

/-- **A sum on all lanes.** -/
theorem pack_add : pack w (L.map f) + pack w (L.map g) = pack w (L.map (fun x => f x + g x)) := by
  induction L with
  | nil => rfl
  | cons x L ih =>
    rw [List.map_cons, List.map_cons, List.map_cons, pack_cons, pack_cons, pack_cons, ← ih]
    ring

/-- **A difference on all lanes**, where none is negative. -/
theorem pack_sub (h : ∀ x ∈ L, g x ≤ x) :
    pack w (L.map g) ≤ pack w L
      ∧ pack w L - pack w (L.map g) = pack w (L.map (fun x => x - g x)) := by
  have hsum : pack w (L.map g) + pack w (L.map (fun x => x - g x)) = pack w L := by
    rw [pack_add, List.map_congr_left (fun x hx => Nat.add_sub_cancel' (h x hx)), List.map_id']
  exact ⟨hsum ▸ Nat.le_add_right _ _, Nat.sub_eq_of_eq_add (by rw [← hsum, Nat.add_comm])⟩

/-- The lowest bits of a word are those of its lowest lane. -/
theorem pack_mod_le (hs : s ≤ w) (h : ∀ x ∈ L, x % 2 ^ s ≤ c) : pack w L % 2 ^ s ≤ c := by
  cases L with
  | nil => exact (Nat.zero_mod _).le.trans (Nat.zero_le c)
  | cons x L =>
    have hpow : 2 ^ w = 2 ^ s * 2 ^ (w - s) := by
      rw [← pow_add, Nat.add_sub_cancel' hs]
    rw [pack_cons, hpow, Nat.mul_assoc, Nat.add_mul_mod_self_left]
    exact h x List.mem_cons_self

/-- **The halves of each lane are added**, where neither they nor what comes from the lane
above are too large. -/
theorem pack_fold (hc : 2 * c < 2 ^ s) (h : ∀ x ∈ L, x % 2 ^ s ≤ c ∧ x / 2 ^ s ≤ c) :
    (pack (s + s) L + pack (s + s) L >>> s)
        &&& pack (s + s) (List.replicate L.length (2 ^ s - 1))
      = pack (s + s) (L.map (fun x => x % 2 ^ s + x / 2 ^ s)) := by
  induction L with
  | nil => exact Nat.and_zero _
  | cons x L ih =>
    obtain ⟨⟨hlo, hhi⟩, hL⟩ := List.forall_mem_cons.mp h
    have hP := pack_mod_le (Nat.le_add_left s s) (fun x hx => (hL x hx).1)
    have hx := Nat.mod_add_div x (2 ^ s)
    have hpow : 2 ^ (s + s) = 2 ^ s * 2 ^ s := pow_add 2 s s
    have hsum : (x + 2 ^ (s + s) * pack (s + s) L) + (x + 2 ^ (s + s) * pack (s + s) L) >>> s
        = ((x % 2 ^ s + x / 2 ^ s) + 2 ^ s * (x / 2 ^ s + pack (s + s) L % 2 ^ s))
          + 2 ^ (s + s) * (pack (s + s) L + pack (s + s) L >>> s) := by
      rw [add_shiftRight (Nat.le_add_left s s), Nat.add_sub_cancel, Nat.shiftRight_eq_div_pow]
      nth_rewrite 1 [← hx]
      ring
    have hlt : x % 2 ^ s + x / 2 ^ s < 2 ^ s := by omega
    have hlt' : (x % 2 ^ s + x / 2 ^ s) + 2 ^ s * (x / 2 ^ s + pack (s + s) L % 2 ^ s)
        < 2 ^ (s + s) := by
      have hroom : x / 2 ^ s + pack (s + s) L % 2 ^ s + 1 ≤ 2 ^ s := by omega
      rw [hpow]
      calc _ < 2 ^ s * (x / 2 ^ s + pack (s + s) L % 2 ^ s + 1) := by
            rw [Nat.mul_succ, Nat.add_comm]
            exact Nat.add_lt_add_left hlt _
        _ ≤ 2 ^ s * 2 ^ s := Nat.mul_le_mul_left _ hroom
    have hm : 2 ^ s - 1 < 2 ^ s := Nat.sub_lt (Nat.two_pow_pos s) Nat.one_pos
    have hmw : 2 ^ s - 1 < 2 ^ (s + s) :=
      hm.trans_le (Nat.pow_le_pow_right (by decide) (Nat.le_add_left s s))
    have hand : ((x % 2 ^ s + x / 2 ^ s) + 2 ^ s * (x / 2 ^ s + pack (s + s) L % 2 ^ s))
        &&& (2 ^ s - 1) = x % 2 ^ s + x / 2 ^ s := by
      rw [Nat.and_two_pow_sub_one_eq_mod, Nat.add_mul_mod_self_left, Nat.mod_eq_of_lt hlt]
    rw [List.length_cons, List.replicate_succ, List.map_cons, pack_cons, pack_cons, pack_cons, hsum,
      add_and_add hlt' hmw, hand, ih hL]

/-! ## The sum of all lanes -/

/-- The sums of the first lanes of a row, of each length. -/
def sums : List ℕ → List ℕ
  | [] => []
  | x :: L => x :: (sums L).map (fun y => x + y)

@[simp] theorem length_sums (L : List ℕ) : (sums L).length = L.length := by
  induction L with
  | nil => rfl
  | cons x L ih => simp [sums, ih]

/-- The last of the sums is that of all, and no other is larger. -/
theorem sums_eq (hL : L ≠ []) : ∃ K, sums L = K ++ [L.sum] ∧ ∀ y ∈ K, y ≤ L.sum := by
  induction L with
  | nil => exact absurd rfl hL
  | cons x L ih =>
    by_cases hnil : L = []
    · subst hnil
      exact ⟨[], rfl, fun y hy => absurd hy List.not_mem_nil⟩
    · obtain ⟨K, hK, hle⟩ := ih hnil
      refine ⟨x :: K.map (fun y => x + y), by simp [sums, hK], fun y hy => ?_⟩
      rw [List.sum_cons]
      rcases List.mem_cons.mp hy with rfl | hy
      · exact Nat.le_add_right _ _
      · obtain ⟨z, hz, rfl⟩ := List.mem_map.mp hy
        exact Nat.add_le_add_left (hle z hz) x

/-- A number is added to all lanes. -/
theorem pack_map_add (x : ℕ) (L : List ℕ) :
    pack w (L.map (fun y => x + y)) = x * pack w (List.replicate L.length 1) + pack w L := by
  induction L with
  | nil => rfl
  | cons y L ih =>
    rw [List.map_cons, List.length_cons, List.replicate_succ, pack_cons, pack_cons, pack_cons, ih]
    ring

theorem pack_append (K L : List ℕ) :
    pack w (K ++ L) = pack w K + 2 ^ (w * K.length) * pack w L := by
  rw [pow_mul]
  exact Nat.ofDigits_append

/-- One lane more of ones. -/
theorem pack_ones_succ (n : ℕ) :
    pack w (List.replicate (n + 1) 1) = pack w (List.replicate n 1) + 2 ^ (w * n) := by
  rw [List.replicate_succ', pack_append, List.length_replicate, pack_cons]
  simp [pack]

/-- A product with ones has the sums in its lanes. -/
theorem exists_pack_mul_ones (L : List ℕ) :
    ∃ q, pack w L * pack w (List.replicate L.length 1)
      = pack w (sums L) + 2 ^ (w * L.length) * q := by
  induction L with
  | nil => exact ⟨0, rfl⟩
  | cons x L ih =>
    obtain ⟨q, hq⟩ := ih
    have hcons : pack w (List.replicate (L.length + 1) 1)
        = 1 + 2 ^ w * pack w (List.replicate L.length 1) := by
      rw [List.replicate_succ, pack_cons]
    refine ⟨q + pack w L, ?_⟩
    calc pack w (x :: L) * pack w (List.replicate (L.length + 1) 1)
        = x * pack w (List.replicate (L.length + 1) 1)
            + 2 ^ w * (pack w L * pack w (List.replicate (L.length + 1) 1)) := by
          rw [pack_cons]
          ring
      _ = x * (1 + 2 ^ w * pack w (List.replicate L.length 1))
            + 2 ^ w * (pack w L * pack w (List.replicate L.length 1) + 2 ^ (w * L.length) * pack w L) := by
          rw [← hcons, pack_ones_succ]
          ring
      _ = (x + 2 ^ w * (x * pack w (List.replicate L.length 1) + pack w (sums L)))
            + 2 ^ (w * (L.length + 1)) * (q + pack w L) := by
          rw [hq, Nat.mul_succ, pow_add]
          ring
      _ = pack w (sums (x :: L)) + 2 ^ (w * (x :: L).length) * (q + pack w L) := by
          rw [sums, pack_cons, pack_map_add, length_sums, List.length_cons]

/-- **The highest lane of a product with ones is the sum of all lanes**, where that
fits a lane. -/
theorem pack_mul_ones (hw : 0 < w) (hL : L ≠ []) (hsum : L.sum < 2 ^ w) :
    pack w L * pack w (List.replicate L.length 1) % 2 ^ (w * L.length)
      / 2 ^ (w * (L.length - 1)) = L.sum := by
  obtain ⟨q, hq⟩ := exists_pack_mul_ones (w := w) L
  obtain ⟨K, hK, hle⟩ := sums_eq hL
  have hlen : L.length = K.length + 1 := by
    rw [← length_sums, hK, List.length_append, List.length_singleton]
  have hK' : pack w K < 2 ^ (w * K.length) := by
    rw [pow_mul]
    exact Nat.ofDigits_lt_base_pow_length (Nat.one_lt_two_pow hw.ne')
      (fun y hy => (hle y hy).trans_lt hsum)
  have hlast : pack w [L.sum] = L.sum := Nat.ofDigits_singleton ..
  have hsplit : pack w (K ++ [L.sum]) + 2 ^ (w * (K.length + 1)) * q
      = pack w K + 2 ^ (w * K.length) * (L.sum + 2 ^ w * q) := by
    rw [pack_append, hlast, Nat.mul_succ, pow_add]
    ring
  rw [hq, hK, hlen, Nat.add_sub_cancel, hsplit, Nat.mul_succ, pow_add, Nat.mod_mul_right_div_self,
    Nat.add_mul_div_left _ _ (Nat.two_pow_pos _), Nat.div_eq_of_lt hK', Nat.zero_add,
    Nat.add_mul_mod_self_left, Nat.mod_eq_of_lt hsum]

end Lanes
