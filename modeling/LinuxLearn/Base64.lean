import Mathlib.Data.List.Basic
import Mathlib.Tactic.IntervalCases

/-!
# Base64

Three bytes are written as four digits of six bits each. One or two bytes that
are left over take two or three digits, and are filled up with `=`.

What was encoded can be decoded (`decode_encode`), so no two texts have one
encoding, and an encoding has no NUL in it.
-/

namespace Base64

/-- A digit of six bits: the capitals, the small letters, the numerals, `+` and `/`. -/
def digit (i : ℕ) : UInt8 :=
  if i < 26 then UInt8.ofNat (65 + i)
  else if i < 52 then UInt8.ofNat (97 + (i - 26))
  else if i < 62 then UInt8.ofNat (48 + (i - 52))
  else if i = 62 then 43
  else 47

/-- The number a digit stands for. -/
def value (c : UInt8) : ℕ :=
  if 97 ≤ c.toNat then c.toNat - 97 + 26
  else if 65 ≤ c.toNat then c.toNat - 65
  else if 48 ≤ c.toNat then c.toNat - 48 + 52
  else if c = 43 then 62
  else 63

/-- What stands for no digit. -/
def pad : UInt8 := 61

/-- **The encoding of a text.** -/
def encode : List UInt8 → List UInt8
  | [] => []
  | [a] => [digit (a.toNat / 4), digit (a.toNat % 4 * 16), pad, pad]
  | [a, b] =>
    [digit (a.toNat / 4), digit (a.toNat % 4 * 16 + b.toNat / 16), digit (b.toNat % 16 * 4), pad]
  | a :: b :: c :: rest =>
    digit (a.toNat / 4) :: digit (a.toNat % 4 * 16 + b.toNat / 16)
      :: digit (b.toNat % 16 * 4 + c.toNat / 64) :: digit (c.toNat % 64) :: encode rest

/-- What an encoding is decoded to. -/
def decode : List UInt8 → List UInt8
  | w :: x :: y :: z :: rest =>
    let a := UInt8.ofNat (value w * 4 + value x / 16)
    let b := UInt8.ofNat (value x % 16 * 16 + value y / 4)
    let c := UInt8.ofNat (value y % 4 * 64 + value z)
    if y = pad then [a] else if z = pad then [a, b] else a :: b :: c :: decode rest
  | _ => []

theorem value_digit {i : ℕ} (h : i < 64) : value (digit i) = i := by
  interval_cases i <;> rfl

theorem digit_ne_pad {i : ℕ} (h : i < 64) : digit i ≠ pad := by
  interval_cases i <;> decide

theorem digit_ne_zero {i : ℕ} (h : i < 64) : digit i ≠ 0 := by
  interval_cases i <;> decide

/-- The bits of the three bytes are all in the four digits. -/
theorem bits_eq {a b c : ℕ} (hb : b < 256) (hc : c < 256) :
    a / 4 * 4 + (a % 4 * 16 + b / 16) / 16 = a
      ∧ (a % 4 * 16 + b / 16) % 16 * 16 + (b % 16 * 4 + c / 64) / 4 = b
      ∧ (b % 16 * 4 + c / 64) % 4 * 64 + c % 64 = c := by
  refine ⟨?_, ?_, ?_⟩ <;> omega

/-- **What was encoded is decoded.** -/
theorem decode_encode (bs : List UInt8) : decode (encode bs) = bs := by
  fun_induction encode bs with
  | case1 => rfl
  | case2 a =>
    have ha := a.toNat_lt
    obtain ⟨h₁, -, -⟩ := bits_eq (a := a.toNat) (b := 0) (c := 0) (by decide) (by decide)
    rw [Nat.zero_div, Nat.add_zero] at h₁
    unfold decode
    simp only [value_digit (show a.toNat / 4 < 64 by omega),
      value_digit (show a.toNat % 4 * 16 < 64 by omega), h₁, if_true, UInt8.ofNat_toNat]
  | case3 a b =>
    have ha := a.toNat_lt
    have hb := b.toNat_lt
    obtain ⟨h₁, h₂, -⟩ := bits_eq (a := a.toNat) (c := 0) hb (by decide)
    rw [Nat.zero_div, Nat.add_zero] at h₂
    unfold decode
    simp only [value_digit (show a.toNat / 4 < 64 by omega),
      value_digit (show a.toNat % 4 * 16 + b.toNat / 16 < 64 by omega),
      value_digit (show b.toNat % 16 * 4 < 64 by omega),
      if_neg (digit_ne_pad (show b.toNat % 16 * 4 < 64 by omega)), h₁, h₂, if_true,
      UInt8.ofNat_toNat]
  | case4 a b c rest ih =>
    have ha := a.toNat_lt
    have hb := b.toNat_lt
    have hc := c.toNat_lt
    obtain ⟨h₁, h₂, h₃⟩ := bits_eq (a := a.toNat) hb hc
    unfold decode
    simp only [value_digit (show a.toNat / 4 < 64 by omega),
      value_digit (show a.toNat % 4 * 16 + b.toNat / 16 < 64 by omega),
      value_digit (show b.toNat % 16 * 4 + c.toNat / 64 < 64 by omega),
      value_digit (show c.toNat % 64 < 64 by omega),
      if_neg (digit_ne_pad (show b.toNat % 16 * 4 + c.toNat / 64 < 64 by omega)),
      if_neg (digit_ne_pad (show c.toNat % 64 < 64 by omega)), h₁, h₂, h₃, ih, UInt8.ofNat_toNat]

/-- **No two texts have one encoding.** -/
theorem encode_injective : Function.Injective encode :=
  Function.LeftInverse.injective decode_encode

/-- **An encoding has no NUL in it.** -/
theorem zero_notMem_encode (bs : List UInt8) : (0 : UInt8) ∉ encode bs := by
  have hpad : (0 : UInt8) ≠ pad := by decide
  have hdigit : ∀ {i : ℕ}, i < 64 → (0 : UInt8) ≠ digit i := fun h => (digit_ne_zero h).symm
  fun_induction encode bs with
  | case1 => exact List.not_mem_nil
  | case2 a =>
    have ha := a.toNat_lt
    simp only [List.mem_cons, List.not_mem_nil, or_false, not_or]
    exact ⟨hdigit (by omega), hdigit (by omega), hpad, hpad⟩
  | case3 a b =>
    have ha := a.toNat_lt
    have hb := b.toNat_lt
    simp only [List.mem_cons, List.not_mem_nil, or_false, not_or]
    exact ⟨hdigit (by omega), hdigit (by omega), hdigit (by omega), hpad⟩
  | case4 a b c rest ih =>
    have ha := a.toNat_lt
    have hb := b.toNat_lt
    have hc := c.toNat_lt
    simp only [List.mem_cons, not_or]
    exact ⟨hdigit (by omega), hdigit (by omega), hdigit (by omega), hdigit (by omega), ih⟩

theorem length_encode (bs : List UInt8) : (encode bs).length = 4 * ((bs.length + 2) / 3) := by
  fun_induction encode bs with
  | case1 => rfl
  | case2 a => exact (by decide : 4 = 4 * ((1 + 2) / 3))
  | case3 a b => exact (by decide : 4 = 4 * ((2 + 2) / 3))
  | case4 a b c rest ih =>
    simp only [List.length_cons, ih]
    omega

end Base64
