import Mathlib.Data.List.Lex
import Mathlib.Tactic

/-!
# C strings and `strcmp`

The keys and values of the key-value store are C strings: bytes up to a
terminating NUL. A `CString` is the bytes before it, with the proof that
none of them is a NUL, so `strlen` is the length and copying with
`strcpy`, or with `strncpy` and the string's own length into zeroed
memory, is the identity.

`strcmp` compares bytes as `unsigned char`. Its sign is the lexicographic
order of the byte values (`strcmp_neg`, `strcmp_eq_zero`, `strcmp_pos`),
a linear order, and the engines that keep their keys sorted keep them
sorted in it.
-/

/-- **A C string**: its bytes before the terminating NUL. -/
structure CString where
  /-- The bytes, without the terminator. -/
  bytes : List UInt8
  /-- The terminator is the first NUL. -/
  nul_free : (0 : UInt8) ∉ bytes
deriving DecidableEq

namespace CString

/-- `strlen`. -/
def strlen (s : CString) : ℕ := s.bytes.length

theorem ext {s t : CString} (h : s.bytes = t.bytes) : s = t := by
  cases s
  cases t
  cases h
  rfl

/-- The byte values of a string, which its order compares. -/
def codes (s : CString) : List ℕ := s.bytes.map UInt8.toNat

theorem codes_injective : Function.Injective codes := fun _ _ h =>
  ext (List.map_injective_iff.mpr (fun _ _ => UInt8.toNat_inj.mp) h)

/-- C strings in the lexicographic order of their byte values. -/
instance : LinearOrder CString := LinearOrder.lift' codes codes_injective

end CString

/-- `strcmp` on the bytes before the terminators, each of which counts as a
byte of value `0`. -/
def strcmpBytes : List UInt8 → List UInt8 → ℤ
  | [], [] => 0
  | [], b :: _ => -b.toNat
  | a :: _, [] => a.toNat
  | a :: as, b :: bs => if a = b then strcmpBytes as bs else a.toNat - b.toNat

/-- **`strcmp`**: the difference of the first two bytes that differ, or `0`. -/
def strcmp (s t : CString) : ℤ := strcmpBytes s.bytes t.bytes

/-- Exchanging the arguments changes the sign. -/
theorem strcmpBytes_swap (as bs : List UInt8) : strcmpBytes bs as = -strcmpBytes as bs := by
  induction as generalizing bs with
  | nil => cases bs <;> simp [strcmpBytes]
  | cons a as ih =>
    cases bs with
    | nil => simp [strcmpBytes]
    | cons b bs =>
      by_cases hab : a = b
      · simp [strcmpBytes, hab, ih]
      · simp [strcmpBytes, hab, Ne.symm hab]

/-- On NUL-free strings a negative result is the lexicographic order. -/
theorem strcmpBytes_neg {as bs : List UInt8} (hb : (0 : UInt8) ∉ bs) :
    strcmpBytes as bs < 0 ↔ as.map UInt8.toNat < bs.map UInt8.toNat := by
  induction as generalizing bs with
  | nil =>
    cases bs with
    | nil => simp [strcmpBytes]
    | cons b bs =>
      have hb0 : b ≠ 0 := fun h => hb (h ▸ List.mem_cons_self)
      have hpos : 0 < b.toNat := by
        rcases Nat.eq_zero_or_pos b.toNat with h | h
        · exact absurd (UInt8.toNat_inj.mp h) hb0
        · exact h
      simp [strcmpBytes, hpos]
  | cons a as ih =>
    cases bs with
    | nil => simp [strcmpBytes]
    | cons b bs =>
      have hb' : (0 : UInt8) ∉ bs := fun h => hb (List.mem_cons_of_mem b h)
      by_cases hab : a = b
      · subst hab
        simp [strcmpBytes, ih hb']
      · have hne : a.toNat ≠ b.toNat := fun h => hab (UInt8.toNat_inj.mp h)
        simp only [strcmpBytes, hab, if_false, List.map_cons, List.cons_lt_cons_iff, hne,
          false_and, or_false]
        omega

/-- **`strcmp` is negative exactly below.** -/
theorem strcmp_neg (s t : CString) : strcmp s t < 0 ↔ s < t :=
  strcmpBytes_neg t.nul_free

/-- **`strcmp` is positive exactly above.** -/
theorem strcmp_pos (s t : CString) : 0 < strcmp s t ↔ t < s := by
  rw [← strcmp_neg t s, strcmp, strcmp, strcmpBytes_swap s.bytes t.bytes]
  exact neg_lt_zero.symm

/-- **`strcmp` is zero exactly on equal strings.** -/
theorem strcmp_eq_zero (s t : CString) : strcmp s t = 0 ↔ s = t := by
  constructor
  · intro h
    refine le_antisymm (not_lt.mp ?_) (not_lt.mp ?_)
    · rw [← strcmp_pos, h]
      exact lt_irrefl 0
    · rw [← strcmp_neg, h]
      exact lt_irrefl 0
  · rintro rfl
    refine le_antisymm (not_lt.mp ?_) (not_lt.mp ?_)
    · rw [strcmp_pos]
      exact lt_irrefl s
    · rw [strcmp_neg]
      exact lt_irrefl s
