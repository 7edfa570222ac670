import LinuxLearn.Bytes
import Mathlib.Data.List.OfFn

/-!
# Base framing

A frame is two bytes, the rest of the length, a masking key and the payload.
The first byte has the final bit and the opcode. The second one has the mask
bit, which says whether there is a key, and a length: up to 125 it is the
length of the payload, 126 and 127 say that the length follows, in two
bytes or in eight, in network order. A payload with a key is sent masked:
its bytes are combined with those of the key, over and over.

`Frame.parse_encode` says that a frame is read back from its bytes, whatever
follows them. Nothing says here which of the forms of a length a sender takes
where more than one can hold it.
-/

namespace Framing

open Bytes

/-! ## Lengths -/

/-- **How a length is written**: where the code is, or behind it in two bytes or eight. -/
inductive LengthForm where
  | short
  | medium
  | long
deriving DecidableEq

namespace LengthForm

/-- How many bytes follow the code. -/
def width : LengthForm → ℕ
  | short => 0
  | medium => 2
  | long => 8

/-- The lengths below this one can be written. -/
def bound : LengthForm → ℕ
  | short => 126
  | medium => 2 ^ 16
  | long => 2 ^ 63

/-- The code for a length. -/
def code : LengthForm → ℕ → ℕ
  | short, n => n
  | medium, _ => 126
  | long, _ => 127

/-- The bytes behind the code. -/
def extended (form : LengthForm) (n : ℕ) : List UInt8 := (toLe form.width n).reverse

/-- What the code says. -/
def ofCode (code : ℕ) : LengthForm :=
  if code = 126 then medium else if code = 127 then long else short

/-- The length that is read. -/
def length (form : LengthForm) (code : ℕ) (bs : List UInt8) : ℕ :=
  match form with
  | short => code
  | _ => ofLe (bs.take form.width).reverse

variable {form : LengthForm} {n : ℕ}

@[simp] theorem length_extended (form : LengthForm) (n : ℕ) :
    (form.extended n).length = form.width := by
  rw [extended, List.length_reverse, length_toLe]

theorem code_lt (h : n < form.bound) : form.code n < 128 := by
  cases form with
  | short => exact Nat.lt_trans h (by decide)
  | medium => exact (by decide : 126 < 128)
  | long => exact (by decide : 127 < 128)

theorem ofCode_code (h : n < form.bound) : ofCode (form.code n) = form := by
  unfold ofCode
  cases form with
  | short =>
    have hn : n < 126 := h
    show (if n = 126 then medium else if n = 127 then long else short) = short
    rw [if_neg hn.ne, if_neg (hn.trans (by decide)).ne]
  | medium => rfl
  | long => rfl

/-- **A length is read as it was written.** -/
theorem length_code (h : n < form.bound) (rest : List UInt8) :
    form.length (form.code n) (form.extended n ++ rest) = n := by
  have hread : ofLe (((form.extended n ++ rest).take form.width).reverse) = n % 256 ^ form.width := by
    rw [List.take_left' (length_extended form n), extended, List.reverse_reverse, ofLe_toLe]
  cases form with
  | short => rfl
  | medium => exact hread.trans (Nat.mod_eq_of_lt (h.trans_eq (by decide)))
  | long => exact hread.trans (Nat.mod_eq_of_lt (lt_trans h (by decide)))

end LengthForm

/-! ## Masks -/

/-- A masking key. -/
abbrev Key := Fin 4 → UInt8

/-- **Masking**: byte `i` of the payload meets byte `i` of the key, modulo four. -/
def masked (key : Key) (bs : List UInt8) : List UInt8 :=
  bs.mapIdx (fun i b => b ^^^ key (Fin.ofNat 4 i))

@[simp] theorem length_masked (key : Key) (bs : List UInt8) :
    (masked key bs).length = bs.length := List.length_mapIdx

theorem getElem?_masked (key : Key) (bs : List UInt8) (i : ℕ) :
    (masked key bs)[i]? = bs[i]?.map (fun b => b ^^^ key (Fin.ofNat 4 i)) := List.getElem?_mapIdx

/-- **Masking twice is masking not at all.** -/
theorem masked_masked (key : Key) (bs : List UInt8) : masked key (masked key bs) = bs := by
  refine List.ext_getElem? (fun i => ?_)
  rw [getElem?_masked, getElem?_masked]
  cases bs[i]? with
  | none => rfl
  | some b =>
    show some ((b ^^^ key (Fin.ofNat 4 i)) ^^^ key (Fin.ofNat 4 i)) = some b
    rw [UInt8.xor_assoc, UInt8.xor_self, UInt8.xor_zero]

/-- The bytes of a key that may be there. -/
def keyBytes : Option Key → List UInt8
  | none => []
  | some key => List.ofFn key

/-- The payload as it is sent. -/
def sent : Option Key → List UInt8 → List UInt8
  | none, bs => bs
  | some key, bs => masked key bs

@[simp] theorem length_sent (mask : Option Key) (bs : List UInt8) :
    (sent mask bs).length = bs.length := by
  cases mask with
  | none => rfl
  | some key => exact length_masked key bs

theorem sent_sent (mask : Option Key) (bs : List UInt8) : sent mask (sent mask bs) = bs := by
  cases mask with
  | none => rfl
  | some key => exact masked_masked key bs

/-- The key that is read. -/
def keyOf (second : UInt8) (bs : List UInt8) : Option Key :=
  if 128 ≤ second.toNat then some (fun i => bs.getD i 0) else none

/-! ## Frames -/

/-- **A frame**, with a payload of a length that its form can hold. -/
structure Frame where
  first : UInt8
  mask : Option Key
  form : LengthForm
  payload : List UInt8
  fits : payload.length < form.bound

namespace Frame

variable {f : Frame}

/-- The final bit. -/
def fin (f : Frame) : Bool := 128 ≤ f.first.toNat

/-- The reserved bits. -/
def rsv (f : Frame) : ℕ := f.first.toNat / 16 % 8

/-- The opcode: one is text. -/
def opcode (f : Frame) : ℕ := f.first.toNat % 16

/-- The second byte: the mask bit and the code of the length. -/
def second (f : Frame) : UInt8 :=
  UInt8.ofNat ((if f.mask.isSome then 128 else 0) + f.form.code f.payload.length)

/-- **The bytes of a frame.** -/
def encode (f : Frame) : List UInt8 :=
  f.first :: f.second :: (f.form.extended f.payload.length
    ++ (keyBytes f.mask ++ sent f.mask f.payload))

/-- **A frame is read** from the front of some bytes, if it is there: the frame, and what is
behind it. -/
def parse : List UInt8 → Option (Frame × List UInt8)
  | first :: second :: rest =>
    let form := LengthForm.ofCode (second.toNat % 128)
    let n := form.length (second.toNat % 128) rest
    let mask := keyOf second (rest.drop form.width)
    let data := rest.drop (form.width + (keyBytes mask).length)
    if h : form.width + (keyBytes mask).length + n ≤ rest.length ∧ n < form.bound then
      some (⟨first, mask, form, sent mask (data.take n),
        ((length_sent _ _).trans_le (List.length_take_le n data)).trans_lt h.2⟩, data.drop n)
    else none
  | _ => none

theorem toNat_second (f : Frame) :
    f.second.toNat = (if f.mask.isSome then 128 else 0) + f.form.code f.payload.length := by
  have hcode := LengthForm.code_lt f.fits
  unfold second
  rw [UInt8.toNat_ofNat', Nat.mod_eq_of_lt]
  split <;> omega

/-- The code is in the lower bits of the second byte. -/
theorem second_mod (f : Frame) : f.second.toNat % 128 = f.form.code f.payload.length := by
  have hcode := LengthForm.code_lt f.fits
  rw [f.toNat_second]
  split
  · rw [Nat.add_mod_left, Nat.mod_eq_of_lt hcode]
  · rw [Nat.zero_add, Nat.mod_eq_of_lt hcode]

/-- **A key is read where there is one.** -/
theorem keyOf_second (f : Frame) (rest : List UInt8) :
    keyOf f.second (keyBytes f.mask ++ rest) = f.mask := by
  have hcode := LengthForm.code_lt f.fits
  unfold keyOf
  rw [f.toNat_second]
  cases hmask : f.mask with
  | none => exact if_neg (by simpa using hcode)
  | some key =>
    rw [if_pos (by simp)]
    refine congrArg some (funext (fun i => ?_))
    show (List.ofFn key ++ rest).getD i 0 = key i
    have hi : (i : ℕ) < (List.ofFn key).length := by simp
    rw [List.getD_append _ _ _ _ hi, List.getD_eq_getElem _ _ hi, List.getElem_ofFn]

/-- **A frame is read back**, and what follows it is left. -/
theorem parse_encode (f : Frame) (rest : List UInt8) : parse (f.encode ++ rest) = some (f, rest) := by
  obtain ⟨first, mask, form, payload, fits⟩ := f
  have hmod := second_mod ⟨first, mask, form, payload, fits⟩
  have hkey := keyOf_second ⟨first, mask, form, payload, fits⟩ (sent mask payload ++ rest)
  have hbytes : (encode ⟨first, mask, form, payload, fits⟩ ++ rest)
      = first :: second ⟨first, mask, form, payload, fits⟩ :: (form.extended payload.length
        ++ (keyBytes mask ++ (sent mask payload ++ rest))) := by
    simp only [encode, List.cons_append, List.append_assoc]
  have hwidth : (form.extended payload.length).length = form.width :=
    LengthForm.length_extended form payload.length
  dsimp only at hmod hkey
  rw [hbytes]
  unfold parse
  simp only [hmod, LengthForm.ofCode_code fits, LengthForm.length_code fits,
    List.drop_left' hwidth, hkey]
  have hdata : (form.extended payload.length ++ (keyBytes mask ++ (sent mask payload ++ rest))).drop
      (form.width + (keyBytes mask).length) = sent mask payload ++ rest := by
    rw [← List.drop_drop, List.drop_left' hwidth, List.drop_left]
  have hlength : (sent mask payload).length = payload.length := length_sent mask payload
  have htake : (sent mask payload ++ rest).take payload.length = sent mask payload :=
    List.take_left' hlength
  simp only [hdata, htake, List.drop_left' hlength, sent_sent]
  refine dif_pos ⟨?_, fits⟩
  simp only [List.length_append, hwidth, hlength]
  omega

end Frame

end Framing
