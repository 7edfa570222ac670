import LinuxLearn.Framing
import LinuxLearn.Websocket

/-!
# Frames that are decoded and encoded

`decode_packet` reads what a client sends, and `encode_packet` writes what is
sent back. Both have a branch for each of the three forms of a length.

The decoder looks for the form in the mask bit, where it is not, so a frame is
decoded as if its length stood in the second byte: the extended length is
taken for the start of the key. The encoder does write the longer headers,
but copies the payload over them, from the third byte on, and leaves the
code of the length at zero.

So frames with a short length go through (`decodes_iff`, `encodes_iff`). Of the
others there are two that a decoder of this kind gives back as they are: one
of 126 bytes and one of 127, whose key and payload continue what their
extended length starts with.
-/

namespace Websocket

open Framing

/-! ## Decoding -/

/-- **A frame in front of a stream is decoded**: its key and its length, and where its
payload is. -/
def Decodes (f : Frame) (key : Key) (stream : List UInt8) : Prop :=
  ∃ start stream',
    decodePacket stream = .ok (List.ofFn key, start, (f.payload.length : ℤ), stream')
      ∧ (stream'.drop start).take f.payload.length = f.payload

/-- **The two frames that continue their extended length**: what is taken for the key is the
key, and what is taken for the payload the payload. -/
def Continues (f : Frame) (key : Key) : Prop :=
  (f.form = .medium ∧ key = ![0, 126, 0, 126] ∧ f.payload = List.replicate 126 0)
    ∨ (f.form = .long ∧ key = (fun _ => 0)
      ∧ f.payload = (List.range 127).map (fun i => if i % 8 = 3 then 127 else 0))

section Decode

variable {f : Frame} {key : Key} {stream rest pre w : List UInt8}

/-- The bytes that `demask` is for. -/
theorem demask_eq (stream : List UInt8) (start n : ℕ) (key : Key) :
    ((demask stream start n (List.ofFn key)).drop start).take n
      = masked key ((stream.drop start).take n) := by
  refine List.ext_getElem? (fun i => ?_)
  rw [getElem?_masked, List.getElem?_take, List.getElem?_take, List.getElem?_drop,
    List.getElem?_drop]
  by_cases hi : i < n
  · rw [if_pos hi, if_pos hi]
    unfold demask
    rw [List.getElem?_mapIdx]
    refine congrFun (congrArg Option.map (funext (fun b => ?_))) _
    have hmod : i % 4 < (List.ofFn key).length := by
      rw [List.length_ofFn]
      exact Nat.mod_lt i (by decide)
    rw [if_pos (by omega), Nat.add_sub_cancel_left, List.getD_eq_getElem _ _ hmod, List.getElem_ofFn]
    rfl
  · rw [if_neg hi, if_neg hi]
    rfl

/-- **A list that is put behind a few of its bytes** starts as it did before where it
repeats these. -/
theorem take_append_eq_iff (hpre : pre ≠ []) :
    (pre ++ w).take w.length = w ↔ ∀ i < w.length, w[i]? = pre[i % pre.length]? := by
  have hpos : 0 < pre.length := List.length_pos_iff.mpr hpre
  have hfar : ∀ i, pre.length ≤ i → (pre ++ w)[i]? = w[i - pre.length]? := fun i hi =>
    List.getElem?_append_right hi
  constructor
  · intro h i hi
    have hshift : ∀ i < w.length, w[i]? = (pre ++ w)[i]? := fun i hi => by
      conv_lhs => rw [← h]
      exact List.getElem?_take_of_lt hi
    induction i using Nat.strong_induction_on with
    | _ i ih =>
      rw [hshift i hi]
      by_cases hlt : i < pre.length
      · rw [List.getElem?_append_left hlt, Nat.mod_eq_of_lt hlt]
      · have hle := not_lt.mp hlt
        rw [hfar i hle, ih (i - pre.length) (by omega) (by omega), Nat.mod_eq_sub_mod hle]
  · intro h
    refine List.ext_getElem? (fun i => ?_)
    by_cases hi : i < w.length
    · rw [List.getElem?_take_of_lt hi, h i hi]
      by_cases hlt : i < pre.length
      · rw [List.getElem?_append_left hlt, Nat.mod_eq_of_lt hlt]
      · have hle := not_lt.mp hlt
        rw [hfar i hle, h (i - pre.length) (by omega), Nat.mod_eq_sub_mod hle]
    · rw [List.getElem?_eq_none (by simp; omega), List.getElem?_eq_none (not_lt.mp hi)]

/-- **What the decoder makes of a frame.** The key it finds is the front of what stands
behind the second byte, and the payload is what follows. -/
theorem decodes_iff_sent (hmask : f.mask = some key) (hstream : stream = f.encode ++ rest)
    (hlength : stream.length = BUFFER_LENGTH) :
    Decodes f key stream ↔ f.form.code f.payload.length = f.payload.length
      ∧ (f.form.extended f.payload.length ++ List.ofFn key).take 4 = List.ofFn key
      ∧ ((f.form.extended f.payload.length ++ List.ofFn key).drop 4
        ++ masked key f.payload).take f.payload.length = masked key f.payload := by
  have hdecode := decodePacket_short hlength
  have hsecond : stream.getD 1 0 = f.second := by
    rw [hstream]
    rfl
  have hsize : (stream.getD 1 0 &&& 0x7F).toNat = f.form.code f.payload.length := by
    rw [hsecond, UInt8.toNat_and, ← f.second_mod]
    exact Nat.and_two_pow_sub_one_eq_mod _ 7
  set head := f.form.extended f.payload.length ++ List.ofFn key with hhead
  have hbytes : stream.drop 2 = head ++ (masked key f.payload ++ rest) := by
    rw [hstream, hhead, Frame.encode, hmask]
    simp only [keyBytes, sent, List.cons_append, List.drop_succ_cons, List.drop_zero,
      List.append_assoc]
  have hfour : 4 ≤ head.length := by
    rw [hhead, List.length_append, List.length_ofFn]
    exact Nat.le_add_left 4 _
  have htake : (stream.drop 2).take 4 = head.take 4 := by
    rw [hbytes, List.take_append_of_le_length hfour]
  have hdata : (stream.drop 6).take f.payload.length
      = (head.drop 4 ++ masked key f.payload).take f.payload.length := by
    have hdrop : stream.drop 6 = (stream.drop 2).drop 4 := by rw [List.drop_drop]
    rw [hdrop, hbytes, List.drop_append_of_le_length hfour, ← List.append_assoc,
      List.take_append_of_le_length (by simp)]
  rw [hsize, htake] at hdecode
  unfold Decodes
  rw [hdecode]
  constructor
  · rintro ⟨start, stream', hok, hpayload⟩
    obtain ⟨hkey, rfl, hn, rfl⟩ : head.take 4 = List.ofFn key ∧ 6 = start
        ∧ ((f.form.code f.payload.length : ℕ) : ℤ) = (f.payload.length : ℤ) ∧ _ = stream' := by
      simpa only [Except.ok.injEq, Prod.mk.injEq] using hok
    have hcode : f.form.code f.payload.length = f.payload.length := by exact_mod_cast hn
    refine ⟨hcode, hkey, ?_⟩
    rw [hkey, hcode, demask_eq, hdata] at hpayload
    have hmasked := congrArg (masked key) hpayload
    rwa [masked_masked] at hmasked
  · rintro ⟨hcode, hkey, hpayload⟩
    refine ⟨6, _, by rw [hkey, hcode], ?_⟩
    rw [demask_eq, hdata, hpayload, masked_masked]

theorem ofFn_key (key : Key) : List.ofFn key = [key 0, key 1, key 2, key 3] := by
  simp [List.ofFn_succ, List.ofFn_zero]

theorem eq_zero_of_xor {b k : UInt8} (h : b ^^^ k = k) : b = 0 := by
  have hcancel := congrArg (fun x => x ^^^ k) h
  simpa [UInt8.xor_assoc] using hcancel

/-- Two bytes over and over, where the key has them. -/
theorem getElem?_medium (i : ℕ) :
    ([0, 126] : List UInt8)[i % 2]? = some ((![0, 126, 0, 126] : Key) (Fin.ofNat 4 i)) := by
  have hlt : i % 4 < 4 := Nat.mod_lt i (by decide)
  have hmod : i % 2 = i % 4 % 2 := by omega
  have hfin : Fin.ofNat 4 i = ⟨i % 4, hlt⟩ := rfl
  rw [hmod, hfin]
  generalize i % 4 = r at hlt
  interval_cases r <;> rfl

theorem getElem?_long (i : ℕ) :
    ([0, 0, 0, 127, 0, 0, 0, 0] : List UInt8)[i % 8]? = some (if i % 8 = 3 then 127 else 0) := by
  have hlt : i % 8 < 8 := Nat.mod_lt i (by decide)
  generalize i % 8 = r at hlt
  interval_cases r <;> rfl

/-- **A frame of 126 bytes** with two more bytes of length. -/
theorem decodes_medium_iff (hform : f.form = .medium) :
    (f.form.code f.payload.length = f.payload.length
      ∧ (f.form.extended f.payload.length ++ List.ofFn key).take 4 = List.ofFn key
      ∧ ((f.form.extended f.payload.length ++ List.ofFn key).drop 4
        ++ masked key f.payload).take f.payload.length = masked key f.payload)
      ↔ key = ![0, 126, 0, 126] ∧ f.payload = List.replicate 126 0 := by
  rw [hform]
  have hhead : ∀ n, n = 126 → LengthForm.medium.extended n ++ List.ofFn key
      = [0, 126, key 0, key 1, key 2, key 3] := by
    rintro n rfl
    rw [ofFn_key]
    rfl
  have htail : f.payload.length = 126 → key = ![0, 126, 0, 126] →
      (([0, 126] ++ masked key f.payload).take f.payload.length = masked key f.payload
        ↔ f.payload = List.replicate 126 0) := by
    intro hn hkey
    have hlength : (masked key f.payload).length = f.payload.length := length_masked key f.payload
    rw [← hlength, take_append_eq_iff (List.cons_ne_nil _ _), hlength, hn]
    constructor
    · intro h
      refine List.ext_getElem? (fun i => ?_)
      by_cases hi : i < 126
      · have hw := h i hi
        rw [getElem?_masked, List.getElem?_eq_getElem (hn ▸ hi)] at hw
        have hb := Option.some.inj (hw.trans (hkey ▸ getElem?_medium i))
        rw [List.getElem?_eq_getElem (hn ▸ hi), eq_zero_of_xor hb, List.getElem?_replicate, if_pos hi]
      · rw [List.getElem?_eq_none (by omega), List.getElem?_eq_none (by simp; omega)]
    · intro hpayload i hi
      rw [getElem?_masked, hpayload, List.getElem?_replicate, if_pos hi]
      refine Eq.trans ?_ (hkey ▸ getElem?_medium i).symm
      exact congrArg some (UInt8.zero_xor)
  constructor
  · rintro ⟨hcode, htake, hdrop⟩
    have hn : f.payload.length = 126 := hcode.symm
    rw [hhead _ hn, ofFn_key] at htake
    rw [hhead _ hn] at hdrop
    obtain ⟨h0, h1, h2, h3⟩ : (0 : UInt8) = key 0 ∧ (126 : UInt8) = key 1 ∧ key 0 = key 2
        ∧ key 1 = key 3 := by simpa using htake
    have hkey : key = ![0, 126, 0, 126] := by
      funext i
      fin_cases i
      · exact h0.symm
      · exact h1.symm
      · exact (h0.trans h2).symm
      · exact (h1.trans h3).symm
    refine ⟨hkey, (htail hn hkey).mp ?_⟩
    rw [← h2, ← h3, ← h0, ← h1] at hdrop
    exact hdrop
  · rintro ⟨hkey, hpayload⟩
    have hn : f.payload.length = 126 := by rw [hpayload, List.length_replicate]
    refine ⟨hn.symm, ?_, ?_⟩
    · rw [hhead _ hn, hkey]
      rfl
    · rw [hhead _ hn]
      have hdrop := (htail hn hkey).mpr hpayload
      have h2 : key 2 = 0 := by rw [hkey]; rfl
      have h3 : key 3 = 126 := by rw [hkey]; rfl
      rw [h2, h3]
      exact hdrop

theorem masked_zero (bs : List UInt8) : masked (fun _ => 0) bs = bs := by
  refine List.ext_getElem? (fun i => ?_)
  rw [getElem?_masked]
  cases bs[i]? with
  | none => rfl
  | some b => exact congrArg some (UInt8.xor_zero)

/-- **A frame of 127 bytes** with eight more bytes of length. -/
theorem decodes_long_iff (hform : f.form = .long) :
    (f.form.code f.payload.length = f.payload.length
      ∧ (f.form.extended f.payload.length ++ List.ofFn key).take 4 = List.ofFn key
      ∧ ((f.form.extended f.payload.length ++ List.ofFn key).drop 4
        ++ masked key f.payload).take f.payload.length = masked key f.payload)
      ↔ key = (fun _ => 0)
        ∧ f.payload = (List.range 127).map (fun i => if i % 8 = 3 then 127 else 0) := by
  rw [hform]
  have hhead : ∀ n, n = 127 → LengthForm.long.extended n ++ List.ofFn key
      = [0, 0, 0, 0, 0, 0, 0, 127, key 0, key 1, key 2, key 3] := by
    rintro n rfl
    rw [ofFn_key]
    rfl
  have htail : f.payload.length = 127 → key = (fun _ => 0) →
      (([0, 0, 0, 127, 0, 0, 0, 0] ++ masked key f.payload).take f.payload.length
          = masked key f.payload
        ↔ f.payload = (List.range 127).map (fun i => if i % 8 = 3 then 127 else 0)) := by
    intro hn hkey
    rw [hkey, masked_zero, take_append_eq_iff (List.cons_ne_nil _ _), hn]
    constructor
    · intro h
      refine List.ext_getElem? (fun i => ?_)
      rw [List.getElem?_map]
      by_cases hi : i < 127
      · rw [List.getElem?_range hi]
        exact (h i hi).trans (getElem?_long i)
      · rw [List.getElem?_eq_none (by omega), List.getElem?_eq_none (by simp; omega)]
        rfl
    · intro hpayload i hi
      rw [hpayload, List.getElem?_map, List.getElem?_range hi]
      exact (getElem?_long i).symm
  constructor
  · rintro ⟨hcode, htake, hdrop⟩
    have hn : f.payload.length = 127 := hcode.symm
    rw [hhead _ hn, ofFn_key] at htake
    rw [hhead _ hn] at hdrop
    obtain ⟨h0, h1, h2, h3⟩ : (0 : UInt8) = key 0 ∧ (0 : UInt8) = key 1 ∧ (0 : UInt8) = key 2
        ∧ (0 : UInt8) = key 3 := by simpa using htake
    have hkey : key = (fun _ => 0) := by
      funext i
      fin_cases i
      · exact h0.symm
      · exact h1.symm
      · exact h2.symm
      · exact h3.symm
    refine ⟨hkey, (htail hn hkey).mp ?_⟩
    rw [← h0, ← h1, ← h2, ← h3] at hdrop
    exact hdrop
  · rintro ⟨rfl, hpayload⟩
    have hn : f.payload.length = 127 := by rw [hpayload, List.length_map, List.length_range]
    refine ⟨hn.symm, ?_, ?_⟩
    · rw [hhead _ hn]
      rfl
    · rw [hhead _ hn]
      exact (htail hn rfl).mpr hpayload

/-- **When a frame of a client is decoded**: where its length is short, and for two frames
else. -/
theorem decodes_iff (hmask : f.mask = some key) (hstream : stream = f.encode ++ rest)
    (hlength : stream.length = BUFFER_LENGTH) :
    Decodes f key stream ↔ f.form = .short ∨ Continues f key := by
  rw [decodes_iff_sent hmask hstream hlength]
  unfold Continues
  cases hform : f.form with
  | short =>
    refine iff_of_true ⟨rfl, ?_, ?_⟩ (Or.inl rfl)
    · exact List.take_of_length_le (by simp [LengthForm.extended, LengthForm.width])
    · have hdrop : (LengthForm.short.extended f.payload.length ++ List.ofFn key).drop 4 = [] :=
        List.drop_eq_nil_of_le (by simp [LengthForm.extended, LengthForm.width])
      rw [hdrop]
      exact List.take_of_length_le (by simp)
  | medium =>
    rw [← hform, decodes_medium_iff hform]
    simp [hform]
  | long =>
    rw [← hform, decodes_long_iff hform]
    simp [hform]

end Decode

/-- A frame with the text `hi`. -/
def hiFrame : Frame := ⟨0x81, some ![1, 2, 3, 4], .short, ascii "hi", by decide⟩

/-- It is decoded. -/
theorem decodes_iff_hi :
    hiFrame.form = .short ∧ Decodes hiFrame ![1, 2, 3, 4]
      (hiFrame.encode ++ zeroed (BUFFER_LENGTH - hiFrame.encode.length)) := by
  have hlength : (hiFrame.encode ++ zeroed (BUFFER_LENGTH - hiFrame.encode.length)).length
      = BUFFER_LENGTH := by
    rw [List.length_append, zeroed, List.length_replicate]
    exact Nat.add_sub_cancel' (by decide)
  exact ⟨rfl, (decodes_iff rfl rfl hlength).mpr (Or.inl rfl)⟩

/-- A frame of 126 bytes. -/
def longerFrame : Frame :=
  ⟨0x81, some ![1, 2, 3, 4], .medium, List.replicate 126 97, by simp [LengthForm.bound]⟩

/-- **It is not decoded**: the length is taken for a part of the key. -/
theorem not_decodes :
    longerFrame.mask = some ![1, 2, 3, 4]
      ∧ (longerFrame.encode ++ zeroed (BUFFER_LENGTH - longerFrame.encode.length)).length
        = BUFFER_LENGTH
      ∧ ¬ Decodes longerFrame ![1, 2, 3, 4]
        (longerFrame.encode ++ zeroed (BUFFER_LENGTH - longerFrame.encode.length)) := by
  have hlength : (longerFrame.encode ++ zeroed (BUFFER_LENGTH - longerFrame.encode.length)).length
      = BUFFER_LENGTH := by
    rw [List.length_append, zeroed, List.length_replicate]
    refine Nat.add_sub_cancel' ?_
    simp [longerFrame, Frame.encode, keyBytes, LengthForm.width, BUFFER_LENGTH]
  refine ⟨rfl, hlength, fun hdecodes => ?_⟩
  have hkey := ((decodes_medium_iff rfl).mp
    ((decodes_iff_sent rfl rfl hlength).mp hdecodes)).1
  exact absurd (congrFun hkey 0) (by decide)

/-! ## Encoding -/

/-- **A payload is encoded**: what is said to be the frame is one, a whole text without a
mask, and nothing else. -/
def Encodes (buffer mask stream payload : List UInt8) : Prop :=
  ∃ ret buffer' f, encodePacket buffer mask stream payload.length = .ok (ret, buffer')
    ∧ Frame.parse (buffer'.take ret.toNat) = some (f, [])
    ∧ f.fin = true ∧ f.rsv = 0 ∧ f.opcode = 1 ∧ f.mask = none ∧ f.payload = payload

section Encode

variable {buffer buffer' mask bytes stream payload rest : List UInt8} {offset : ℕ} {ret : ℤ}

/-- The front of a buffer up to what was copied into it. -/
theorem take_of_memcpy (h : memcpy buffer offset bytes = .ok buffer') :
    buffer'.take (offset + bytes.length) = buffer.take offset ++ bytes
      ∧ buffer'.take offset = buffer.take offset := by
  unfold memcpy at h
  split at h
  · cases h
  · next hle =>
    obtain rfl := Except.ok.inj h
    have hoffset : (buffer.take offset).length = offset := by
      rw [List.length_take]
      omega
    refine ⟨?_, ?_⟩
    · exact List.take_left' (by rw [List.length_append, hoffset])
    · rw [List.append_assoc]
      exact List.take_left' hoffset

/-- **What is sent**: two bytes, whatever the length, and the payload. -/
theorem encodePacket_sent
    (h : encodePacket buffer mask (payload ++ rest) payload.length = .ok (ret, buffer')) :
    buffer'.take ret.toNat
      = 0x81 :: (if payload.length < 126 then (payload.length % 128).toUInt8 else 0) :: payload := by
  unfold encodePacket at h
  obtain ⟨b, hheader, h⟩ := exists_of_bind_eq_ok h
  obtain ⟨b', hcopy, h⟩ := exists_of_bind_eq_ok h
  obtain ⟨rfl, rfl⟩ := Prod.mk.inj (Except.ok.inj h)
  rw [List.take_left' rfl] at hcopy
  have hret : ((payload.length : ℤ) + 2).toNat = 2 + payload.length := by omega
  rw [hret, (take_of_memcpy hcopy).1]
  -- a longer header is behind the two bytes, and the payload over it
  have hlong : ∀ {head : List UInt8}, (do
      let b ← memcpy buffer 0 [0x81, 0]
      memcpy b 2 head) = .ok b → b.take 2 = [0x81, 0] := by
    intro head hhead
    obtain ⟨b₁, hb₁, hb⟩ := exists_of_bind_eq_ok hhead
    rw [(take_of_memcpy hb).2]
    exact (take_of_memcpy hb₁).1
  split at hheader
  · next hshort =>
    rw [if_pos hshort]
    have htake : b.take 2 = [0x81, (payload.length % 128).toUInt8] := (take_of_memcpy hheader).1
    rw [htake]
    rfl
  · next hshort =>
    rw [if_neg hshort]
    have htake : b.take 2 = [0x81, 0] := by
      split at hheader
      · exact hlong hheader
      · exact hlong hheader
    rw [htake]
    rfl

/-- A whole text without a mask. -/
def textFrame (payload : List UInt8) (h : payload.length < 126) : Frame :=
  ⟨0x81, none, .short, payload, h⟩

/-- **When a payload is encoded as a frame**: where its length is short. -/
theorem encodes_iff (hbuffer : buffer.length = BUFFER_LENGTH) :
    Encodes buffer mask (payload ++ rest) payload ↔ payload.length < 126 := by
  constructor
  · rintro ⟨ret, buffer', f, hok, hparse, -, -, -, -, hpayload⟩
    by_contra hlong
    have hsent := encodePacket_sent hok
    rw [if_neg hlong] at hsent
    -- it reads as an empty frame that something follows
    have hempty : 0x81 :: 0 :: payload = (textFrame [] (by decide)).encode ++ payload := rfl
    rw [hsent, hempty, Frame.parse_encode] at hparse
    obtain ⟨-, rfl⟩ := Prod.mk.inj (Option.some.inj hparse)
    exact hlong (by decide)
  · intro hshort
    have hlength : buffer.length = 4096 := hbuffer
    have hhead : (0 : ℕ) + ([0x81, (payload.length % 128).toUInt8] : List UInt8).length
        ≤ buffer.length := by
      rw [hlength]
      exact (by decide : 2 ≤ 4096)
    obtain ⟨b₁, hb₁, hlen₁⟩ := memcpy_eq hhead
    have hdata : 2 + payload.length ≤ b₁.length := by omega
    obtain ⟨b₂, hb₂, -⟩ := memcpy_eq hdata
    have hok : encodePacket buffer mask (payload ++ rest) payload.length
        = .ok ((payload.length : ℤ) + 2, b₂) := by
      unfold encodePacket
      rw [if_pos hshort, List.take_left' rfl]
      exact bind_ok hb₁ (bind_ok hb₂ rfl)
    have hsent := encodePacket_sent hok
    rw [if_pos hshort] at hsent
    have hframe : 0x81 :: (payload.length % 128).toUInt8 :: payload
        = (textFrame payload hshort).encode ++ [] := by
      rw [List.append_nil]
      show _ = 0x81 :: UInt8.ofNat (0 + payload.length) :: ([] ++ ([] ++ payload))
      rw [Nat.mod_eq_of_lt (by omega), Nat.zero_add]
      rfl
    have hrsv : (0x81 : UInt8).toNat / 16 % 8 = 0 := by decide
    have hopcode : (0x81 : UInt8).toNat % 16 = 1 := by decide
    refine ⟨_, b₂, textFrame payload hshort, hok, ?_, rfl, hrsv, hopcode, rfl, rfl⟩
    rw [hsent, hframe, Frame.parse_encode]

end Encode

/-- A buffer for the text `hi`. -/
theorem encodes_iff_hi :
    Encodes (zeroed BUFFER_LENGTH) [1, 2, 3, 4] (ascii "hi" ++ []) (ascii "hi")
      ↔ (ascii "hi").length < 126 :=
  encodes_iff List.length_replicate

/-- **A payload of 126 bytes is not encoded**: the code of its length is zero. -/
theorem not_encodes :
    ¬ Encodes (zeroed BUFFER_LENGTH) [1, 2, 3, 4] (List.replicate 126 97 ++ [])
      (List.replicate 126 97) := by
  rintro ⟨ret, buffer', f, hok, hparse, -, -, -, -, hpayload⟩
  have hempty : 0x81 :: 0 :: List.replicate 126 97
      = (textFrame [] (by decide)).encode ++ List.replicate 126 97 := rfl
  rw [encodePacket_sent hok, List.length_replicate, if_neg (by decide), hempty,
    Frame.parse_encode] at hparse
  exact absurd (Prod.mk.inj (Option.some.inj hparse)).2 (by decide)

end Websocket
