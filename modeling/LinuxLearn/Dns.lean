import LinuxLearn.Bytes
import LinuxLearn.Simulation

/-!
# Names in a DNS message

`dns_parse_name` reads a name from a message: labels, each behind its length,
up to a zero byte or to a pointer, at which it calls itself with the place the
pointer leads to. Of the pointer it takes the second byte alone. It writes the
labels to a buffer, a dot behind each that is not followed by a zero byte, and
adds up their length.

Nothing bounds the labels, the pointers or the buffer. `Spells` says what a
name that comes to an end spells, whatever pointers it goes through, and
`parseName_of_spells` and `spells_of_parseName` that this is what is written;
`Within` says where it has to lie for the function to stay inside its arrays.
-/

namespace Dns

/-- `is_pointer`. -/
def isPointer (b : UInt8) : Prop := b &&& 0xC0 = 0xC0

instance : DecidablePred isPointer := fun _ => inferInstanceAs (Decidable (_ = _))

/-- **An index that is used**: a byte of the message is read, or one of the buffer for
the name is written. -/
inductive Access where
  | read (i : ℕ)
  | write (i : ℕ)

/-- It is in the array: a message of so many bytes, or a name of 128. -/
def Access.Inside (size : ℕ) : Access → Prop
  | read i => i < size
  | write i => i < 128

/-- **The buffer for a name.** -/
structure NameBuf where
  /-- The bytes of the buffer. -/
  out : Bytes
  /-- `*len`. -/
  len : ℕ

/-- The buffer with more behind what it has. -/
def NameBuf.put (buf : NameBuf) (text : List UInt8) : NameBuf :=
  ⟨buf.out.store buf.len text, buf.len + text.length⟩

/-- What `memcpy` uses to copy from the message to the buffer. -/
def memcpyAccesses (pos ptr n : ℕ) : List Access :=
  (List.range n).map (fun i => .read (ptr + i)) ++ (List.range n).map (fun i => .write (pos + i))

/-- **The loop of `dns_parse_name`**, with the indices it uses, from where `ptr` and `pos`
stand. It has no result where it was given too few rounds, its calls of itself
included. -/
def parseNameLoop (chunk : Bytes) : ℕ → ℕ → ℕ → NameBuf → Option (NameBuf × List Access)
  | 0, _, _, _ => none
  | fuel + 1, ptr, pos, buf =>
    let flag := chunk ptr
    if flag = 0 then some (buf, [.read ptr])
    else if isPointer flag then do
      let n := (chunk (ptr + 1)).toNat
      -- the call starts from `out + *len`
      let (buf, log) ← parseNameLoop chunk fuel n buf.len buf
      return (buf, .read ptr :: .read (ptr + 1) :: log)
    else do
      let n := flag.toNat
      let next := ptr + 1 + n
      let log := .read ptr :: memcpyAccesses pos (ptr + 1) n ++ [.read next]
      let buf := ⟨buf.out.store pos (chunk.load (ptr + 1) n), buf.len + n⟩
      if chunk next ≠ 0 then
        let dotted := ⟨buf.out.store (pos + n) [46], buf.len + 1⟩
        let (buf, log') ← parseNameLoop chunk fuel next (pos + n + 1) dotted
        return (buf, log ++ .write (pos + n) :: log')
      else
        let (buf, log') ← parseNameLoop chunk fuel next (pos + n) buf
        return (buf, log ++ log')

/-- **`dns_parse_name`.** -/
def dnsParseName (chunk : Bytes) (fuel ptr : ℕ) (buf : NameBuf) :
    Option (NameBuf × List Access) :=
  parseNameLoop chunk fuel ptr buf.len buf

/-! ## What a name spells -/

/-- Where the label at a place ends. -/
def labelEnd (chunk : Bytes) (p : ℕ) : ℕ := p + 1 + (chunk p).toNat

/-- What is written for the label at a place: a dot behind it, if no zero byte follows. -/
def labelText (chunk : Bytes) (p : ℕ) : List UInt8 :=
  chunk.load (p + 1) (chunk p).toNat ++ if chunk (labelEnd chunk p) ≠ 0 then [46] else []

/-- **What a name spells**, the second byte of a pointer taken for the place it leads to. -/
inductive Spells (chunk : Bytes) : ℕ → List UInt8 → Prop
  | root {p : ℕ} (h0 : chunk p = 0) : Spells chunk p []
  | pointer {p : ℕ} {t : List UInt8} (hptr : isPointer (chunk p))
    (h : Spells chunk (chunk (p + 1)).toNat t) : Spells chunk p t
  | label {p : ℕ} {t : List UInt8} (h0 : chunk p ≠ 0) (hptr : ¬ isPointer (chunk p))
    (h : Spells chunk (labelEnd chunk p) t) : Spells chunk p (labelText chunk p ++ t)

/-- **A name that lies in a message** of so many bytes, up to its end, and with everything
its pointers lead to. -/
inductive Within (chunk : Bytes) (size : ℕ) : ℕ → Prop
  | root {p : ℕ} (h0 : chunk p = 0) (hp : p < size) : Within chunk size p
  | pointer {p : ℕ} (hptr : isPointer (chunk p)) (hp : p + 1 < size)
    (h : Within chunk size (chunk (p + 1)).toNat) : Within chunk size p
  | label {p : ℕ} (h0 : chunk p ≠ 0) (hptr : ¬ isPointer (chunk p))
    (h : Within chunk size (labelEnd chunk p)) : Within chunk size p

section

variable {chunk : Bytes} {size p fuel : ℕ} {buf buf' : NameBuf} {t t' : List UInt8} {log : List Access}

theorem not_isPointer_zero : ¬ isPointer 0 := by decide

theorem toNat_pos {b : UInt8} (h0 : b ≠ 0) : 0 < b.toNat :=
  Nat.pos_of_ne_zero (fun h => h0 (UInt8.toNat_inj.mp h))

theorem ne_zero_of_pos {b : UInt8} (h : 1 ≤ b.toNat) : b ≠ 0 := by
  rintro rfl
  exact absurd h (by decide)

/-- The length of a label is no pointer. -/
theorem not_isPointer_of_le {b : UInt8} (h : b.toNat ≤ 63) : ¬ isPointer b := by
  have hsmall : ∀ n < 64, ¬ isPointer (UInt8.ofNat n) := by decide
  rw [← UInt8.ofNat_toNat (x := b)]
  exact hsmall _ (Nat.lt_succ_of_le h)

/-! ### The cases of a byte -/

theorem spells_root (h0 : chunk p = 0) : Spells chunk p t ↔ t = [] := by
  constructor
  · intro h
    cases h with
    | root => rfl
    | pointer hptr => exact absurd (h0 ▸ hptr) not_isPointer_zero
    | label hne => exact absurd h0 hne
  · rintro rfl
    exact .root h0

theorem spells_pointer (hptr : isPointer (chunk p)) :
    Spells chunk p t ↔ Spells chunk (chunk (p + 1)).toNat t := by
  constructor
  · intro h
    cases h with
    | root h0 => exact absurd (h0 ▸ hptr) not_isPointer_zero
    | pointer _ h => exact h
    | label _ hnot => exact absurd hptr hnot
  · exact .pointer hptr

theorem spells_label (h0 : chunk p ≠ 0) (hptr : ¬ isPointer (chunk p)) :
    Spells chunk p t ↔ ∃ t', Spells chunk (labelEnd chunk p) t' ∧ t = labelText chunk p ++ t' := by
  constructor
  · intro h
    cases h with
    | root h => exact absurd h h0
    | pointer h => exact absurd h hptr
    | label _ _ h => exact ⟨_, h, rfl⟩
  · rintro ⟨t', h, rfl⟩
    exact .label h0 hptr h

/-- **A name spells one thing.** -/
theorem Spells.unique (h : Spells chunk p t) (h' : Spells chunk p t') : t = t' := by
  induction h generalizing t' with
  | root h0 => exact ((spells_root h0).mp h').symm
  | pointer hptr _ ih => exact ih ((spells_pointer hptr).mp h')
  | label h0 hptr _ ih =>
    obtain ⟨t₁, h₁, rfl⟩ := (spells_label h0 hptr).mp h'
    rw [ih h₁]

theorem Within.lt (h : Within chunk size p) : p < size := by
  induction h with
  | root _ hp => exact hp
  | pointer _ hp => omega
  | label _ _ _ ih =>
    unfold labelEnd at ih
    omega

theorem within_root (h0 : chunk p = 0) : Within chunk size p ↔ p < size :=
  ⟨Within.lt, .root h0⟩

theorem within_pointer (hptr : isPointer (chunk p)) :
    Within chunk size p ↔ p + 1 < size ∧ Within chunk size (chunk (p + 1)).toNat := by
  constructor
  · intro h
    cases h with
    | root h0 => exact absurd (h0 ▸ hptr) not_isPointer_zero
    | pointer _ hp h => exact ⟨hp, h⟩
    | label _ hnot => exact absurd hptr hnot
  · exact fun h => .pointer hptr h.1 h.2

theorem within_label (h0 : chunk p ≠ 0) (hptr : ¬ isPointer (chunk p)) :
    Within chunk size p ↔ Within chunk size (labelEnd chunk p) := by
  constructor
  · intro h
    cases h with
    | root h => exact absurd h h0
    | pointer h => exact absurd h hptr
    | label _ _ h => exact h
  · exact .label h0 hptr

/-- A name in the message spells something. -/
theorem Within.exists_spells (h : Within chunk size p) : ∃ t, Spells chunk p t := by
  induction h with
  | root h0 => exact ⟨_, .root h0⟩
  | pointer hptr _ _ ih =>
    obtain ⟨t, ht⟩ := ih
    exact ⟨_, .pointer hptr ht⟩
  | label h0 hptr _ ih =>
    obtain ⟨t, ht⟩ := ih
    exact ⟨_, .label h0 hptr ht⟩

/-! ### The function -/

theorem NameBuf.put_nil : buf.put [] = buf := by
  unfold NameBuf.put
  rw [Bytes.store_nil]
  rfl

theorem NameBuf.put_append : buf.put (t ++ t') = (buf.put t).put t' := by
  unfold NameBuf.put
  rw [Bytes.store_append, List.length_append, Nat.add_assoc]

/-- What the loop uses for a label. -/
def labelAccesses (chunk : Bytes) (pos p : ℕ) : List Access :=
  let n := (chunk p).toNat
  .read p :: (memcpyAccesses pos (p + 1) n ++ [.read (labelEnd chunk p)]
    ++ if chunk (labelEnd chunk p) ≠ 0 then [.write (pos + n)] else [])

theorem dnsParseName_root (h0 : chunk p = 0) :
    dnsParseName chunk (fuel + 1) p buf = some (buf, [.read p]) := if_pos h0

theorem dnsParseName_pointer (hptr : isPointer (chunk p)) :
    dnsParseName chunk (fuel + 1) p buf = (dnsParseName chunk fuel (chunk (p + 1)).toNat buf).map
      (fun r => (r.1, .read p :: .read (p + 1) :: r.2)) := by
  have h0 : chunk p ≠ 0 := fun h0 => not_isPointer_zero (h0 ▸ hptr)
  unfold dnsParseName
  rw [parseNameLoop]
  dsimp only
  rw [if_neg h0, if_pos hptr]
  exact Option.map_eq_bind.symm

theorem dnsParseName_label (h0 : chunk p ≠ 0) (hptr : ¬ isPointer (chunk p)) :
    dnsParseName chunk (fuel + 1) p buf
      = (dnsParseName chunk fuel (labelEnd chunk p) (buf.put (labelText chunk p))).map
        (fun r => (r.1, labelAccesses chunk buf.len p ++ r.2)) := by
  have hput : buf.put (chunk.load (p + 1) (chunk p).toNat)
      = ⟨buf.out.store buf.len (chunk.load (p + 1) (chunk p).toNat), buf.len + (chunk p).toNat⟩ := by
    unfold NameBuf.put
    rw [Bytes.length_load]
  unfold dnsParseName labelText labelAccesses labelEnd
  rw [parseNameLoop, NameBuf.put_append, hput]
  dsimp only
  rw [if_neg h0, if_neg hptr]
  by_cases hnext : chunk (p + 1 + (chunk p).toNat) ≠ 0
  · simp only [if_pos hnext, Option.map_eq_bind, List.append_assoc, List.cons_append,
      List.nil_append]
    rfl
  · simp only [if_neg hnext, Option.map_eq_bind, NameBuf.put_nil, List.append_nil]
    rfl

/-- **What a name spells is written**, if there are rounds enough. -/
theorem parseName_of_spells (h : Spells chunk p t) :
    ∃ n, ∀ fuel, n ≤ fuel → ∀ buf, ∃ log, dnsParseName chunk fuel p buf = some (buf.put t, log) := by
  induction h with
  | root h0 =>
    refine ⟨1, fun fuel hfuel buf => ?_⟩
    obtain ⟨fuel, rfl⟩ := Nat.exists_eq_add_of_le' hfuel
    exact ⟨_, by rw [dnsParseName_root h0, NameBuf.put_nil]⟩
  | pointer hptr _ ih =>
    obtain ⟨n, hn⟩ := ih
    refine ⟨n + 1, fun fuel hfuel buf => ?_⟩
    obtain ⟨fuel, rfl⟩ := Nat.exists_eq_add_of_le' (le_trans (Nat.le_add_left 1 n) hfuel)
    obtain ⟨log, hlog⟩ := hn fuel (by omega) buf
    exact ⟨_, by rw [dnsParseName_pointer hptr, hlog, Option.map_some]⟩
  | label h0 hptr _ ih =>
    obtain ⟨n, hn⟩ := ih
    refine ⟨n + 1, fun fuel hfuel buf => ?_⟩
    obtain ⟨fuel, rfl⟩ := Nat.exists_eq_add_of_le' (le_trans (Nat.le_add_left 1 n) hfuel)
    obtain ⟨log, hlog⟩ := hn fuel (by omega) (buf.put _)
    exact ⟨_, by rw [dnsParseName_label h0 hptr, hlog, Option.map_some, NameBuf.put_append]⟩

/-- **What is written is what the name spells.** -/
theorem spells_of_parseName (h : dnsParseName chunk fuel p buf = some (buf', log)) :
    ∃ t, Spells chunk p t ∧ buf' = buf.put t := by
  induction fuel generalizing p buf log with
  | zero => cases h
  | succ fuel ih =>
    by_cases h0 : chunk p = 0
    · rw [dnsParseName_root h0] at h
      cases h
      exact ⟨[], .root h0, NameBuf.put_nil.symm⟩
    by_cases hptr : isPointer (chunk p)
    · rw [dnsParseName_pointer hptr] at h
      obtain ⟨r, hr, he⟩ := Option.map_eq_some_iff.mp h
      cases he
      obtain ⟨t, ht, hbuf⟩ := ih hr
      exact ⟨t, .pointer hptr ht, hbuf⟩
    · rw [dnsParseName_label h0 hptr] at h
      obtain ⟨r, hr, he⟩ := Option.map_eq_some_iff.mp h
      cases he
      obtain ⟨t, ht, hbuf⟩ := ih hr
      exact ⟨_, .label h0 hptr ht, hbuf.trans NameBuf.put_append.symm⟩

/-- The indices of `memcpy`. -/
theorem memcpyAccesses_inside {pos ptr n : ℕ} (hn : 0 < n) :
    (∀ a ∈ memcpyAccesses pos ptr n, a.Inside size) ↔ ptr + n ≤ size ∧ pos + n ≤ 128 := by
  unfold memcpyAccesses
  rw [List.forall_mem_append, List.forall_mem_map, List.forall_mem_map]
  simp only [List.mem_range, Access.Inside]
  constructor
  · rintro ⟨hread, hwrite⟩
    have hr := hread (n - 1) (by omega)
    have hw := hwrite (n - 1) (by omega)
    omega
  · rintro ⟨hread, hwrite⟩
    exact ⟨fun i hi => by omega, fun i hi => by omega⟩

theorem labelAccesses_inside {pos : ℕ} (h0 : chunk p ≠ 0) :
    (∀ a ∈ labelAccesses chunk pos p, a.Inside size)
      ↔ labelEnd chunk p < size ∧ pos + (labelText chunk p).length ≤ 128 := by
  have hn := toNat_pos h0
  have hend : labelEnd chunk p = p + 1 + (chunk p).toNat := rfl
  unfold labelAccesses labelText
  dsimp only
  rw [List.forall_mem_cons, List.forall_mem_append, List.forall_mem_append,
    memcpyAccesses_inside hn, List.forall_mem_singleton, List.length_append, Bytes.length_load]
  split
  · rw [List.forall_mem_singleton]
    simp only [Access.Inside, List.length_singleton]
    omega
  · rw [and_iff_left (fun a ha => absurd ha List.not_mem_nil)]
    simp only [Access.Inside, List.length_nil]
    omega

/-- **The function stays inside its arrays** exactly where the name lies in the message and
what it spells fits behind what is in the buffer. -/
theorem parseName_inside (h : dnsParseName chunk fuel p buf = some (buf', log))
    (ht : Spells chunk p t) (hbuf : buf.len ≤ 128) :
    (∀ a ∈ log, a.Inside size) ↔ Within chunk size p ∧ buf.len + t.length ≤ 128 := by
  induction fuel generalizing p buf t log with
  | zero => cases h
  | succ fuel ih =>
    by_cases h0 : chunk p = 0
    · rw [dnsParseName_root h0] at h
      cases h
      obtain rfl := (spells_root h0).mp ht
      rw [List.forall_mem_singleton, within_root h0]
      exact (and_iff_left hbuf).symm
    by_cases hptr : isPointer (chunk p)
    · rw [dnsParseName_pointer hptr] at h
      obtain ⟨r, hr, he⟩ := Option.map_eq_some_iff.mp h
      cases he
      rw [List.forall_mem_cons, List.forall_mem_cons, ih hr ((spells_pointer hptr).mp ht) hbuf,
        within_pointer hptr]
      simp only [Access.Inside]
      constructor
      · rintro ⟨-, hp, hin, hfit⟩
        exact ⟨⟨hp, hin⟩, hfit⟩
      · rintro ⟨⟨hp, hin⟩, hfit⟩
        exact ⟨by omega, hp, hin, hfit⟩
    · rw [dnsParseName_label h0 hptr] at h
      obtain ⟨r, hr, he⟩ := Option.map_eq_some_iff.mp h
      cases he
      obtain ⟨t', ht', rfl⟩ := (spells_label h0 hptr).mp ht
      rw [List.forall_mem_append, labelAccesses_inside h0, within_label h0 hptr, List.length_append,
        ← Nat.add_assoc]
      constructor
      · rintro ⟨⟨-, hfit⟩, hlog⟩
        exact (ih hr ht' hfit).mp hlog
      · rintro ⟨hin, hfit⟩
        have hlabel : buf.len + (labelText chunk p).length ≤ 128 := Nat.le_of_add_right_le hfit
        exact ⟨⟨hin.lt, hlabel⟩, (ih hr ht' hlabel).mpr ⟨hin, hfit⟩⟩

end

end Dns
