import LinuxLearn.Acyclic
import LinuxLearn.DnsQuestion

/-!
# Compression pointers

A pointer in a name leads to where the rest of the name is. `dns_parse_name`
follows it wherever it leads, and takes one of its two bytes for the place.

It comes to an end unless a pointer it comes to leads back to itself
(`terminates_iff`). Of a well-formed name it writes the expansion unless a
pointer leads beyond the first 256 bytes, or a label is followed by a pointer
to no more labels, which leaves the dot (`decompresses_iff`).
-/

namespace Dns

open Relation

/-! ## Where a name goes on -/

/-- **A step of the loop**: behind a label, or to where a pointer leads. -/
inductive Leads (chunk : Bytes) : ℕ → ℕ → Prop
  | pointer {p : ℕ} (hptr : isPointer (chunk p)) : Leads chunk p (chunk (p + 1)).toNat
  | label {p : ℕ} (h0 : chunk p ≠ 0) (hptr : ¬ isPointer (chunk p)) :
    Leads chunk p (labelEnd chunk p)

/-- **A pointer that leads back to itself** is come to. -/
def ComesBack (chunk : Bytes) (p : ℕ) : Prop :=
  ∃ q, ReflTransGen (Leads chunk) p q ∧ isPointer (chunk q) ∧ TransGen (Leads chunk) q q

section

variable {chunk : Bytes} {message : List UInt8} {p q : ℕ}

/-- **A name spells something** exactly if the steps from it end. -/
theorem exists_spells_iff : (∃ t, Spells chunk p t) ↔ Terminates (Leads chunk) p := by
  constructor
  · rintro ⟨t, h⟩
    induction h with
    | root h0 =>
      refine Terminates.of_forall (fun q hq => ?_)
      cases hq with
      | pointer hptr => exact absurd (h0 ▸ hptr) not_isPointer_zero
      | label hne => exact absurd h0 hne
    | pointer hptr _ ih =>
      refine Terminates.of_forall (fun q hq => ?_)
      cases hq with
      | pointer => exact ih
      | label _ hnot => exact absurd hptr hnot
    | label _ hnot _ ih =>
      refine Terminates.of_forall (fun q hq => ?_)
      cases hq with
      | pointer hptr => exact absurd hptr hnot
      | label => exact ih
  · intro h
    induction h with
    | intro p _ ih =>
      by_cases h0 : chunk p = 0
      · exact ⟨[], .root h0⟩
      by_cases hptr : isPointer (chunk p)
      · obtain ⟨t, ht⟩ := ih _ (.pointer hptr)
        exact ⟨t, .pointer hptr ht⟩
      · obtain ⟨t, ht⟩ := ih _ (.label h0 hptr)
        exact ⟨_, .label h0 hptr ht⟩

/-- A message that ends leads to finitely many places. -/
theorem finite_reached (message : List UInt8) (p : ℕ) :
    {q | ReflTransGen (Leads (Bytes.ofList message)) p q}.Finite := by
  refine (Set.finite_Iic (max p (message.length + 256))).subset (fun q hq => ?_)
  show q ≤ max p (message.length + 256)
  induction hq with
  | refl => exact le_max_left _ _
  | @tail x y _ hlead _ =>
    refine le_max_of_le_right ?_
    cases hlead with
    | pointer =>
      have hlt := UInt8.toNat_lt (Bytes.ofList message (x + 1))
      exact hlt.le.trans (Nat.le_add_left _ _)
    | label h0 =>
      have hlt := UInt8.toNat_lt (Bytes.ofList message x)
      have hx : x < message.length := by
        by_contra hx
        exact h0 (List.getD_eq_default _ _ (not_lt.mp hx))
      unfold labelEnd
      omega

/-- Without a pointer the steps go on, further and further. -/
theorem lt_or_pointer (h : TransGen (Leads chunk) p q) :
    p < q ∨ ∃ x, ReflTransGen (Leads chunk) p x ∧ isPointer (chunk x)
      ∧ TransGen (Leads chunk) x q := by
  have hone : ∀ {p q}, Leads chunk p q → p < q ∨ isPointer (chunk p) := by
    intro p q h
    cases h with
    | pointer hptr => exact Or.inr hptr
    | label =>
      left
      unfold labelEnd
      omega
  induction h with
  | single h =>
    exact (hone h).imp id (fun hptr => ⟨p, .refl, hptr, .single h⟩)
  | @tail b c hpb hbc ih =>
    rcases ih with hlt | ⟨x, hx, hptr, hxb⟩
    · exact (hone hbc).imp hlt.trans (fun hptr => ⟨b, hpb.to_reflTransGen, hptr, .single hbc⟩)
    · exact Or.inr ⟨x, hx, hptr, hxb.tail hbc⟩

/-- **When a name comes to an end**: unless a pointer in it leads back to itself. -/
theorem terminates_iff (message : List UInt8) (p : ℕ) (buf : NameBuf) :
    (∃ fuel, dnsParseName (Bytes.ofList message) fuel p buf ≠ none)
      ↔ ¬ ComesBack (Bytes.ofList message) p := by
  have hspells : (∃ fuel, dnsParseName (Bytes.ofList message) fuel p buf ≠ none)
      ↔ ∃ t, Spells (Bytes.ofList message) p t := by
    constructor
    · rintro ⟨fuel, h⟩
      obtain ⟨⟨buf', log⟩, hsome⟩ := Option.ne_none_iff_exists'.mp h
      obtain ⟨t, ht, -⟩ := spells_of_parseName hsome
      exact ⟨t, ht⟩
    · rintro ⟨t, ht⟩
      obtain ⟨fuel, h⟩ := parseName_of_spells ht
      obtain ⟨log, hlog⟩ := h fuel le_rfl buf
      exact ⟨fuel, Option.ne_none_iff_exists'.mpr ⟨_, hlog⟩⟩
  rw [hspells, exists_spells_iff, terminates_iff_acyclic (finite_reached message p)]
  constructor
  · rintro h ⟨q, hpq, -, hqq⟩
    exact h q hpq hqq
  · intro h q hpq hqq
    rcases lt_or_pointer hqq with hlt | ⟨x, hqx, hptr, hxq⟩
    · exact lt_irrefl q hlt
    · exact h ⟨x, hpq.trans hqx, hptr, hxq.trans_left hqx⟩

end

/-- **A pointer to itself is followed for ever.** -/
theorem not_terminates : (192 :: List.replicate 1023 (0 : UInt8)).length = 1024
    ∧ ¬ ∃ fuel buf, dnsParseName (Bytes.ofList (192 :: List.replicate 1023 0)) fuel 0 buf ≠ none := by
  have hptr : isPointer (Bytes.ofList (192 :: List.replicate 1023 0) 0) := by decide
  have htarget : (Bytes.ofList (192 :: List.replicate 1023 0) (0 + 1)).toNat = 0 := by rfl
  refine ⟨by rw [List.length_cons, List.length_replicate], ?_⟩
  rintro ⟨fuel, buf, h⟩
  induction fuel with
  | zero => exact h rfl
  | succ fuel ih =>
    rw [dnsParseName_pointer hptr, htarget] at h
    exact h (congrArg (Option.map _) (not_not.mp ih))

/-! ## Well-formed names -/

/-- The offset in a compression pointer: all of its bits but the first two. -/
def pointerOffset (msg : Bytes) (p : ℕ) : ℕ := (msg p).toNat % 64 * 256 + (msg (p + 1)).toNat

/-- **A compressed name**, from an offset up to another: labels of 1 to 63 bytes, and a zero
byte or a pointer to a smaller offset, where the rest of the name is. -/
inductive Name (msg : Bytes) : ℕ → ℕ → List (List UInt8) → Prop
  | root {p : ℕ} (h0 : msg p = 0) : Name msg p (p + 1) []
  | label {p e : ℕ} {labels : List (List UInt8)} (hpos : 1 ≤ (msg p).toNat) (hle : (msg p).toNat ≤ 63)
    (h : Name msg (labelEnd msg p) e labels) :
    Name msg p e (msg.load (p + 1) (msg p).toNat :: labels)
  | pointer {p e : ℕ} {labels : List (List UInt8)} (hptr : isPointer (msg p))
    (hback : pointerOffset msg p < p) (h : Name msg (pointerOffset msg p) e labels) :
    Name msg p (p + 2) labels

/-- **What `dns_parse_name` should make of a name**: its labels with dots between them. -/
def Decompresses (msg : Bytes) (p : ℕ) (labels : List (List UInt8)) : Prop :=
  ∃ fuel, ∀ out, ∃ log, dnsParseName msg fuel p ⟨out, 0⟩
    = some (⟨out.store 0 (dotted labels), (dotted labels).length⟩, log)

/-- **A name that can be read with one byte of a pointer**: no label is followed by a pointer
to no more labels, and a pointer that needs its other byte leads to what can stand for the
rest of the name. -/
inductive OneByte (msg : Bytes) : ℕ → List (List UInt8) → Prop
  | root {p : ℕ} (h0 : msg p = 0) : OneByte msg p []
  | label {p : ℕ} {l : List UInt8} {labels : List (List UInt8)} (h0 : msg p ≠ 0)
    (hptr : ¬ isPointer (msg p)) (hdot : msg (labelEnd msg p) ≠ 0 → labels ≠ [])
    (h : OneByte msg (labelEnd msg p) labels) : OneByte msg p (l :: labels)
  | near {p : ℕ} {labels : List (List UInt8)} (hptr : isPointer (msg p))
    (hnear : pointerOffset msg p < 256) (h : OneByte msg (pointerOffset msg p) labels) :
    OneByte msg p labels
  | far {p : ℕ} {labels : List (List UInt8)} (hptr : isPointer (msg p))
    (hfar : 256 ≤ pointerOffset msg p)
    (h : Spells msg (pointerOffset msg p % 256) (dotted labels)) : OneByte msg p labels

section

variable {msg : Bytes} {p e : ℕ} {labels : List (List UInt8)}

theorem pointerOffset_mod (msg : Bytes) (p : ℕ) :
    pointerOffset msg p % 256 = (msg (p + 1)).toNat := by
  have hlt := UInt8.toNat_lt (msg (p + 1))
  unfold pointerOffset
  omega

/-- Nothing is behind a zero byte. -/
theorem Name.of_zero (h : Name msg p e labels) (h0 : msg p = 0) : labels = [] := by
  cases h with
  | root => rfl
  | label hpos => exact absurd h0 (ne_zero_of_pos hpos)
  | pointer hptr => exact absurd (h0 ▸ hptr) not_isPointer_zero

/-- **What is read of a name is its expansion** where one byte of a pointer will do. -/
theorem Name.spells_iff (h : Name msg p e labels) :
    Spells msg p (dotted labels) ↔ OneByte msg p labels := by
  induction h with
  | root h0 => exact iff_of_true (.root h0) (.root h0)
  | @label p e labels hpos hle hrest ih =>
    have h0 := ne_zero_of_pos hpos
    have hptr := not_isPointer_of_le hle
    rw [spells_label h0 hptr]
    have hinv : OneByte msg p (msg.load (p + 1) (msg p).toNat :: labels)
        ↔ (msg (labelEnd msg p) ≠ 0 → labels ≠ []) ∧ OneByte msg (labelEnd msg p) labels := by
      constructor
      · intro h
        cases h with
        | label _ _ hdot h => exact ⟨hdot, h⟩
        | near h => exact absurd h hptr
        | far h => exact absurd h hptr
      · exact fun h => .label h0 hptr h.1 h.2
    rw [hinv, ← ih]
    by_cases hend : msg (labelEnd msg p) = 0
    · -- the last label, without a dot
      obtain rfl := hrest.of_zero hend
      rw [labelText_last hend, dotted_singleton]
      exact iff_of_true ⟨[], .root hend, (List.append_nil _).symm⟩
        ⟨fun h => absurd hend h, .root hend⟩
    · constructor
      · rintro ⟨t, ht, he⟩
        obtain ⟨hne, rfl⟩ := (dotted_eq_labelText_iff hend).mp he
        exact ⟨fun _ => hne, ht⟩
      · rintro ⟨hdot, ht⟩
        exact ⟨_, ht, (dotted_eq_labelText_iff hend).mpr ⟨hdot hend, rfl⟩⟩
  | @pointer p e labels hptr hback hrest ih =>
    rw [spells_pointer hptr, ← pointerOffset_mod]
    constructor
    · intro h
      by_cases hnear : pointerOffset msg p < 256
      · rw [Nat.mod_eq_of_lt hnear] at h
        exact .near hptr hnear (ih.mp h)
      · exact .far hptr (not_lt.mp hnear) h
    · intro h
      cases h with
      | root h0 => exact absurd (h0 ▸ hptr) not_isPointer_zero
      | label _ hnot => exact absurd hptr hnot
      | near _ hnear h =>
        rw [Nat.mod_eq_of_lt hnear]
        exact ih.mpr h
      | far _ _ h => exact h

/-- It is decompressed exactly if that is what it spells. -/
theorem decompresses_iff_spells : Decompresses msg p labels ↔ Spells msg p (dotted labels) := by
  constructor
  · rintro ⟨fuel, h⟩
    obtain ⟨log, hlog⟩ := h (fun _ => 0)
    obtain ⟨t, ht, hbuf⟩ := spells_of_parseName hlog
    have hout : Bytes.store (fun _ => 0) 0 (dotted labels) = Bytes.store (fun _ => 0) 0 t :=
      congrArg NameBuf.out hbuf
    have hlen : (dotted labels).length = t.length :=
      (congrArg NameBuf.len hbuf).trans (Nat.zero_add _)
    have heq : dotted labels = t := by
      have hload : (Bytes.store (fun _ => 0) 0 (dotted labels)).load 0 (dotted labels).length
        = dotted labels := Bytes.load_store
      rw [hout, hlen, Bytes.load_store] at hload
      exact hload.symm
    rwa [heq]
  · intro h
    obtain ⟨fuel, hfuel⟩ := parseName_of_spells h
    refine ⟨fuel, fun out => ?_⟩
    obtain ⟨log, hlog⟩ := hfuel fuel le_rfl ⟨out, 0⟩
    unfold NameBuf.put at hlog
    rw [Nat.zero_add] at hlog
    exact ⟨log, hlog⟩

/-- **When a name is decompressed.** -/
theorem decompresses_iff (h : Name msg p e labels) :
    Decompresses msg p labels ↔ OneByte msg p labels :=
  decompresses_iff_spells.trans h.spells_iff

end

/-- A name that is a pointer to another is read. -/
theorem decompresses_iff_sample : Decompresses (Bytes.ofList [1, 97, 0, 192, 0]) 3 [[97]] := by
  have hptr : isPointer (Bytes.ofList [1, 97, 0, 192, 0] 3) := by decide
  have hroot : Bytes.ofList [1, 97, 0, 192, 0] (labelEnd (Bytes.ofList [1, 97, 0, 192, 0]) 0)
      = 0 := by decide
  have hname : Name (Bytes.ofList [1, 97, 0, 192, 0]) 3 5 [[97]] :=
    .pointer hptr (by decide) (.label (p := 0) (by decide) (by decide) (.root hroot))
  have hnear : OneByte (Bytes.ofList [1, 97, 0, 192, 0]) 3 [[97]] :=
    .near hptr (by decide)
      (.label (p := 0) (by decide) (by decide) (fun h => absurd hroot h) (.root hroot))
  exact (decompresses_iff hname).mpr hnear

/-- A name behind the first 256 bytes, and one that is a pointer to it. -/
def farMessage : List UInt8 := List.replicate 256 0 ++ [1, 97, 0, 193, 0]

/-- **Of a pointer beyond the first 256 bytes one is read among them.** -/
theorem not_decompresses : Name (Bytes.ofList farMessage) 259 261 [[97]]
    ∧ ¬ Decompresses (Bytes.ofList farMessage) 259 [[97]] := by
  have hptr : isPointer (Bytes.ofList farMessage 259) := by decide +kernel
  have hoffset : pointerOffset (Bytes.ofList farMessage) 259 = 256 := by decide +kernel
  have hlength : (Bytes.ofList farMessage 256).toNat = 1 := by decide +kernel
  have hlabel : (Bytes.ofList farMessage).load (256 + 1) 1 = [97] := by decide +kernel
  have hend : labelEnd (Bytes.ofList farMessage) 256 = 258 := by decide +kernel
  constructor
  · have hname : Name (Bytes.ofList farMessage) 256 259 [[97]] := by
      have hlast : Name (Bytes.ofList farMessage) (labelEnd (Bytes.ofList farMessage) 256) 259 [] := by
        rw [hend]
        exact .root (by decide +kernel)
      have hone := Name.label (by rw [hlength]) (by rw [hlength]; decide) hlast
      rwa [hlength, hlabel] at hone
    exact .pointer hptr (hoffset.trans_lt (by decide)) (hoffset ▸ hname)
  · rw [decompresses_iff_spells, spells_pointer hptr, ← pointerOffset_mod, hoffset]
    intro h
    exact absurd ((spells_root (by decide +kernel)).mp h) (by decide)

end Dns
