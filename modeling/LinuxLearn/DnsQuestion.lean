import LinuxLearn.Dns
import LinuxLearn.Strtok

/-!
# The name in a question

`dns_create_question` cuts a hostname at its dots and writes each piece behind
its length. What ends the name is the NUL that `strncpy` copies with the last
piece; those it copies with the others are overwritten by a length.

`wire` is what labels look like in a message. It is what is written, whatever
was in the memory (`questionFrom_wire`), and it spells the labels with dots
between them (`spells_wire`); so the hostname comes back (`round_trip`).
-/

namespace Dns

/-- Labels with dots between them. -/
def dotted (labels : List (List UInt8)) : List UInt8 := [46].intercalate labels

/-- **A name in a message**, without pointers: each label behind its length, and a zero
byte. -/
def wire : List (List UInt8) → List UInt8
  | [] => [0]
  | l :: labels => UInt8.ofNat l.length :: l ++ wire labels

/-- **`struct dns_question`**; a name that is `none` is null. -/
structure Question where
  length : ℤ
  name : Option Bytes
  qtype : UInt16
  qclass : UInt16

/-- `htons`. -/
def htons (x : UInt16) : UInt16 := x <<< 8 ||| x >>> 8

/-- The loop of `dns_create_question`, with the token at hand, the position `strtok` goes
on from and what is in the name so far. -/
def questionLoop : ℕ → Option ℕ → List UInt8 → ℕ → Bytes → ℕ → Option Bytes
  | _, none, _, _, name, _ => some name
  | 0, some _, _, _, _, _ => none
  | fuel + 1, some token, dup, s, name, qname => do
    let token ← stringAt dup token
    let len := token.strlen
    let name := name.store qname [UInt8.ofNat len]
    -- `strncpy` copies the NUL, too
    let name := name.store (qname + 1) (token.bytes ++ [0])
    let (token, dup, s) ← strtok [46] dup s
    questionLoop fuel token dup s name (qname + 1 + len)

/-- **`dns_create_question`**: what it returns and leaves in the question. The name is put
where `malloc` finds memory; that `strdup` does is not checked. -/
def dnsCreateQuestion (malloc : Option Bytes) (strdup : Bool) :
    Option Question → Option CString → Option (ℤ × Option Question)
  | none, _ => some (-1, none)
  | some question, none => some (-1, some question)
  | some _, some hostname =>
    let length : ℤ := hostname.strlen + 2
    match malloc with
    | none => some (-2, some ⟨length, none, 0, 0⟩)
    | some name =>
      if strdup then do
        let dup := hostname.bytes ++ [0]
        let (token, dup, s) ← strtok [46] dup 0
        let name ← questionLoop (hostname.strlen + 1) token dup s name 0
        return (0, some ⟨length, some name, htons 1, htons 1⟩)
      else none

/-- **A hostname**: labels of 1 to 63 bytes with dots between them. -/
structure IsHostname (s : CString) : Prop where
  labels : ∀ l ∈ s.bytes.splitOn 46, 1 ≤ l.length ∧ l.length ≤ 63
  short : s.strlen ≤ 127

section

variable {l : List UInt8} {labels : List (List UInt8)} {name : Bytes} {p q : ℕ}

theorem dotted_cons (h : labels ≠ []) : dotted (l :: labels) = l ++ 46 :: dotted labels := by
  unfold dotted
  rw [List.intercalate_cons_of_ne_nil h, List.append_assoc]
  rfl

theorem dotted_singleton (l : List UInt8) : dotted [l] = l := List.intercalate_singleton

theorem length_wire (labels : List (List UInt8)) (h : labels ≠ []) :
    (wire labels).length = (dotted labels).length + 2 := by
  induction labels with
  | nil => exact absurd rfl h
  | cons l labels ih =>
    by_cases hne : labels = []
    · subst hne
      rw [dotted_singleton]
      simp [wire]
    · rw [dotted_cons hne, wire, List.length_append, ih hne, List.length_append]
      simp only [List.length_cons]
      omega

theorem length_lt_wire (labels : List (List UInt8)) : labels.length < (wire labels).length := by
  induction labels with
  | nil => exact Nat.one_pos
  | cons l labels ih =>
    rw [wire, List.length_append]
    simp only [List.length_cons]
    omega

/-! ## Writing -/

/-- `strtok` from a position, and then the loop. -/
def questionFrom (fuel : ℕ) (dup : List UInt8) (s : ℕ) (name : Bytes) (qname : ℕ) : Option Bytes := do
  let (token, dup, s) ← strtok [46] dup s
  questionLoop fuel token dup s name qname

/-- The labels as bytes of a token. -/
def IsLabel (l : List UInt8) : Prop := l ≠ [] ∧ IsToken [46] l

theorem questionLoop_none (fuel : ℕ) (dup : List UInt8) (s : ℕ) :
    questionLoop fuel none dup s name q = some name := by
  cases fuel <;> rfl

/-- A call that finds a token: its length and its bytes are written. -/
theorem questionFrom_token {t mem pre : List UInt8} {d : UInt8} (hl : IsLabel t)
    (hd : d = 0 ∨ d ∈ [(46 : UInt8)]) (fuel : ℕ) :
    questionFrom (fuel + 1) (pre ++ (t ++ d :: mem)) pre.length name q
      = questionFrom fuel (pre ++ (t ++ 0 :: mem))
        (pre.length + t.length + if d = 0 then 0 else 1)
        ((name.store q [UInt8.ofNat t.length]).store (q + 1) (t ++ [0])) (q + 1 + t.length) := by
  have htok := strtok_token IsGap.nil hl.1 hl.2 hd pre mem
  have hstring := stringAt_token hl.2 pre [] mem
  have hbytes : (CString.ofBytes t).bytes = t := takeWhile_ne_zero_self hl.2.ne_zero
  rw [List.nil_append, List.nil_append, List.length_nil, Nat.add_zero] at htok
  rw [List.nil_append, List.length_nil, Nat.add_zero] at hstring
  unfold questionFrom
  rw [htok]
  simp only [Option.bind_eq_bind, Option.bind_some]
  rw [questionLoop, hstring]
  simp only [Option.bind_eq_bind, Option.bind_some, strlen_ofBytes hl.2, hbytes]

/-- The NUL that was copied is overwritten. -/
theorem store_wire (labels : List (List UInt8)) :
    ((name.store q [UInt8.ofNat l.length]).store (q + 1) (l ++ [0])).store (q + 1 + l.length)
        (wire labels)
      = name.store q (wire (l :: labels)) := by
  have hpos : [(0 : UInt8)].length ≤ (wire labels).length := by
    cases labels with
    | nil => exact le_rfl
    | cons l' labels => simp [wire]
  rw [Bytes.store_append l [0], Bytes.store_store hpos]
  show _ = name.store q ([UInt8.ofNat l.length] ++ (l ++ wire labels))
  rw [Bytes.store_append, Bytes.store_append, List.length_singleton]

/-- **The loop writes the wire form** of the labels that are left. -/
theorem questionFrom_wire (hlabels : ∀ l ∈ labels, IsLabel l) (hne : labels ≠ [])
    (fuel : ℕ) (hfuel : labels.length ≤ fuel) (pre mem : List UInt8) (name : Bytes) (q : ℕ) :
    questionFrom fuel (pre ++ (dotted labels ++ 0 :: mem)) pre.length name q
      = some (name.store q (wire labels)) := by
  induction labels generalizing fuel pre name q with
  | nil => exact absurd rfl hne
  | cons l labels ih =>
    obtain ⟨fuel, rfl⟩ := Nat.exists_eq_add_of_le' (le_trans (Nat.le_add_left 1 _) hfuel)
    obtain ⟨hl, hrest⟩ := List.forall_mem_cons.mp hlabels
    by_cases hlast : labels = []
    · subst hlast
      have h46 : (0 : UInt8) ∉ [(46 : UInt8)] := by decide
      have hdone := strtok_done h46 IsGap.nil (pre ++ l) mem
      rw [List.nil_append, List.append_assoc, List.length_append, List.length_nil] at hdone
      rw [dotted_singleton, questionFrom_token hl (Or.inl rfl), if_pos rfl, Nat.add_zero]
      unfold questionFrom
      rw [hdone]
      simp only [Option.bind_eq_bind, Option.bind_some]
      rw [questionLoop_none]
      show _ = some (name.store q ([UInt8.ofNat l.length] ++ (l ++ [0])))
      rw [Bytes.store_append [UInt8.ofNat l.length], List.length_singleton]
    · have hd0 : (46 : UInt8) ≠ 0 := by decide
      have hmem := ih hrest hlast fuel (Nat.le_of_succ_le_succ hfuel) (pre ++ (l ++ [0]))
        ((name.store q [UInt8.ofNat l.length]).store (q + 1) (l ++ [0])) (q + 1 + l.length)
      rw [store_wire] at hmem
      rw [dotted_cons hlast, List.append_assoc, List.cons_append,
        questionFrom_token hl (Or.inr List.mem_cons_self), if_neg hd0, ← hmem]
      simp only [List.append_assoc, List.length_append, List.length_singleton, List.cons_append,
        List.nil_append, Nat.add_assoc]

/-! ## Reading it back -/

/-- **The first label of a wire form**: its length is no zero byte and no pointer, and the
other labels are behind it. -/
theorem wire_cons_at {chunk : Bytes} (hl : 1 ≤ l.length ∧ l.length ≤ 63)
    (h : chunk.load p (wire (l :: labels)).length = wire (l :: labels)) :
    ((chunk p).toNat = l.length ∧ chunk p ≠ 0 ∧ ¬ isPointer (chunk p))
      ∧ chunk.load (p + 1) l.length = l ∧ labelEnd chunk p = p + (l.length + 1)
      ∧ chunk.load (labelEnd chunk p) (wire labels).length = wire labels := by
  rw [wire, List.length_append, List.length_cons, Bytes.load_add, Bytes.load_succ] at h
  obtain ⟨hhead, hwire⟩ := List.append_inj h (by rw [List.length_cons, Bytes.length_load]; rfl)
  obtain ⟨hflag, hlabel⟩ := List.cons.inj hhead
  have hlen : (chunk p).toNat = l.length := by
    rw [hflag, UInt8.toNat_ofNat']
    omega
  have hend : labelEnd chunk p = p + (l.length + 1) := by
    unfold labelEnd
    rw [hlen]
    omega
  exact ⟨⟨hlen, ne_zero_of_pos (hlen ▸ hl.1), not_isPointer_of_le (hlen ▸ hl.2)⟩, hlabel, hend,
    hend ▸ hwire⟩

/-- The last label is written as it is. -/
theorem labelText_last {chunk : Bytes} (hend : chunk (labelEnd chunk p) = 0) :
    labelText chunk p = chunk.load (p + 1) (chunk p).toNat := by
  unfold labelText
  rw [if_neg (not_not.mpr hend), List.append_nil]

/-- Another label is written with a dot, and one with a dot is not the last. -/
theorem dotted_eq_labelText_iff {chunk : Bytes} {t : List UInt8}
    (hend : chunk (labelEnd chunk p) ≠ 0) :
    dotted (chunk.load (p + 1) (chunk p).toNat :: labels) = labelText chunk p ++ t
      ↔ labels ≠ [] ∧ t = dotted labels := by
  unfold labelText
  rw [if_pos hend, List.append_assoc]
  by_cases hlast : labels = []
  · subst hlast
    rw [dotted_singleton]
    refine iff_of_false (fun he => ?_) (fun h => h.1 rfl)
    have hlen := congrArg List.length he
    simp at hlen
  · rw [dotted_cons hlast, and_iff_right hlast, List.append_cancel_left_eq]
    exact ⟨fun he => (List.cons.inj he).2.symm, fun he => he ▸ rfl⟩

/-- **The wire form spells the labels**, with dots between them, and lies where it is. -/
theorem spells_wire {chunk : Bytes} {size : ℕ} (hlabels : ∀ l ∈ labels, 1 ≤ l.length ∧ l.length ≤ 63)
    (h : chunk.load p (wire labels).length = wire labels) (hsize : p + (wire labels).length ≤ size) :
    Spells chunk p (dotted labels) ∧ Within chunk size p := by
  induction labels generalizing p with
  | nil =>
    have h0 : chunk p = 0 := (List.cons.inj (Bytes.load_succ.symm.trans h)).1
    exact ⟨.root h0, .root h0 hsize⟩
  | cons l labels ih =>
    obtain ⟨hl, hrest⟩ := List.forall_mem_cons.mp hlabels
    obtain ⟨⟨hlen, h0, hptr⟩, hlabel, hend, hwire⟩ := wire_cons_at hl h
    obtain ⟨hspells, hwithin⟩ := ih hrest hwire (by
      simp only [wire, List.length_append, List.length_cons] at hsize
      omega)
    refine ⟨?_, .label h0 hptr hwithin⟩
    have htext := Spells.label h0 hptr hspells
    by_cases hlast : labels = []
    · subst hlast
      have hzero : chunk (labelEnd chunk p) = 0 :=
        (List.cons.inj (Bytes.load_succ.symm.trans hwire)).1
      rw [labelText_last hzero, hlen, hlabel] at htext
      rw [dotted_singleton]
      rwa [show dotted [] = [] from rfl, List.append_nil] at htext
    · obtain ⟨l', labels, rfl⟩ := List.exists_cons_of_ne_nil hlast
      have hnext : chunk (labelEnd chunk p) ≠ 0 :=
        (wire_cons_at (hrest l' List.mem_cons_self) hwire).1.2.1
      have hdotted := (dotted_eq_labelText_iff hnext).mpr ⟨hlast, rfl⟩
      rw [hlen, hlabel] at hdotted
      rwa [hdotted]

end

/-- A piece is a part of the whole, without separators. -/
theorem of_mem_splitOn {a b : UInt8} {xs l : List UInt8} (h : l ∈ xs.splitOn a) (hb : b ∈ l) :
    b ∈ xs ∧ b ≠ a := by
  induction xs generalizing l with
  | nil =>
    obtain rfl := List.mem_singleton.mp h
    exact absurd hb List.not_mem_nil
  | cons x xs ih =>
    have hlater : ∀ l' ∈ xs.splitOn a, b ∈ l' → b ∈ x :: xs ∧ b ≠ a := fun l' hl' hb' =>
      ⟨List.mem_cons_of_mem x (ih hl' hb').1, (ih hl' hb').2⟩
    rw [List.splitOn_cons_eq_if_modifyHead] at h
    split at h
    · rcases List.mem_cons.mp h with rfl | h
      · exact absurd hb List.not_mem_nil
      · exact hlater l h hb
    · next hx =>
      obtain ⟨piece, pieces, hpieces⟩ := List.exists_cons_of_ne_nil (List.splitOn_ne_nil a xs)
      rw [hpieces] at h hlater
      rcases List.mem_cons.mp h with rfl | h
      · rcases List.mem_cons.mp hb with rfl | hb
        · exact ⟨List.mem_cons_self, fun hba => hx (hba ▸ beq_self_eq_true _)⟩
        · exact hlater piece List.mem_cons_self hb
      · exact hlater l (List.mem_cons_of_mem piece h) hb

/-- **A hostname comes back**: it is written behind its lengths, every byte of the memory
for it, and read from there it is what it was. -/
theorem round_trip {hostname : CString} (hhost : IsHostname hostname) (question : Question) :
    ∃ name, name.length = hostname.strlen + 2
      ∧ ∀ garbage, dnsCreateQuestion (some garbage) true (some question) (some hostname)
          = some (0, some ⟨hostname.strlen + 2, some (garbage.store 0 name), htons 1, htons 1⟩)
        ∧ ∃ fuel log, dnsParseName (garbage.store 0 name) fuel 0 ⟨fun _ => 0, 0⟩
            = some (⟨Bytes.ofList hostname.bytes, hostname.strlen⟩, log)
          ∧ ∀ a ∈ log, a.Inside name.length := by
  have hne : hostname.bytes.splitOn 46 ≠ [] := List.splitOn_ne_nil 46 _
  have hdotted : dotted (hostname.bytes.splitOn 46) = hostname.bytes :=
    List.intercalate_splitOn 46
  have hlabel : ∀ l ∈ hostname.bytes.splitOn 46, IsLabel l := by
    intro l hl
    refine ⟨List.ne_nil_of_length_pos (hhost.labels l hl).1, fun b hb => ⟨?_, ?_⟩⟩
    · exact fun h0 => hostname.nul_free (h0 ▸ (of_mem_splitOn hl hb).1)
    · exact fun h46 => (of_mem_splitOn hl hb).2 (List.mem_singleton.mp h46)
  have hlength : (wire (hostname.bytes.splitOn 46)).length = hostname.strlen + 2 := by
    rw [length_wire _ hne, hdotted]
    rfl
  refine ⟨wire (hostname.bytes.splitOn 46), hlength, fun garbage => ⟨?_, ?_⟩⟩
  · have hrounds : (hostname.bytes.splitOn 46).length ≤ hostname.strlen + 1 := by
      have hlt := length_lt_wire (hostname.bytes.splitOn 46)
      omega
    have hwrite := questionFrom_wire hlabel hne (hostname.strlen + 1) hrounds [] [] garbage 0
    rw [hdotted, List.nil_append, List.length_nil] at hwrite
    unfold dnsCreateQuestion
    dsimp only
    rw [if_pos rfl]
    obtain ⟨⟨token, dup, s⟩, htok, hloop⟩ := Option.bind_eq_some_iff.mp hwrite
    rw [htok]
    exact congrArg (fun o : Option Bytes => o.bind _) hloop
  · have hload : (garbage.store 0 (wire (hostname.bytes.splitOn 46))).load 0
        (wire (hostname.bytes.splitOn 46)).length = wire (hostname.bytes.splitOn 46) :=
      Bytes.load_store
    obtain ⟨hspells, hwithin⟩ := spells_wire hhost.labels hload (Nat.zero_add _).le
    rw [hdotted] at hspells
    obtain ⟨fuel, hfuel⟩ := parseName_of_spells hspells
    obtain ⟨log, hlog⟩ := hfuel fuel le_rfl ⟨fun _ => 0, 0⟩
    have hin := (parseName_inside hlog hspells (Nat.zero_le _)).mpr
      ⟨hwithin, (Nat.zero_add _).le.trans (hhost.short.trans (by decide))⟩
    unfold NameBuf.put at hlog
    rw [Bytes.store_zero, Nat.zero_add] at hlog
    exact ⟨fuel, log, hlog, hin⟩

/-- `a.bc` comes back. -/
theorem round_trip_sample :
    ∃ name : List UInt8, name.length = 6
      ∧ ∀ garbage, dnsCreateQuestion (some garbage) true (some ⟨0, none, 0, 0⟩)
            (some ⟨[97, 46, 98, 99], by decide⟩)
          = some (0, some ⟨6, some (garbage.store 0 name), htons 1, htons 1⟩)
        ∧ ∃ fuel log, dnsParseName (garbage.store 0 name) fuel 0 ⟨fun _ => 0, 0⟩
            = some (⟨Bytes.ofList ([97, 46, 98, 99]), 4⟩, log)
          ∧ ∀ a ∈ log, a.Inside name.length :=
  round_trip (⟨by decide, by decide⟩ : IsHostname ⟨[97, 46, 98, 99], by decide⟩) ⟨0, none, 0, 0⟩

end Dns
