import LinuxLearn.Heap
import LinuxLearn.KvsString
import Mathlib.Data.List.TakeWhile

/-!
# `strtok`

A parser built on `strtok` works in the caller's buffer: a call skips
separators, returns a pointer to the first byte of a token, overwrites
the separator after it with a NUL and keeps the position behind for the
next call. Nothing tells it where the buffer ends; it runs until it meets
a NUL.

Memory is the list of bytes from the start of the buffer on, as far as
memory is mapped, and a pointer into it is a position. Reading a position
past the end has no result.

What a sequence of calls amounts to does not mention positions: the
`tokensOf` a memory are the maximal runs of other bytes than separators
before its first NUL. `tokenEnds` counts the tokens that are over before
memory is: with a NUL in memory these are all of them, and without one
the last run has no end.

Every memory has one of four forms seen from the position of a call,
`Scan`, and each function of this module has one equation for each.
-/

/-- The C string at the start of memory: its bytes before the first NUL. -/
def CString.ofBytes (mem : List UInt8) : CString :=
  ⟨mem.takeWhile (fun b => b ≠ 0), fun h => by simpa using List.mem_takeWhile_imp h⟩

/-- The C string a pointer points to, if it is terminated. -/
def stringAt (mem : List UInt8) (p : ℕ) : Option CString :=
  if (0 : UInt8) ∈ mem.drop p then some (CString.ofBytes (mem.drop p)) else none

/-- `strspn`: the length of the initial run of separators. -/
def strspn (delim : List UInt8) : List UInt8 → Option ℕ
  | [] => none
  | b :: mem => if b ∈ delim then (strspn delim mem).map (fun n => n + 1) else some 0

/-- `strcspn`: the length of the initial run of other bytes, up to a NUL. -/
def strcspn (delim : List UInt8) : List UInt8 → Option ℕ
  | [] => none
  | b :: mem =>
    if b = 0 ∨ b ∈ delim then some 0 else (strcspn delim mem).map (fun n => n + 1)

/-- **`strtok`** from position `s`: the position of the next token, memory
with the token terminated, and the position the next call starts from. -/
def strtok (delim mem : List UInt8) (s : ℕ) : Option (Option ℕ × List UInt8 × ℕ) := do
  let n ← strspn delim (mem.drop s)
  let b ← mem[s + n]?
  if b = 0 then
    return (none, mem, s + n)
  else
    let len ← strcspn delim (mem.drop (s + n))
    let b ← mem[s + n + len]?
    if b = 0 then
      return (some (s + n), mem, s + n + len)
    else
      return (some (s + n), mem.set (s + n + len) 0, s + n + len + 1)

/-- **The tokens of a memory**: the maximal runs of other bytes than
separators before the first NUL. -/
def tokensOf (delim mem : List UInt8) : List CString :=
  (((mem.takeWhile (fun b => b ≠ 0)).splitOnP (fun b => decide (b ∈ delim))).filter
    (fun t => t ≠ [])).map CString.ofBytes

/-- **The number of tokens that end in memory**: of the bytes before the first
NUL that are no separator and are followed by a separator or the NUL. -/
def tokenEnds (delim : List UInt8) : List UInt8 → ℕ
  | [] => 0
  | [_] => 0
  | a :: b :: mem =>
    if a = 0 then 0
    else (if a ∉ delim ∧ (b = 0 ∨ b ∈ delim) then 1 else 0) + tokenEnds delim (b :: mem)

/-- Bytes of a token. -/
def IsToken (delim t : List UInt8) : Prop := ∀ b ∈ t, b ≠ 0 ∧ b ∉ delim

/-- Bytes that are skipped. -/
def IsGap (delim g : List UInt8) : Prop := ∀ b ∈ g, b ∈ delim

/-- **The four forms of memory** from where a call starts: no token is left,
the last token, a token and a separator, or no end. -/
inductive Scan (delim : List UInt8) : List UInt8 → Prop
  | done {g mem : List UInt8} (hg : IsGap delim g) : Scan delim (g ++ 0 :: mem)
  | last {g t mem : List UInt8} (hg : IsGap delim g) (hne : t ≠ []) (ht : IsToken delim t) :
    Scan delim (g ++ (t ++ 0 :: mem))
  | next {g t mem : List UInt8} {d : UInt8} (hg : IsGap delim g) (hne : t ≠ [])
    (ht : IsToken delim t) (hd : d ∈ delim) : Scan delim (g ++ (t ++ d :: mem))
  | cut {g t : List UInt8} (hg : IsGap delim g) (ht : IsToken delim t) : Scan delim (g ++ t)

section

variable {delim g t mem pre : List UInt8} {d : UInt8}

theorem IsGap.cons {b : UInt8} (hb : b ∈ delim) (hg : IsGap delim g) : IsGap delim (b :: g) :=
  List.forall_mem_cons.mpr ⟨hb, hg⟩

theorem IsGap.nil : IsGap delim [] := fun _ h => absurd h List.not_mem_nil

theorem IsToken.cons {b : UInt8} (h0 : b ≠ 0) (hb : b ∉ delim) (ht : IsToken delim t) :
    IsToken delim (b :: t) :=
  List.forall_mem_cons.mpr ⟨⟨h0, hb⟩, ht⟩

theorem IsToken.nil : IsToken delim [] := fun _ h => absurd h List.not_mem_nil

/-- A separator in front is skipped. -/
theorem Scan.cons_sep {b : UInt8} (hb : b ∈ delim) (h : Scan delim mem) : Scan delim (b :: mem) := by
  cases h with
  | done hg => exact .done (hg.cons hb)
  | last hg hne ht => exact .last (hg.cons hb) hne ht
  | next hg hne ht hd => exact .next (hg.cons hb) hne ht hd
  | cut hg ht => exact .cut (hg.cons hb) ht

/-- A byte in front that is no separator starts a token, or extends one. -/
theorem Scan.cons_byte {b : UInt8} (h0 : b ≠ 0) (hb : b ∉ delim) (h : Scan delim mem) :
    Scan delim (b :: mem) := by
  have hone : IsToken delim [b] := IsToken.nil.cons h0 hb
  -- a gap in front of what follows ends the token the byte is on its own
  have hgap : ∀ {d : UInt8} {g m : List UInt8}, IsGap delim (d :: g) →
      Scan delim (b :: (d :: g ++ m)) := fun hg =>
    .next (t := [b]) .nil (List.cons_ne_nil b []) hone (hg _ List.mem_cons_self)
  cases h with
  | @done g m hg =>
    cases g with
    | nil => exact .last (t := [b]) .nil (List.cons_ne_nil b []) hone
    | cons d g => exact hgap hg
  | @last g t m hg hne ht =>
    cases g with
    | nil => exact .last (t := b :: t) .nil (List.cons_ne_nil b t) (ht.cons h0 hb)
    | cons d g => exact hgap hg
  | @next g t m d hg hne ht hd =>
    cases g with
    | nil => exact .next (t := b :: t) .nil (List.cons_ne_nil b t) (ht.cons h0 hb) hd
    | cons d g => exact hgap hg
  | @cut g t hg ht =>
    cases g with
    | nil => exact .cut (t := b :: t) .nil (ht.cons h0 hb)
    | cons d g => exact hgap hg

/-- **Every memory has one of the forms.** -/
theorem scan (delim mem : List UInt8) : Scan delim mem := by
  induction mem with
  | nil => exact .cut .nil .nil
  | cons b mem ih =>
    by_cases h0 : b = 0
    · subst h0
      exact .done .nil
    · by_cases hb : b ∈ delim
      · exact ih.cons_sep hb
      · exact ih.cons_byte h0 hb

/-! ## One call -/

theorem strspn_gap (hg : IsGap delim g) (mem : List UInt8) :
    strspn delim (g ++ mem) = (strspn delim mem).map (fun n => g.length + n) := by
  induction g with
  | nil =>
    show strspn delim mem = _
    cases strspn delim mem <;> simp
  | cons b g ih =>
    obtain ⟨hb, hg⟩ := List.forall_mem_cons.mp hg
    show (if b ∈ delim then (strspn delim (g ++ mem)).map (fun n => n + 1) else some 0) = _
    rw [if_pos hb, ih hg, Option.map_map]
    congr 1
    funext n
    show g.length + n + 1 = g.length + 1 + n
    omega

theorem strcspn_token (ht : IsToken delim t) (mem : List UInt8) :
    strcspn delim (t ++ mem) = (strcspn delim mem).map (fun n => t.length + n) := by
  induction t with
  | nil =>
    show strcspn delim mem = _
    cases strcspn delim mem <;> simp
  | cons b t ih =>
    obtain ⟨⟨h0, hb⟩, ht⟩ := List.forall_mem_cons.mp ht
    show (if b = 0 ∨ b ∈ delim then some 0
      else (strcspn delim (t ++ mem)).map (fun n => n + 1)) = _
    rw [if_neg (not_or.mpr ⟨h0, hb⟩), ih ht, Option.map_map]
    congr 1
    funext n
    show t.length + n + 1 = t.length + 1 + n
    omega

theorem getElem?_length_append (pre : List UInt8) (b : UInt8) (mem : List UInt8) :
    (pre ++ b :: mem)[pre.length]? = some b := by
  simp

/-- Skipping separators: the position is that of the first other byte. -/
theorem strspn_at (hd : d ∉ delim) (hg : IsGap delim g) (pre mem : List UInt8) :
    strspn delim ((pre ++ (g ++ d :: mem)).drop pre.length) = some g.length := by
  rw [List.drop_left, strspn_gap hg]
  show (if d ∈ delim then _ else some 0).map _ = _
  rw [if_neg hd]
  rfl

/-- **No token is left.** -/
theorem strtok_done (h0 : (0 : UInt8) ∉ delim) (hg : IsGap delim g) (pre mem : List UInt8) :
    strtok delim (pre ++ (g ++ 0 :: mem)) pre.length
      = some (none, pre ++ (g ++ 0 :: mem), pre.length + g.length) := by
  have hget : (pre ++ (g ++ 0 :: mem))[pre.length + g.length]? = some 0 := by simp
  unfold strtok
  rw [strspn_at h0 hg]
  simp only [Option.bind_eq_bind, Option.bind_some, hget]
  rfl

/-- **A call that finds a token** that ends in memory: the position of its
first byte, the token terminated, and the position behind the separator
that ended it – or of the NUL that did. -/
theorem strtok_token (hg : IsGap delim g) (hne : t ≠ []) (ht : IsToken delim t)
    (hd : d = 0 ∨ d ∈ delim) (pre mem : List UInt8) :
    strtok delim (pre ++ (g ++ (t ++ d :: mem))) pre.length
      = some (some (pre.length + g.length), pre ++ (g ++ (t ++ 0 :: mem)),
          pre.length + g.length + t.length + if d = 0 then 0 else 1) := by
  obtain ⟨b, t, rfl⟩ := List.exists_cons_of_ne_nil hne
  obtain ⟨hb0, hb⟩ := ht b List.mem_cons_self
  have hfirst : (pre ++ (g ++ (b :: t ++ d :: mem)))[pre.length + g.length]? = some b := by simp
  have hrest : (pre ++ (g ++ (b :: t ++ d :: mem))).drop (pre.length + g.length)
      = b :: t ++ d :: mem := by
    rw [← List.append_assoc, ← List.length_append, List.drop_left]
  have hlen : strcspn delim (b :: t ++ d :: mem) = some (b :: t).length := by
    rw [strcspn_token ht]
    show (if d = 0 ∨ d ∈ delim then some 0 else _).map _ = _
    rw [if_pos hd]
    rfl
  have hend : (pre ++ (g ++ (b :: t ++ d :: mem)))[pre.length + g.length + (b :: t).length]?
      = some d := by
    rw [← List.append_assoc, ← List.append_assoc, ← List.length_append, ← List.length_append]
    exact getElem?_length_append _ d mem
  have hset : (pre ++ (g ++ (b :: t ++ d :: mem))).set (pre.length + g.length + (b :: t).length) 0
      = pre ++ (g ++ (b :: t ++ 0 :: mem)) := by
    rw [← List.append_assoc, ← List.append_assoc, ← List.length_append, ← List.length_append,
      List.set_append_right _ _ le_rfl, Nat.sub_self, List.set_cons_zero, List.append_assoc,
      List.append_assoc]
  refine bind_of_eq (strspn_at hb hg pre (t ++ d :: mem)) (bind_of_eq hfirst ?_)
  refine (if_neg hb0).trans (bind_of_eq ((congrArg (strcspn delim) hrest).trans hlen)
    (bind_of_eq hend ?_))
  by_cases h0 : d = 0
  · subst h0
    rfl
  · rw [if_neg h0, if_neg h0, hset]
    rfl

/-- **Memory without an end** is read past its end. -/
theorem strtok_cut (hg : IsGap delim g) (ht : IsToken delim t) (pre : List UInt8) :
    strtok delim (pre ++ (g ++ t)) pre.length = none := by
  cases t with
  | nil =>
    have hspn : strspn delim ((pre ++ (g ++ [])).drop pre.length) = none := by
      rw [List.drop_left, strspn_gap hg]
      rfl
    unfold strtok
    rw [hspn]
    rfl
  | cons b t =>
    obtain ⟨hb0, hb⟩ := ht b List.mem_cons_self
    have hfirst : (pre ++ (g ++ b :: t))[pre.length + g.length]? = some b := by simp
    have hrest : (pre ++ (g ++ b :: t)).drop (pre.length + g.length) = b :: t ++ [] := by
      rw [← List.append_assoc, ← List.length_append, List.drop_left, List.append_nil]
    have hlen : strcspn delim (b :: t ++ []) = none := by
      rw [strcspn_token ht]
      rfl
    refine bind_of_eq (strspn_at hb hg pre t) (bind_of_eq hfirst ((if_neg hb0).trans ?_))
    rw [hrest, hlen]
    rfl

/-! ## The tokens -/

theorem takeWhile_ne_zero_append {l : List UInt8} (hl : ∀ b ∈ l, b ≠ 0) (mem : List UInt8) :
    (l ++ mem).takeWhile (fun b => b ≠ 0) = l ++ mem.takeWhile (fun b => b ≠ 0) :=
  List.takeWhile_append_of_pos (by simpa using hl)

theorem takeWhile_ne_zero_self {l : List UInt8} (hl : ∀ b ∈ l, b ≠ 0) :
    l.takeWhile (fun b => b ≠ 0) = l := by
  have h := takeWhile_ne_zero_append hl []
  rwa [List.append_nil, List.takeWhile_nil, List.append_nil] at h

theorem length_takeWhile_ne_zero_le (l mem : List UInt8) :
    ((l ++ 0 :: mem).takeWhile (fun b => b ≠ 0)).length ≤ l.length := by
  induction l with
  | nil => exact Nat.zero_le _
  | cons b l ih =>
    by_cases hb : b = 0
    · subst hb
      exact Nat.zero_le _
    · rw [List.cons_append, List.takeWhile_cons_of_pos (by simpa using hb)]
      exact Nat.succ_le_succ ih

theorem IsGap.ne_zero (h0 : (0 : UInt8) ∉ delim) (hg : IsGap delim g) : ∀ b ∈ g, b ≠ 0 :=
  fun b hb he => h0 (he ▸ hg b hb)

theorem IsToken.ne_zero (ht : IsToken delim t) : ∀ b ∈ t, b ≠ 0 := fun b hb => (ht b hb).1

/-- Separators in front make no token. -/
theorem tokensOf_gap (h0 : (0 : UInt8) ∉ delim) (hg : IsGap delim g) (mem : List UInt8) :
    tokensOf delim (g ++ mem) = tokensOf delim mem := by
  unfold tokensOf
  rw [takeWhile_ne_zero_append (hg.ne_zero h0)]
  induction g with
  | nil => rfl
  | cons b g ih =>
    obtain ⟨hb, hg⟩ := List.forall_mem_cons.mp hg
    rw [List.cons_append, List.splitOnP_cons_eq_if_modifyHead, if_pos (decide_eq_true hb)]
    exact ih hg

theorem tokensOf_nul (delim mem : List UInt8) : tokensOf delim (0 :: mem) = [] := rfl

theorem CString.ofBytes_append_nul {l : List UInt8} (hl : ∀ b ∈ l, b ≠ 0) (mem : List UInt8) :
    CString.ofBytes (l ++ 0 :: mem) = CString.ofBytes l := by
  refine CString.ext ?_
  show (l ++ 0 :: mem).takeWhile (fun b => b ≠ 0) = l.takeWhile (fun b => b ≠ 0)
  rw [takeWhile_ne_zero_append hl, takeWhile_ne_zero_self hl, List.takeWhile_cons_of_neg (by simp),
    List.append_nil]

/-- NULs behind bytes do not change their string. -/
theorem CString.ofBytes_append_replicate (bytes : List UInt8) (m : ℕ) :
    CString.ofBytes (bytes ++ List.replicate m 0) = CString.ofBytes bytes := by
  have hnul : (List.replicate m (0 : UInt8)).takeWhile (fun b => b ≠ 0) = [] := by
    cases m with
    | zero => rfl
    | succ m => rfl
  refine CString.ext ?_
  show (bytes ++ _).takeWhile _ = bytes.takeWhile _
  rw [List.takeWhile_append, hnul, List.append_nil]
  split
  · next hlen => exact ((List.takeWhile_prefix _).eq_of_length hlen).symm
  · rfl

theorem CString.ofBytes_bytes (s : CString) : CString.ofBytes s.bytes = s :=
  CString.ext (takeWhile_ne_zero_self (fun _ hb h0 => s.nul_free (h0 ▸ hb)))

/-- **A string starts a block** that has its bytes and a NUL in front. -/
theorem stringAt_eq_some_iff {block : List UInt8} {s : CString} :
    stringAt block 0 = some s ↔ ∃ rest, block = s.bytes ++ 0 :: rest := by
  unfold stringAt
  rw [List.drop_zero]
  constructor
  · intro h
    split at h
    · next h0 =>
      obtain rfl := Option.some.inj h
      obtain ⟨before, after, rfl, hbefore⟩ := List.eq_append_cons_of_mem h0
      refine ⟨after, ?_⟩
      rw [CString.ofBytes_append_nul (fun b hb he => hbefore (he ▸ hb))]
      show _ = before.takeWhile _ ++ _
      rw [takeWhile_ne_zero_self (fun b hb he => hbefore (he ▸ hb))]
    · cases h
  · rintro ⟨rest, rfl⟩
    rw [if_pos (List.mem_append_right _ List.mem_cons_self),
      CString.ofBytes_append_nul (fun b hb he => s.nul_free (he ▸ hb)), s.ofBytes_bytes]

/-- A run up to the NUL is one token. -/
theorem tokensOf_last (hne : t ≠ []) (ht : IsToken delim t) (mem : List UInt8) :
    tokensOf delim (t ++ 0 :: mem) = [CString.ofBytes t] := by
  have hsplit : t.splitOnP (fun b => decide (b ∈ delim)) = [t] :=
    List.splitOnP_eq_singleton (fun b hb => decide_eq_false (ht b hb).2)
  unfold tokensOf
  rw [takeWhile_ne_zero_append ht.ne_zero, List.takeWhile_cons_of_neg (by simp), List.append_nil,
    hsplit]
  simp [hne]

/-- A run up to a separator is a token, and then come those behind it. -/
theorem tokensOf_next (h0 : (0 : UInt8) ∉ delim) (hne : t ≠ []) (ht : IsToken delim t)
    (hd : d ∈ delim) (mem : List UInt8) :
    tokensOf delim (t ++ d :: mem) = CString.ofBytes t :: tokensOf delim mem := by
  have hd0 : d ≠ 0 := fun he => h0 (he ▸ hd)
  unfold tokensOf
  rw [takeWhile_ne_zero_append ht.ne_zero, List.takeWhile_cons_of_pos (by simpa using hd0),
    List.splitOnP_append_cons_of_forall_mem (fun b hb => decide_eq_false (ht b hb).2) d
      (decide_eq_true hd), List.filter_cons_of_pos (by simpa using hne)]
  rfl

/-- Memory behind the first NUL has no tokens. -/
theorem tokensOf_append_of_mem (h : (0 : UInt8) ∈ mem) (rest : List UInt8) :
    tokensOf delim (mem ++ rest) = tokensOf delim mem := by
  have htake : ∀ {mem : List UInt8}, (0 : UInt8) ∈ mem →
      (mem ++ rest).takeWhile (fun b => b ≠ 0) = mem.takeWhile (fun b => b ≠ 0) := by
    intro mem h
    induction mem with
    | nil => exact absurd h List.not_mem_nil
    | cons b mem ih =>
      by_cases hb : b = 0
      · subst hb
        rfl
      · have hmem : (0 : UInt8) ∈ mem := (List.mem_cons.mp h).resolve_left (Ne.symm hb)
        rw [List.cons_append, List.takeWhile_cons_of_pos (by simpa using hb),
          List.takeWhile_cons_of_pos (by simpa using hb), ih hmem]
  unfold tokensOf
  rw [htake h]

/-- Tokens before a separator and behind it. -/
theorem tokensOf_append_sep (h0 : (0 : UInt8) ∉ delim) (hmem : (0 : UInt8) ∉ mem) (hd : d ∈ delim)
    (rest : List UInt8) :
    tokensOf delim (mem ++ d :: rest) = tokensOf delim mem ++ tokensOf delim rest := by
  have hne : ∀ b ∈ mem, b ≠ 0 := fun b hb he => hmem (he ▸ hb)
  have hd0 : d ≠ 0 := fun he => h0 (he ▸ hd)
  unfold tokensOf
  rw [takeWhile_ne_zero_append hne, takeWhile_ne_zero_self hne,
    List.takeWhile_cons_of_pos (by simpa using hd0),
    List.splitOnP_append_cons (p := fun b => decide (b ∈ delim)) _ _ (decide_eq_true hd),
    List.filter_append, List.map_append]

/-- A NUL behind a memory without one adds no token. -/
theorem tokensOf_append_nul (hmem : (0 : UInt8) ∉ mem) (rest : List UInt8) :
    tokensOf delim (mem ++ 0 :: rest) = tokensOf delim mem := by
  have hne : ∀ b ∈ mem, b ≠ 0 := fun b hb he => hmem (he ▸ hb)
  unfold tokensOf
  rw [takeWhile_ne_zero_append hne, takeWhile_ne_zero_self hne,
    List.takeWhile_cons_of_neg (by simp), List.append_nil]

/-! ## Token ends -/

theorem tokenEnds_gap (h0 : (0 : UInt8) ∉ delim) (hg : IsGap delim g) (mem : List UInt8) :
    tokenEnds delim (g ++ mem) = tokenEnds delim mem := by
  induction g with
  | nil => rfl
  | cons a g ih =>
    obtain ⟨ha, hg'⟩ := List.forall_mem_cons.mp hg
    have ha0 : a ≠ 0 := hg.ne_zero h0 a List.mem_cons_self
    rw [← ih hg', List.cons_append]
    cases hgm : g ++ mem with
    | nil => rfl
    | cons b m =>
      show (if a = 0 then 0 else (if a ∉ delim ∧ (b = 0 ∨ b ∈ delim) then 1 else 0)
        + tokenEnds delim (b :: m)) = _
      rw [if_neg ha0, if_neg (fun h => h.1 ha), Nat.zero_add]

/-- A run followed by a separator or the NUL ends there. -/
theorem tokenEnds_token (hne : t ≠ []) (ht : IsToken delim t) (hd : d = 0 ∨ d ∈ delim)
    (mem : List UInt8) :
    tokenEnds delim (t ++ d :: mem) = 1 + tokenEnds delim (d :: mem) := by
  induction t with
  | nil => exact absurd rfl hne
  | cons a t ih =>
    obtain ⟨⟨ha0, ha⟩, ht'⟩ := List.forall_mem_cons.mp ht
    cases t with
    | nil =>
      show (if a = 0 then 0 else (if a ∉ delim ∧ (d = 0 ∨ d ∈ delim) then 1 else 0)
        + tokenEnds delim (d :: mem)) = _
      rw [if_neg ha0, if_pos ⟨ha, hd⟩]
    | cons b t =>
      have hb := ht' b List.mem_cons_self
      show (if a = 0 then 0 else (if a ∉ delim ∧ (b = 0 ∨ b ∈ delim) then 1 else 0)
        + tokenEnds delim (b :: t ++ d :: mem)) = _
      rw [if_neg ha0, if_neg (fun h => h.2.elim hb.1 hb.2), Nat.zero_add,
        ih (List.cons_ne_nil b t) ht']

theorem tokenEnds_nul (delim mem : List UInt8) : tokenEnds delim (0 :: mem) = 0 := by
  cases mem <;> rfl

theorem tokenEnds_cut (ht : IsToken delim t) : tokenEnds delim t = 0 := by
  induction t with
  | nil => rfl
  | cons a t ih =>
    obtain ⟨⟨ha0, ha⟩, ht'⟩ := List.forall_mem_cons.mp ht
    cases t with
    | nil => rfl
    | cons b t =>
      have hb := ht' b List.mem_cons_self
      show (if a = 0 then 0 else (if a ∉ delim ∧ (b = 0 ∨ b ∈ delim) then 1 else 0)
        + tokenEnds delim (b :: t)) = 0
      rw [if_neg ha0, if_neg (fun h => h.2.elim hb.1 hb.2), ih ht']

/-! ## What calls leave behind -/

/-- A terminated token is read back. -/
theorem stringAt_token (ht : IsToken delim t) (pre g mem : List UInt8) :
    stringAt (pre ++ (g ++ (t ++ 0 :: mem))) (pre.length + g.length)
      = some (CString.ofBytes t) := by
  have hdrop : (pre ++ (g ++ (t ++ 0 :: mem))).drop (pre.length + g.length) = t ++ 0 :: mem := by
    rw [← List.append_assoc, ← List.length_append, List.drop_left]
  unfold stringAt
  rw [hdrop, if_pos (List.mem_append_right t List.mem_cons_self),
    CString.ofBytes_append_nul ht.ne_zero]

theorem Scan.zero_notMem_cut (h0 : (0 : UInt8) ∉ delim) (hg : IsGap delim g)
    (ht : IsToken delim t) : (0 : UInt8) ∉ g ++ t := fun h =>
  (List.mem_append.mp h).elim (fun h => hg.ne_zero h0 0 h rfl) (fun h => ht.ne_zero 0 h rfl)

/-- **Induction on a terminated memory**: token by token. -/
theorem terminated_induction (h0 : (0 : UInt8) ∉ delim) {M : List UInt8 → Prop}
    (done : ∀ {g m}, IsGap delim g → M (g ++ 0 :: m))
    (last : ∀ {g t m}, IsGap delim g → t ≠ [] → IsToken delim t → M (g ++ (t ++ 0 :: m)))
    (next : ∀ {g t m d}, IsGap delim g → t ≠ [] → IsToken delim t → d ∈ delim → M m →
      M (g ++ (t ++ d :: m)))
    (h : (0 : UInt8) ∈ mem) : M mem := by
  induction hn : mem.length using Nat.strong_induction_on generalizing mem with
  | _ n ih =>
    cases scan delim mem with
    | done hg => exact done hg
    | last hg hne ht => exact last hg hne ht
    | @next g t m d hg hne ht hd =>
      have hd0 : d ≠ 0 := fun he => h0 (he ▸ hd)
      have hm : (0 : UInt8) ∈ m := by
        rcases List.mem_append.mp h with h | h
        · exact absurd rfl (hg.ne_zero h0 0 h)
        rcases List.mem_append.mp h with h | h
        · exact absurd rfl (ht.ne_zero 0 h)
        · exact (List.mem_cons.mp h).resolve_left (Ne.symm hd0)
      have hlt : m.length < n := by
        rw [← hn, List.length_append, List.length_append, List.length_cons]
        omega
      exact next hg hne ht hd (ih _ hlt hm rfl)
    | cut hg ht => exact absurd h (Scan.zero_notMem_cut h0 hg ht)

theorem tokenEnds_next (h0 : (0 : UInt8) ∉ delim) (hne : t ≠ []) (ht : IsToken delim t)
    (hd : d ∈ delim) (mem : List UInt8) :
    tokenEnds delim (t ++ d :: mem) = 1 + tokenEnds delim mem := by
  rw [tokenEnds_token hne ht (Or.inr hd)]
  exact congrArg (1 + ·) (tokenEnds_gap h0 (IsGap.nil.cons hd) mem)

/-- **In a terminated memory every token ends.** -/
theorem tokenEnds_eq_length (h0 : (0 : UInt8) ∉ delim) (h : (0 : UInt8) ∈ mem) :
    tokenEnds delim mem = (tokensOf delim mem).length := by
  refine terminated_induction h0 (M := fun mem => tokenEnds delim mem = (tokensOf delim mem).length)
    (fun {g m} hg => ?_) (fun {g t m} hg hne ht => ?_) (fun {g t m d} hg hne ht hd ih => ?_) h
  · rw [tokenEnds_gap h0 hg, tokensOf_gap h0 hg, tokenEnds_nul, tokensOf_nul]
    rfl
  · rw [tokenEnds_gap h0 hg, tokensOf_gap h0 hg, tokenEnds_token hne ht (Or.inl rfl),
      tokenEnds_nul, tokensOf_last hne ht]
    rfl
  · rw [tokenEnds_gap h0 hg, tokensOf_gap h0 hg, tokenEnds_next h0 hne ht hd,
      tokensOf_next h0 hne ht hd, ih, List.length_cons, Nat.add_comm]

theorem strlen_ofBytes (ht : IsToken delim t) : (CString.ofBytes t).strlen = t.length := by
  show (t.takeWhile (fun b => b ≠ 0)).length = t.length
  rw [takeWhile_ne_zero_self ht.ne_zero]

/-- **No token is empty.** -/
theorem strlen_pos_of_mem_tokensOf (h0 : (0 : UInt8) ∉ delim) (h : (0 : UInt8) ∈ mem) :
    ∀ w ∈ tokensOf delim mem, 0 < w.strlen := by
  refine terminated_induction h0 (M := fun mem => ∀ w ∈ tokensOf delim mem, 0 < w.strlen)
    (fun {g m} hg => ?_) (fun {g t m} hg hne ht => ?_) (fun {g t m d} hg hne ht hd ih => ?_) h
  · rw [tokensOf_gap h0 hg, tokensOf_nul]
    exact fun w hw => absurd hw List.not_mem_nil
  · rw [tokensOf_gap h0 hg, tokensOf_last hne ht, List.forall_mem_singleton, strlen_ofBytes ht]
    exact List.length_pos_of_ne_nil hne
  · rw [tokensOf_gap h0 hg, tokensOf_next h0 hne ht hd, List.forall_mem_cons, strlen_ofBytes ht]
    exact ⟨List.length_pos_of_ne_nil hne, ih⟩

/-- **The tokens fit before the NUL**, each with a byte behind it. -/
theorem sum_tokensOf_le (h0 : (0 : UInt8) ∉ delim) (h : (0 : UInt8) ∈ mem) :
    ((tokensOf delim mem).map (fun w => w.strlen + 1)).sum
      ≤ (mem.takeWhile (fun b => b ≠ 0)).length + 1 := by
  refine terminated_induction h0 (M := fun mem => ((tokensOf delim mem).map (fun w => w.strlen + 1)).sum
      ≤ (mem.takeWhile (fun b => b ≠ 0)).length + 1)
    (fun {g m} hg => ?_) (fun {g t m} hg hne ht => ?_) (fun {g t m d} hg hne ht hd ih => ?_) h
  · rw [tokensOf_gap h0 hg, tokensOf_nul]
    exact Nat.zero_le _
  · rw [tokensOf_gap h0 hg, tokensOf_last hne ht, List.map_singleton, List.sum_singleton,
      strlen_ofBytes ht, takeWhile_ne_zero_append (hg.ne_zero h0),
      takeWhile_ne_zero_append ht.ne_zero, List.length_append, List.length_append]
    omega
  · have hd0 : d ≠ 0 := fun he => h0 (he ▸ hd)
    rw [tokensOf_gap h0 hg, tokensOf_next h0 hne ht hd, List.map_cons, List.sum_cons,
      strlen_ofBytes ht, takeWhile_ne_zero_append (hg.ne_zero h0),
      takeWhile_ne_zero_append ht.ne_zero, List.takeWhile_cons_of_pos (by simpa using hd0),
      List.length_append, List.length_append, List.length_cons]
    omega

/-- **No token holds a separator.** -/
theorem isToken_of_mem_tokensOf (h0 : (0 : UInt8) ∉ delim) (h : (0 : UInt8) ∈ mem) :
    ∀ w ∈ tokensOf delim mem, IsToken delim w.bytes := by
  have hbytes : ∀ {t : List UInt8}, IsToken delim t → IsToken delim (CString.ofBytes t).bytes := by
    intro t ht
    show IsToken delim (t.takeWhile (fun b => b ≠ 0))
    rw [takeWhile_ne_zero_self ht.ne_zero]
    exact ht
  refine terminated_induction h0 (M := fun mem => ∀ w ∈ tokensOf delim mem, IsToken delim w.bytes)
    (fun {g m} hg => ?_) (fun {g t m} hg hne ht => ?_) (fun {g t m d} hg hne ht hd ih => ?_) h
  · rw [tokensOf_gap h0 hg, tokensOf_nul]
    exact fun w hw => absurd hw List.not_mem_nil
  · rw [tokensOf_gap h0 hg, tokensOf_last hne ht, List.forall_mem_singleton]
    exact hbytes ht
  · rw [tokensOf_gap h0 hg, tokensOf_next h0 hne ht hd, List.forall_mem_cons]
    exact ⟨hbytes ht, ih⟩

/-- **A terminated memory has a token** exactly if a byte before the first NUL
is no separator. -/
theorem tokensOf_ne_nil_iff (h0 : (0 : UInt8) ∉ delim) (h : (0 : UInt8) ∈ mem) :
    tokensOf delim mem ≠ [] ↔ ∃ b ∈ mem.takeWhile (fun b => b ≠ 0), b ∉ delim := by
  have hfirst : ∀ {g t m : List UInt8}, IsGap delim g → t ≠ [] → IsToken delim t →
      ∃ b ∈ (g ++ (t ++ m)).takeWhile (fun b => b ≠ 0), b ∉ delim := by
    intro g t m hg hne ht
    obtain ⟨b, t, rfl⟩ := List.exists_cons_of_ne_nil hne
    rw [takeWhile_ne_zero_append (hg.ne_zero h0), takeWhile_ne_zero_append ht.ne_zero]
    exact ⟨b, by simp, (ht b List.mem_cons_self).2⟩
  cases scan delim mem with
  | @done g m hg =>
    rw [tokensOf_gap h0 hg, tokensOf_nul, takeWhile_ne_zero_append (hg.ne_zero h0),
      List.takeWhile_cons_of_neg (by simp), List.append_nil]
    exact iff_of_false (fun hne => hne rfl) (fun ⟨b, hb, hnot⟩ => hnot (hg b hb))
  | last hg hne ht =>
    rw [tokensOf_gap h0 hg, tokensOf_last hne ht]
    exact iff_of_true (List.cons_ne_nil _ _) (hfirst hg hne ht)
  | next hg hne ht hd =>
    rw [tokensOf_gap h0 hg, tokensOf_next h0 hne ht hd]
    exact iff_of_true (List.cons_ne_nil _ _) (hfirst hg hne ht)
  | cut hg ht => exact absurd h (Scan.zero_notMem_cut h0 hg ht)

end
