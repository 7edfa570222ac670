import LinuxLearn.Contacts

/-!
# Where a line is scanned

The first loop of `parser_token` goes on to a comma and the second to the end
of the line; both write what they keep without looking at the size of the
array. `parserAccesses` is what they use, of the line and of the two arrays.

A line is scanned safely if it is too short to be scanned, or has a comma and
not too much to keep on either side of it (`scans_safely_iff`).
-/

namespace Contacts

/-- **An index that is used**: a byte of the line is read, or one of an array is written. -/
inductive Access where
  | buffer (i : ℕ)
  | name (j : ℕ)
  | phone (j : ℕ)

/-- It is in the line or the NUL behind it, or leaves a NUL behind a field. -/
def Access.Inside (length : ℕ) : Access → Prop
  | buffer i => i ≤ length
  | name j => j < NAME_LENGTH - 1
  | phone j => j < PHONE_LENGTH - 1

/-- What the first loop uses, from an index on. -/
def nameAccesses : List UInt8 → ℕ → Bool → ℕ → List Access
  | [], i, _, _ => [.buffer i]
  | c :: rest, i, status, j =>
    .buffer i :: if c = 44 then []
      else if c = 32 then nameAccesses rest (i + 1) true j
      else if status then .name j :: nameAccesses rest (i + 1) true (j + 1)
      else nameAccesses rest (i + 1) false j

/-- What the second loop uses, of what is left of the line. -/
def phoneAccesses : List UInt8 → ℕ → Bool → ℕ → List Access
  | [], _, _, _ => []
  | c :: rest, i, status, j =>
    .buffer i :: if c = 32 then phoneAccesses rest (i + 1) true j
      else if status then .phone j :: phoneAccesses rest (i + 1) true (j + 1)
      else phoneAccesses rest (i + 1) false j

/-- **What `parser_token` uses.** -/
def parserAccesses (buffer : List UInt8) (length : ℕ) : List Access :=
  if length < MIN_TOKEN_LENGTH then []
  else nameAccesses buffer 0 false 0
    ++ match nameLoop buffer 0 ⟨false, 0, List.replicate NAME_LENGTH 0⟩ with
      | .ok (i, _) => phoneAccesses ((buffer.take length).drop i) i false 0
      | .error _ => []

/-- The buffer of `load_file`, with a line in it. -/
def lineBuffer (line : List UInt8) : List UInt8 :=
  line ++ List.replicate (BUFFER_LENGTH - line.length) 0

/-- The line as a string. -/
def lineText (line : List UInt8) : List UInt8 := line.takeWhile (· ≠ 0)

/-- **A line is scanned safely**: `parser_token` returns, reads nothing behind the NUL of the
line, and leaves each array its last byte. -/
def ScansSafely (line : List UInt8) : Prop :=
  (∃ r, parserToken (lineBuffer line) (lineText line).length (List.replicate NAME_LENGTH 0)
      (List.replicate PHONE_LENGTH 0) = .ok r)
    ∧ ∀ a ∈ parserAccesses (lineBuffer line) (lineText line).length, a.Inside (lineText line).length

/-- What a loop keeps: the bytes that are no blanks, behind the first blank. -/
def keeps (bytes : List UInt8) : List UInt8 := (bytes.dropWhile (· ≠ 32)).filter (· ≠ 32)

/-- **A line that can be scanned**: it has fewer than five bytes, or a comma, at most 15
bytes to keep before it and at most 31 from it on. -/
def LineScans (text : List UInt8) : Prop :=
  text.length < MIN_TOKEN_LENGTH
    ∨ 44 ∈ text ∧ (keeps (text.takeWhile (· ≠ 44))).length < NAME_LENGTH
      ∧ (keeps (text.dropWhile (· ≠ 44))).length < PHONE_LENGTH

instance (text : List UInt8) : Decidable (LineScans text) :=
  inferInstanceAs (Decidable (_ ∨ _ ∧ _ ∧ _))

/-- What is kept of a line before its comma: the loop passes over NULs. -/
def lineName (bytes : List UInt8) : List UInt8 := keeps (bytes.takeWhile (· ≠ 44))

/-- What is kept of a line from its comma on, up to the first NUL. -/
def linePhone (bytes : List UInt8) : List UInt8 := keeps ((lineText bytes).dropWhile (· ≠ 44))

/-- **A line that `load_file` gets over**: it has fewer than five bytes, or a comma, and what is
kept before it fits `name` – with a NUL, be it one that was read – and what is kept
from it on fits `phone` with a NUL. -/
def LineLoads (bytes : List UInt8) : Prop :=
  (lineText bytes).length < MIN_TOKEN_LENGTH
    ∨ 44 ∈ bytes
      ∧ ((lineName bytes).length < NAME_LENGTH
        ∨ (lineName bytes).length = NAME_LENGTH ∧ 0 ∈ lineName bytes)
      ∧ (linePhone bytes).length < PHONE_LENGTH

instance (bytes : List UInt8) : Decidable (LineLoads bytes) :=
  inferInstanceAs (Decidable (_ ∨ _ ∧ _ ∧ _))

/-- Where no NUL is in a line, these are the lines that are scanned safely. -/
theorem lineLoads_iff {bytes : List UInt8} (h : (0 : UInt8) ∉ bytes) :
    LineLoads bytes ↔ LineScans (lineText bytes) := by
  have htext : lineText bytes = bytes := takeWhile_ne_zero_self (fun b hb h0 => h (h0 ▸ hb))
  have hname : (0 : UInt8) ∉ lineName bytes := fun h0 =>
    h ((List.takeWhile_sublist _).mem ((List.dropWhile_sublist _).mem (List.mem_of_mem_filter h0)))
  have hroom : (lineName bytes).length < NAME_LENGTH
      ∨ (lineName bytes).length = NAME_LENGTH ∧ 0 ∈ lineName bytes
      ↔ (lineName bytes).length < NAME_LENGTH := or_iff_left (fun h0 => hname h0.2)
  unfold LineLoads LineScans
  rw [hroom, htext]
  unfold lineName linePhone
  rw [htext]

/-- How many bytes a loop still keeps, behind a blank or not. -/
def kept : Bool → List UInt8 → ℕ
  | _, [] => 0
  | status, c :: bytes =>
    if c = 32 then kept true bytes else if status then kept true bytes + 1 else kept false bytes

section

variable {bytes : List UInt8} {i j length : ℕ} {status : Bool}

theorem kept_false (bytes : List UInt8) : kept false bytes = (keeps bytes).length := by
  have htrue : ∀ bytes : List UInt8, kept true bytes = (bytes.filter (· ≠ 32)).length := by
    intro bytes
    induction bytes with
    | nil => rfl
    | cons c bytes ih =>
      by_cases hc : c = 32
      · subst hc
        exact ih
      · rw [kept, if_neg hc, if_pos rfl, ih, List.filter_cons_of_pos (by simpa using hc)]
        rfl
  induction bytes with
  | nil => rfl
  | cons c bytes ih =>
    by_cases hc : c = 32
    · subst hc
      exact htrue bytes
    · unfold keeps
      rw [kept, if_neg hc, if_neg Bool.false_ne_true, ih,
        List.dropWhile_cons_of_pos (by simpa using hc)]
      rfl

theorem buffer_mem_nameAccesses (bytes : List UInt8) (i : ℕ) (status : Bool) (j : ℕ) :
    .buffer i ∈ nameAccesses bytes i status j := by
  cases bytes with
  | nil => exact List.mem_singleton_self _
  | cons c bytes => exact List.mem_cons_self

/-- **The first loop stays inside** exactly where the text has a comma and not too much to
keep before it. -/
theorem nameAccesses_inside (text rest : List UInt8) (i : ℕ) (status : Bool) (hj : j < NAME_LENGTH) :
    (∀ a ∈ nameAccesses (text ++ 0 :: rest) i status j, a.Inside (i + text.length))
      ↔ 44 ∈ text ∧ j + kept status (text.takeWhile (· ≠ 44)) < NAME_LENGTH := by
  induction text generalizing i status j with
  | nil =>
    -- the NUL is no comma
    refine iff_of_false (fun h => ?_) (fun h => List.not_mem_nil h.1)
    have hnext : .buffer (i + 1) ∈ nameAccesses ([] ++ 0 :: rest) i status j := by
      refine List.mem_cons_of_mem _ ?_
      rw [if_neg (by decide), if_neg (by decide)]
      split
      · exact List.mem_cons_of_mem _ (buffer_mem_nameAccesses rest (i + 1) _ _)
      · exact buffer_mem_nameAccesses rest (i + 1) _ _
    exact Nat.not_succ_le_self i (h _ hnext)
  | cons c text ih =>
    have hi : (Access.buffer i).Inside (i + (c :: text).length) := Nat.le_add_right i _
    have hlen : i + (c :: text).length = i + 1 + text.length := by
      rw [List.length_cons]
      omega
    rw [List.cons_append, nameAccesses, List.forall_mem_cons, and_iff_right hi]
    by_cases hcomma : c = 44
    · subst hcomma
      rw [if_pos rfl, List.takeWhile_cons_of_neg (by simp)]
      exact iff_of_true (fun a ha => absurd ha List.not_mem_nil) ⟨List.mem_cons_self, hj⟩
    have hmem : 44 ∈ c :: text ↔ 44 ∈ text :=
      List.mem_cons.trans (or_iff_right (fun h => hcomma h.symm))
    rw [if_neg hcomma, hlen, hmem, List.takeWhile_cons_of_pos (by simpa using hcomma), kept]
    by_cases hblank : c = 32
    · rw [if_pos hblank, if_pos hblank]
      exact ih (i + 1) true hj
    rw [if_neg hblank, if_neg hblank]
    cases status with
    | false => exact ih (i + 1) false hj
    | true =>
      rw [if_pos rfl, if_pos rfl, List.forall_mem_cons]
      by_cases hroom : j + 1 < NAME_LENGTH
      · have hname : (Access.name j).Inside (i + 1 + text.length) := show j < NAME_LENGTH - 1 by omega
        rw [and_iff_right hname, ih (i + 1) true hroom, Nat.add_assoc, Nat.add_comm 1]
      · refine iff_of_false (fun h => ?_) (fun h => by omega)
        have hname : j < NAME_LENGTH - 1 := h.1
        omega

/-- **The second loop stays inside** exactly where there is not too much to keep. -/
theorem phoneAccesses_inside (hi : i + bytes.length ≤ length) (hj : j < PHONE_LENGTH) :
    (∀ a ∈ phoneAccesses bytes i status j, a.Inside length)
      ↔ j + kept status bytes < PHONE_LENGTH := by
  induction bytes generalizing i status j with
  | nil => exact iff_of_true (fun a ha => absurd ha List.not_mem_nil) hj
  | cons c bytes ih =>
    rw [List.length_cons] at hi
    have hread : (Access.buffer i).Inside length := show i ≤ length by omega
    have hrest : i + 1 + bytes.length ≤ length := by omega
    rw [phoneAccesses, List.forall_mem_cons, and_iff_right hread, kept]
    by_cases hblank : c = 32
    · rw [if_pos hblank, if_pos hblank]
      exact ih hrest hj
    rw [if_neg hblank, if_neg hblank]
    cases status with
    | false => exact ih hrest hj
    | true =>
      rw [if_pos rfl, if_pos rfl, List.forall_mem_cons]
      by_cases hroom : j + 1 < PHONE_LENGTH
      · have hphone : (Access.phone j).Inside length := show j < PHONE_LENGTH - 1 by omega
        rw [and_iff_right hphone, ih hrest hroom, Nat.add_assoc, Nat.add_comm 1]
      · refine iff_of_false (fun h => ?_) (fun h => by omega)
        have hphone : j < PHONE_LENGTH - 1 := h.1
        omega

/-- **What is kept is written**, and nothing behind it. -/
theorem foldlM_put_kept (bytes : List UInt8) (status : Bool) (j : ℕ) (out : List UInt8)
    (h : j + kept status bytes ≤ out.length) :
    ∃ u, bytes.foldlM Token.put ⟨status, j, out⟩ = .ok u
      ∧ ∀ k, j + kept status bytes ≤ k → u.out[k]? = out[k]? := by
  induction bytes generalizing status j out with
  | nil => exact ⟨_, rfl, fun _ _ => rfl⟩
  | cons c bytes ih =>
    rw [kept] at h ⊢
    by_cases hblank : c = 32
    · rw [if_pos hblank] at h ⊢
      obtain ⟨u, hu, hbehind⟩ := ih true j out h
      exact ⟨u, bind_ok (if_pos hblank) hu, hbehind⟩
    rw [if_neg hblank] at h ⊢
    cases status with
    | false =>
      obtain ⟨u, hu, hbehind⟩ := ih false j out h
      exact ⟨u, bind_ok (if_neg hblank) hu, hbehind⟩
    | true =>
      rw [if_pos rfl] at h ⊢
      have hroom : j < out.length := by omega
      have hput : Token.put ⟨true, j, out⟩ c = .ok ⟨true, j + 1, out.set j c⟩ :=
        (if_neg hblank).trans (if_pos hroom)
      have hleft : j + 1 + kept true bytes ≤ (out.set j c).length := by
        rw [List.length_set]
        omega
      obtain ⟨u, hu, hbehind⟩ := ih true (j + 1) (out.set j c) hleft
      refine ⟨u, bind_ok hput hu, fun k hk => ?_⟩
      rw [hbehind k (by omega)]
      exact List.getElem?_set_ne (by omega)

/-- A field with room for a NUL can be scanned and printed. -/
theorem foldlM_put_printed {n : ℕ} (h : kept false bytes < n) :
    ∃ u s, bytes.foldlM Token.put ⟨false, 0, List.replicate n 0⟩ = .ok u
      ∧ printed u.out = .ok s := by
  have hroom : 0 + kept false bytes ≤ (List.replicate n (0 : UInt8)).length := by
    rw [List.length_replicate, Nat.zero_add]
    exact h.le
  obtain ⟨u, hu, hbehind⟩ := foldlM_put_kept bytes false 0 (List.replicate n 0) hroom
  have hlast : u.out[n - 1]? = some 0 := by
    rw [hbehind (n - 1) (by omega), List.getElem?_replicate, if_pos (by omega)]
  have hmem : (0 : UInt8) ∈ u.out.drop 0 := List.mem_of_getElem? hlast
  refine ⟨u, (CString.ofBytes (u.out.drop 0)).bytes, hu, ?_⟩
  unfold printed stringAt
  rw [if_pos hmem]

/-- The NUL behind a line. -/
theorem exists_lineBuffer (line : List UInt8) (h : line.length ≤ 127) :
    ∃ rest, lineBuffer line = lineText line ++ 0 :: rest := by
  have hzeros : List.replicate (BUFFER_LENGTH - line.length) (0 : UInt8)
      = 0 :: List.replicate (127 - line.length) 0 := by
    rw [← List.replicate_succ]
    congr 1
    unfold BUFFER_LENGTH
    omega
  unfold lineBuffer lineText
  rw [hzeros]
  by_cases hmem : (0 : UInt8) ∈ line
  · obtain ⟨before, after, rfl, hbefore⟩ := List.eq_append_cons_of_mem hmem
    rw [takeWhile_ne_zero_append (fun b hb h0 => hbefore (h0 ▸ hb)),
      List.takeWhile_cons_of_neg (by simp), List.append_nil, List.append_assoc, List.cons_append]
    exact ⟨_, rfl⟩
  · rw [takeWhile_ne_zero_self (fun b hb h0 => hmem (h0 ▸ hb))]
    exact ⟨_, rfl⟩

/-- **When a line is scanned safely.** -/
theorem scans_safely_iff {line : List UInt8} (h : line.length ≤ 127) :
    ScansSafely line ↔ LineScans (lineText line) := by
  obtain ⟨rest, hbuffer⟩ := exists_lineBuffer line h
  unfold ScansSafely LineScans parserToken parserAccesses
  rw [hbuffer]
  generalize lineText line = text
  by_cases hshort : text.length < MIN_TOKEN_LENGTH
  · rw [if_pos hshort, if_pos hshort]
    exact iff_of_true ⟨⟨_, rfl⟩, fun a ha => absurd ha List.not_mem_nil⟩ (Or.inl hshort)
  rw [if_neg hshort, if_neg hshort, or_iff_right hshort, List.forall_mem_append]
  have hname := nameAccesses_inside text rest 0 false (show 0 < NAME_LENGTH by decide)
  rw [Nat.zero_add, Nat.zero_add, kept_false] at hname
  rw [hname]
  by_cases hfits : 44 ∈ text ∧ (keeps (text.takeWhile (· ≠ 44))).length < NAME_LENGTH
  · rw [and_iff_right hfits, ← and_assoc, and_iff_right hfits]
    obtain ⟨before, after, rfl, hbefore⟩ := List.eq_append_cons_of_mem hfits.1
    have hcomma : ∀ b ∈ before, b ≠ 44 := fun b hb h44 => hbefore (h44 ▸ hb)
    have htake : (before ++ 44 :: after).takeWhile (· ≠ 44) = before := by
      rw [List.takeWhile_append_of_pos (by simpa using hcomma), List.takeWhile_cons_of_neg (by simp),
        List.append_nil]
    have hdrop : (before ++ 44 :: after).dropWhile (· ≠ 44) = 44 :: after := by
      rw [List.dropWhile_append_of_pos (by simpa using hcomma), List.dropWhile_cons_of_neg (by simp)]
    have hrest : ((before ++ 44 :: after ++ 0 :: rest).take (before ++ 44 :: after).length).drop
        before.length = 44 :: after := by
      rw [List.take_left, List.drop_left]
    rw [htake] at hfits
    rw [hdrop, ← kept_false]
    obtain ⟨t, name, ht, hprinted⟩ := foldlM_put_printed (kept_false before ▸ hfits.2)
    have hloop : nameLoop (before ++ 44 :: after ++ 0 :: rest) 0
        ⟨false, 0, List.replicate NAME_LENGTH 0⟩ = .ok (before.length, t) := by
      rw [List.append_assoc, List.cons_append, nameLoop_eq hcomma, ht, Nat.zero_add]
      rfl
    rw [hloop]
    dsimp only
    rw [hrest, phoneAccesses_inside (by simp) (by decide), Nat.zero_add, and_iff_right_iff_imp]
    intro hphone
    obtain ⟨u, phone, hu, hprinted'⟩ := foldlM_put_printed hphone
    have hsecond : (((before ++ 44 :: after ++ 0 :: rest).take (before ++ 44 :: after).length).drop
        before.length).foldlM Token.put ⟨false, 0, List.replicate PHONE_LENGTH 0⟩ = .ok u := by
      rw [hrest, hu]
    exact ⟨_, bind_ok rfl (bind_ok hsecond (bind_ok hprinted (bind_ok hprinted' rfl)))⟩
  · exact iff_of_false (fun hsafe => hfits hsafe.2.1) (fun hscans => hfits ⟨hscans.1, hscans.2.1⟩)

/-! ## What a line is scanned into -/

/-- Behind a blank, blanks make no difference. -/
theorem foldlM_put_filter {t : Token} (ht : t.status = true) :
    bytes.foldlM Token.put t = (bytes.filter (· ≠ 32)).foldlM Token.put t := by
  induction bytes generalizing t with
  | nil => rfl
  | cons c bytes ih =>
    by_cases hblank : c = 32
    · have hput : t.put c = .ok t := by
        unfold Token.put
        rw [if_pos hblank, ← ht]
      rw [List.foldlM_cons, hput, List.filter_cons_of_neg (by simpa using hblank)]
      exact ih ht
    · rw [List.filter_cons_of_pos (by simpa using hblank), List.foldlM_cons, List.foldlM_cons]
      cases hput : t.put c with
      | error f => rfl
      | ok u =>
        have hu : u.status = true := by
          unfold Token.put at hput
          rw [if_neg hblank, if_pos ht] at hput
          split at hput
          · exact Except.ok.inj hput ▸ ht
          · cases hput
        exact ih hu

/-- **A field is what is kept**, and NULs behind it, unless more is kept than it has room for. -/
theorem foldlM_put_cases (bytes : List UInt8) (n : ℕ) :
    (keeps bytes).length ≤ n
        ∧ (∃ u, bytes.foldlM Token.put ⟨false, 0, List.replicate n 0⟩ = .ok u
          ∧ u.out = keeps bytes ++ List.replicate (n - (keeps bytes).length) 0)
      ∨ n < (keeps bytes).length
        ∧ bytes.foldlM Token.put ⟨false, 0, List.replicate n 0⟩ = .error .overflow := by
  have hbefore : ∀ b ∈ bytes.takeWhile (· ≠ 32), b ≠ 32 := fun b hb => by
    simpa using List.mem_takeWhile_imp hb
  have hskip : bytes.foldlM Token.put ⟨false, 0, List.replicate n 0⟩
      = (bytes.dropWhile (· ≠ 32)).foldlM Token.put ⟨false, 0, List.replicate n 0⟩ := by
    conv_lhs => rw [← List.takeWhile_append_dropWhile (p := (· ≠ 32)) (l := bytes)]
    rw [List.foldlM_append, foldlM_put_skip hbefore rfl]
    rfl
  rw [hskip]
  unfold keeps
  cases hdrop : bytes.dropWhile (· ≠ 32) with
  | nil => exact Or.inl ⟨Nat.zero_le n, _, rfl, rfl⟩
  | cons c rest =>
    -- the first byte that is left is the blank
    obtain rfl : c = 32 := by
      have hhead := List.head?_dropWhile_not (· ≠ 32) bytes
      rw [hdrop] at hhead
      simpa using hhead
    have hput : (32 :: rest).foldlM Token.put ⟨false, 0, List.replicate n 0⟩
        = (rest.filter (· ≠ 32)).foldlM Token.put (Token.holding [] n) :=
      (foldlM_put_filter rfl : rest.foldlM Token.put (Token.holding [] n) = _)
    have hkept : (32 :: rest).filter (· ≠ 32) = rest.filter (· ≠ 32) :=
      List.filter_cons_of_neg (by simp)
    rw [hput, hkept, foldlM_put (fun b hb => of_decide_eq_true (List.mem_filter.mp hb).2)]
    by_cases hroom : (rest.filter (· ≠ 32)).length ≤ n
    · rw [if_pos hroom]
      exact Or.inl ⟨hroom, _, rfl, rfl⟩
    · rw [if_neg hroom]
      exact Or.inr ⟨not_le.mp hroom, rfl⟩

/-- The string in what was kept: it may hold a NUL itself. -/
theorem stringAt_kept (w : List UInt8) (m : ℕ) :
    stringAt (w ++ List.replicate m 0) 0
      = if 0 < m ∨ 0 ∈ w then some (CString.ofBytes w) else none := by
  have hmem : (0 : UInt8) ∈ w ++ List.replicate m 0 ↔ 0 < m ∨ 0 ∈ w := by
    rw [List.mem_append, List.mem_replicate, or_comm, and_iff_left rfl, Nat.pos_iff_ne_zero]
  unfold stringAt
  rw [List.drop_zero, CString.ofBytes_append_replicate]
  exact if_congr hmem rfl rfl

/-- Without a comma, the first loop does not end inside memory. -/
theorem nameLoop_error (h : 44 ∉ bytes) (i : ℕ) (t : Token) :
    ∃ f, nameLoop bytes i t = .error f := by
  induction bytes generalizing i t with
  | nil => exact ⟨_, rfl⟩
  | cons c bytes ih =>
    have hc : c ≠ 44 := fun he => h (he ▸ List.mem_cons_self)
    have hbytes : 44 ∉ bytes := fun hmem => h (List.mem_cons_of_mem c hmem)
    unfold nameLoop
    rw [if_neg hc]
    cases t.put c with
    | error f => exact ⟨f, rfl⟩
    | ok u => exact ih hbytes (i + 1) u

/-- The second loop goes on from the comma to the end of the string. -/
theorem take_drop_lineBuffer {before after : List UInt8} (h : ∀ b ∈ before, b ≠ 44) :
    ((lineBuffer (before ++ 44 :: after)).take (lineText (before ++ 44 :: after)).length).drop
        before.length
      = (lineText (before ++ 44 :: after)).dropWhile (· ≠ 44) := by
  have htake : (lineBuffer (before ++ 44 :: after)).take (lineText (before ++ 44 :: after)).length
      = lineText (before ++ 44 :: after) := by
    unfold lineBuffer
    exact List.prefix_iff_eq_take.mp
      ((List.takeWhile_prefix _).trans (List.prefix_append _ _)) |>.symm
  rw [htake]
  unfold lineText
  by_cases h0 : (0 : UInt8) ∈ before
  · obtain ⟨w, v, rfl, hw⟩ := List.eq_append_cons_of_mem h0
    have hne : ∀ b ∈ w, b ≠ 0 := fun b hb he => hw (he ▸ hb)
    rw [List.append_assoc, takeWhile_ne_zero_append hne, List.cons_append,
      List.takeWhile_cons_of_neg (by simp), List.append_nil,
      List.drop_eq_nil_of_le (by rw [List.length_append]; omega),
      List.dropWhile_eq_nil_iff.mpr (fun b hb => by
        simpa using h b (List.mem_append_left _ hb))]
  · have hne : ∀ b ∈ before, b ≠ 0 := fun b hb he => h0 (he ▸ hb)
    rw [takeWhile_ne_zero_append hne, List.takeWhile_cons_of_pos (by decide), List.drop_left,
      List.dropWhile_append_of_pos (by simpa using h), List.dropWhile_cons_of_neg (by simp)]

/-- **With a comma**, `parser_token` scans what is before it and what goes on from it. -/
theorem parserToken_eq_of_comma {before after : List UInt8}
    (hlong : ¬ (lineText bytes).length < MIN_TOKEN_LENGTH) (hbytes : bytes = before ++ 44 :: after)
    (hne : ∀ b ∈ before, b ≠ 44) :
    parserToken (lineBuffer bytes) (lineText bytes).length (List.replicate NAME_LENGTH 0)
        (List.replicate PHONE_LENGTH 0)
      = (before.foldlM Token.put ⟨false, 0, List.replicate NAME_LENGTH 0⟩ >>= fun t =>
        ((lineText bytes).dropWhile (· ≠ 44)).foldlM Token.put
            ⟨false, 0, List.replicate PHONE_LENGTH 0⟩ >>= fun u =>
          printed t.out >>= fun _ => printed u.out >>= fun _ => .ok (0, t.out, u.out)) := by
  have hloop : nameLoop (lineBuffer bytes) 0 ⟨false, 0, List.replicate NAME_LENGTH 0⟩
      = (before.foldlM Token.put ⟨false, 0, List.replicate NAME_LENGTH 0⟩).map
        (fun t => (before.length, t)) := by
    unfold lineBuffer
    rw [hbytes, List.append_assoc, List.cons_append, nameLoop_eq hne, Nat.zero_add]
  unfold parserToken
  rw [if_neg hlong, hloop]
  cases before.foldlM Token.put ⟨false, 0, List.replicate NAME_LENGTH 0⟩ with
  | error f => rfl
  | ok t =>
    show (((lineBuffer bytes).take (lineText bytes).length).drop before.length).foldlM Token.put _
      >>= _ = _
    rw [hbytes, take_drop_lineBuffer hne]
    rfl

/-- Nothing stops the first loop in a line without a comma. -/
theorem parserToken_error_of_notMem (hlong : ¬ (lineText bytes).length < MIN_TOKEN_LENGTH)
    (hcomma : 44 ∉ bytes) (name phone : List UInt8) :
    ∃ f, parserToken (lineBuffer bytes) (lineText bytes).length name phone = .error f := by
  have hbuffer : 44 ∉ lineBuffer bytes := by
    unfold lineBuffer
    rw [List.mem_append, List.mem_replicate, not_or]
    exact ⟨hcomma, fun h => absurd h.2 (by decide)⟩
  obtain ⟨f, hf⟩ := nameLoop_error hbuffer 0 ⟨false, 0, name⟩
  refine ⟨f, ?_⟩
  unfold parserToken
  rw [if_neg hlong, hf]
  rfl

/-- What comes behind the comma and is kept has no NUL. -/
theorem zero_notMem_linePhone (bytes : List UInt8) : (0 : UInt8) ∉ linePhone bytes := by
  intro h0
  have hmem := (List.dropWhile_sublist _).mem ((List.dropWhile_sublist _).mem
    (List.mem_of_mem_filter h0))
  simpa using List.mem_takeWhile_imp hmem

/-- **What is scanned of a line** that is not too short: what is kept on either side of the
comma, if the line can be got over, and nothing otherwise. -/
theorem parserToken_cases (hlong : ¬ (lineText bytes).length < MIN_TOKEN_LENGTH) :
    LineLoads bytes ∧ (∃ name phone,
        parserToken (lineBuffer bytes) (lineText bytes).length (List.replicate NAME_LENGTH 0)
          (List.replicate PHONE_LENGTH 0) = .ok (0, name, phone)
        ∧ stringAt name 0 = some (CString.ofBytes (lineName bytes))
        ∧ stringAt phone 0 = some (CString.ofBytes (linePhone bytes)))
      ∨ ¬ LineLoads bytes ∧ ∃ f,
        parserToken (lineBuffer bytes) (lineText bytes).length (List.replicate NAME_LENGTH 0)
          (List.replicate PHONE_LENGTH 0) = .error f := by
  unfold LineLoads
  rw [or_iff_right hlong]
  by_cases hcomma : 44 ∈ bytes
  swap
  · exact Or.inr ⟨fun h => hcomma h.1, parserToken_error_of_notMem hlong hcomma _ _⟩
  rw [and_iff_right hcomma]
  obtain ⟨before, after, hbytes, hbefore⟩ := List.eq_append_cons_of_mem hcomma
  have hne : ∀ b ∈ before, b ≠ 44 := fun b hb h44 => hbefore (h44 ▸ hb)
  have hname : lineName bytes = keeps before := by
    unfold lineName
    rw [hbytes, List.takeWhile_append_of_pos (by simpa using hne),
      List.takeWhile_cons_of_neg (by simp), List.append_nil]
  rw [parserToken_eq_of_comma hlong hbytes hne, hname]
  rcases foldlM_put_cases before NAME_LENGTH with ⟨hroom, t, ht, htout⟩ | ⟨hroom, herror⟩
  swap
  · exact Or.inr ⟨fun h => by omega, _, by rw [herror]; rfl⟩
  rcases foldlM_put_cases ((lineText bytes).dropWhile (· ≠ 44)) PHONE_LENGTH with
    ⟨hroom', u, hu, huout⟩ | ⟨hroom', herror⟩
  swap
  · exact Or.inr ⟨fun h => absurd h.2 (not_lt.mpr hroom'.le), _, by rw [ht, herror]; rfl⟩
  change u.out = linePhone bytes ++ List.replicate (PHONE_LENGTH - (linePhone bytes).length) 0
    at huout
  have hstring := stringAt_kept (keeps before) (NAME_LENGTH - (keeps before).length)
  have hstring' := stringAt_kept (linePhone bytes) (PHONE_LENGTH - (linePhone bytes).length)
  rw [← htout] at hstring
  rw [← huout] at hstring'
  by_cases hfits : 0 < NAME_LENGTH - (keeps before).length ∨ 0 ∈ keeps before
  swap
  · rw [if_neg hfits] at hstring
    refine Or.inr ⟨fun h => hfits (h.1.imp (by omega) And.right), .overread, ?_⟩
    rw [ht, hu]
    show (printed t.out >>= _) = _
    rw [printed_of_none hstring]
    rfl
  rw [if_pos hfits] at hstring
  by_cases hfits' : (linePhone bytes).length < PHONE_LENGTH
  · rw [if_pos (Or.inl (Nat.sub_pos_of_lt hfits'))] at hstring'
    refine Or.inl ⟨⟨?_, hfits'⟩, t.out, u.out, ?_, hstring, hstring'⟩
    · by_cases hlt : (keeps before).length < NAME_LENGTH
      · exact Or.inl hlt
      · exact Or.inr ⟨by omega, hfits.resolve_left (by omega)⟩
    · exact bind_ok ht (bind_ok hu (bind_ok (printed_of_stringAt hstring)
        (bind_ok (printed_of_stringAt hstring') rfl)))
  · rw [if_neg (not_or.mpr ⟨by omega, zero_notMem_linePhone bytes⟩)] at hstring'
    refine Or.inr ⟨fun h => hfits' h.2, .overread, ?_⟩
    rw [ht, hu]
    show (printed t.out >>= fun _ => printed u.out >>= _) = _
    rw [printed_of_stringAt hstring, printed_of_none hstring']
    rfl

end

/-- A line of a name and a number. -/
theorem scans_safely_iff_line : ScansSafely (ascii "name: ann,phone: 1\n") :=
  (scans_safely_iff (by decide)).mpr (by decide)

/-- **A line without a comma is read past its end.** -/
theorem not_scans_safely : (ascii "hello\n").length ≤ 127 ∧ ¬ ScansSafely (ascii "hello\n") := by
  refine ⟨by decide, fun h => ?_⟩
  have hlong : ¬ (lineText (ascii "hello\n")).length < MIN_TOKEN_LENGTH := by decide
  obtain ⟨rest, hbuffer⟩ := exists_lineBuffer (ascii "hello\n") (by decide)
  have hinside := h.2
  unfold parserAccesses at hinside
  rw [if_neg hlong, hbuffer] at hinside
  have hname := (nameAccesses_inside (lineText (ascii "hello\n")) rest 0 false
    (show 0 < NAME_LENGTH by decide)).mp (by
      rw [Nat.zero_add]
      exact (List.forall_mem_append.mp hinside).1)
  exact absurd hname.1 (by decide)

end Contacts
