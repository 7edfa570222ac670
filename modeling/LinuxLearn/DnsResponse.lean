import LinuxLearn.DnsPointers

/-!
# Reading a response

`dns_parse_response` goes through a response with one pointer: it skips the
questions, and takes from each answer record its owner's name, its type and
the length of its data. The data of a CNAME record is read as a name, four
bytes of an A record are an address; behind these two types the data is
skipped, and behind the others it is not.

`Scans` says what is found from a place on, `Skips` where a question ends, and
`RecordsFit` where records have to lie for the function to stay inside the
response of 1024 bytes and the buffers for names (`parses_inside_iff`).
Nothing in the function looks at the length of the datagram, so nothing here
does: memory is what it is, in the response and behind it.
-/

namespace Dns

/-- `DNS_HOST`. -/
def DNS_HOST : UInt16 := 1

/-- `DNS_CNAME`. -/
def DNS_CNAME : UInt16 := 5

/-- **`struct dns_item`**: two strings. -/
structure Item where
  domain : List UInt8
  /-- The address, as text. -/
  ip : List UInt8
deriving DecidableEq

/-- A byte in decimal. -/
def decimal (b : UInt8) : List UInt8 :=
  if b < 10 then [48 + b]
  else if b < 100 then [48 + b / 10, 48 + b % 10]
  else [48 + b / 100, 48 + b / 10 % 10, 48 + b % 10]

/-- `inet_ntop` of an address of four bytes. -/
def inetNtop (netip : List UInt8) : List UInt8 := [46].intercalate (netip.map decimal)

/-- The loop that skips the name of a question: where it stops. -/
def skipName (buffer : Bytes) : ℕ → ℕ → Option (ℕ × List Access)
  | 0, _ => none
  | fuel + 1, ptr =>
    let flag := buffer ptr
    let next := ptr + (flag.toNat + 1)
    if flag = 0 then some (next, [.read ptr])
    else do
      let (ptr', log) ← skipName buffer fuel next
      return (ptr', .read ptr :: log)

/-- The loop over the questions. -/
def skipQuestions (buffer : Bytes) (fuel : ℕ) : ℕ → ℕ → Option (ℕ × List Access)
  | 0, ptr => some (ptr, [])
  | querys + 1, ptr => do
    let (ptr, log) ← skipName buffer fuel ptr
    let (ptr, log') ← skipQuestions buffer fuel querys (ptr + 4)
    return (ptr, log ++ log')

/-- The fields of a record behind its owner: type, lifetime and length. -/
def fieldAccesses (ptr : ℕ) : List Access :=
  [ptr + 2, ptr + 3, ptr + 6, ptr + 7, ptr + 10, ptr + 11].map .read

/-- **One round of the loop over the answers**: the item that is added, if any, and where
the pointer stands. The memory for the two strings is not checked for. -/
def parseAnswer (buffer : Bytes) (fuel ptr : ℕ) : Option (Option Item × ℕ × List Access) := do
  let (aname, log) ← dnsParseName buffer fuel ptr ⟨fun _ => 0, 0⟩
  let type := buffer.net16 (ptr + 2)
  let datalen := (buffer.net16 (ptr + 10)).toNat
  let log := log ++ fieldAccesses ptr
  let ptr := ptr + 12
  if type = DNS_CNAME then
    let (_, log') ← dnsParseName buffer fuel ptr ⟨fun _ => 0, 0⟩
    return (none, ptr + datalen, log ++ log')
  else if type = DNS_HOST then
    if datalen = 4 then
      -- `strlen` stops at the first NUL of the name
      let item := ⟨(aname.out.load 0 128).takeWhile (· ≠ 0), inetNtop (buffer.load ptr 4)⟩
      return (some item, ptr + datalen, log ++ (List.range 4).map (fun i => .read (ptr + i)))
    else return (none, ptr + datalen, log)
  else return (none, ptr, log)

/-- The loop over the answers, with what is in `list`. -/
def parseAnswers (buffer : Bytes) (fuel : ℕ) : ℕ → ℕ → List Item → Option (List Item × List Access)
  | 0, _, list => some (list, [])
  | answers + 1, ptr, list => do
    let (item, ptr, log) ← parseAnswer buffer fuel ptr
    let (list, log') ← parseAnswers buffer fuel answers ptr (list ++ item.toList)
    return (list, log ++ log')

/-- **`dns_parse_response`**: what it returns, what `*domains` is if it is set, and the
indices it uses. `calloc` may find no memory for the list. -/
def dnsParseResponse (calloc : Bool) (buffer : Bytes) (fuel : ℕ) :
    Option ((ℤ × Option (List Item)) × List Access) := do
  let querys := (buffer.net16 4).toNat
  let answers := (buffer.net16 6).toNat
  let header := [4, 5, 6, 7].map .read
  let (ptr, log) ← skipQuestions buffer fuel querys 12
  if calloc then
    let (list, log') ← parseAnswers buffer fuel answers ptr []
    return ((list.length, some list), header ++ log ++ log')
  else return ((-1, none), header ++ log)

/-! ## Questions -/

/-- **The name of a question**, from its first byte to behind its last. -/
inductive Skips (m : Bytes) : ℕ → ℕ → Prop
  | root {p : ℕ} (h0 : m p = 0) : Skips m p (p + 1)
  | label {p e : ℕ} (h0 : m p ≠ 0) (h : Skips m (labelEnd m p) e) : Skips m p e

/-- **Questions**, from the first to behind the last. -/
inductive SkipsAll (m : Bytes) : ℕ → ℕ → ℕ → Prop
  | nil {p : ℕ} : SkipsAll m 0 p p
  | cons {n p q e : ℕ} (h : Skips m p q) (hrest : SkipsAll m n (q + 4) e) : SkipsAll m (n + 1) p e

section

variable {m : Bytes} {n p q e fuel : ℕ} {log : List Access}

theorem skipName_root (h0 : m p = 0) :
    skipName m (fuel + 1) p = some (p + 1, [.read p]) := by
  show (if m p = 0 then some (p + ((m p).toNat + 1), _) else _) = _
  rw [if_pos h0, h0]
  rfl

theorem skipName_label (h0 : m p ≠ 0) :
    skipName m (fuel + 1) p
      = (skipName m fuel (labelEnd m p)).map (fun r => (r.1, .read p :: r.2)) := by
  have hend : labelEnd m p = p + ((m p).toNat + 1) := by
    unfold labelEnd
    omega
  rw [skipName, Option.map_eq_bind, hend]
  exact if_neg h0

theorem Skips.lt (h : Skips m p e) : p < e := by
  induction h with
  | root => exact Nat.lt_succ_self _
  | label _ _ ih =>
    unfold labelEnd at ih
    omega

theorem skipName_of_skips (h : Skips m p e) :
    ∃ n, ∀ fuel, n ≤ fuel → ∃ log, skipName m fuel p = some (e, log) := by
  induction h with
  | root h0 =>
    refine ⟨1, fun fuel hfuel => ?_⟩
    obtain ⟨fuel, rfl⟩ := Nat.exists_eq_add_of_le' hfuel
    exact ⟨_, skipName_root h0⟩
  | label h0 _ ih =>
    obtain ⟨n, hn⟩ := ih
    refine ⟨n + 1, fun fuel hfuel => ?_⟩
    obtain ⟨fuel, rfl⟩ := Nat.exists_eq_add_of_le' (le_trans (Nat.le_add_left 1 n) hfuel)
    obtain ⟨log, hlog⟩ := hn fuel (by omega)
    exact ⟨_, by rw [skipName_label h0, hlog, Option.map_some]⟩

/-- **A name that is skipped is read up to its end.** -/
theorem skips_of_skipName (size : ℕ) (h : skipName m fuel p = some (e, log)) :
    Skips m p e ∧ ((∀ a ∈ log, a.Inside size) ↔ e ≤ size) := by
  induction fuel generalizing p log with
  | zero => cases h
  | succ fuel ih =>
    by_cases h0 : m p = 0
    · rw [skipName_root h0] at h
      cases h
      exact ⟨.root h0, List.forall_mem_singleton⟩
    · rw [skipName_label h0] at h
      obtain ⟨r, hr, he⟩ := Option.map_eq_some_iff.mp h
      cases he
      obtain ⟨hskips, hin⟩ := ih hr
      have hp : p < r.1 := by
        have hlt := hskips.lt
        unfold labelEnd at hlt
        omega
      rw [List.forall_mem_cons, hin]
      exact ⟨.label h0 hskips, and_iff_right_of_imp (fun hle => lt_of_lt_of_le hp hle)⟩

theorem SkipsAll.le (h : SkipsAll m n p e) : p ≤ e := by
  induction h with
  | nil => exact le_rfl
  | cons h _ ih =>
    have hlt := h.lt
    omega

theorem skipQuestions_of_skipsAll (h : SkipsAll m n p e) :
    ∃ k, ∀ fuel, k ≤ fuel → ∃ log, skipQuestions m fuel n p = some (e, log) := by
  induction h with
  | nil => exact ⟨0, fun _ _ => ⟨_, rfl⟩⟩
  | cons h _ ih =>
    obtain ⟨k, hk⟩ := skipName_of_skips h
    obtain ⟨k', hk'⟩ := ih
    refine ⟨max k k', fun fuel hfuel => ?_⟩
    obtain ⟨log, hlog⟩ := hk fuel (le_of_max_le_left hfuel)
    obtain ⟨log', hlog'⟩ := hk' fuel (le_of_max_le_right hfuel)
    exact ⟨_, bind_of_eq hlog (bind_of_eq hlog' rfl)⟩

/-- **Questions that are skipped are read up to the last name's end.** -/
theorem skipsAll_of_skipQuestions (size : ℕ) (h : skipQuestions m fuel n p = some (e, log)) :
    SkipsAll m n p e ∧ ((∀ a ∈ log, a.Inside size) ↔ n = 0 ∨ e ≤ size + 4) := by
  induction n generalizing p log with
  | zero =>
    cases h
    exact ⟨.nil, iff_of_true (fun a ha => absurd ha List.not_mem_nil) (Or.inl rfl)⟩
  | succ n ih =>
    obtain ⟨⟨q, log₁⟩, hname, h⟩ := Option.bind_eq_some_iff.mp h
    obtain ⟨⟨e', log₂⟩, hrest, h⟩ := Option.bind_eq_some_iff.mp h
    cases h
    obtain ⟨hskips, hin⟩ := skips_of_skipName size hname
    obtain ⟨hall, hinall⟩ := ih hrest
    refine ⟨.cons hskips hall, ?_⟩
    rw [List.forall_mem_append, hin, hinall, or_iff_right (Nat.succ_ne_zero n)]
    have hle := hall.le
    cases hall with
    | nil => omega
    | cons => omega

/-! ## Records -/

/-- `type`. -/
def recordType (m : Bytes) (p : ℕ) : UInt16 := m.net16 (p + 2)

/-- `datalen`. -/
def dataLength (m : Bytes) (p : ℕ) : ℕ := (m.net16 (p + 10)).toNat

/-- A record that is an item: an A record with four bytes of data. -/
def IsAddress (m : Bytes) (p : ℕ) : Prop := recordType m p = DNS_HOST ∧ dataLength m p = 4

instance (m : Bytes) : DecidablePred (IsAddress m) := fun _ => inferInstanceAs (Decidable (_ ∧ _))

/-- Where the pointer stands behind a record: the data is skipped of two types only. -/
def nextRecord (m : Bytes) (p : ℕ) : ℕ :=
  if recordType m p = DNS_CNAME ∨ recordType m p = DNS_HOST then p + 12 + dataLength m p else p + 12

/-- The item of a record whose owner's name spells a text. -/
def itemAt (m : Bytes) (p : ℕ) (t : List UInt8) : Option Item :=
  if IsAddress m p then
    some ⟨((Bytes.ofList t).load 0 128).takeWhile (· ≠ 0), inetNtop (m.load (p + 12) 4)⟩
  else none

/-- **What is found in records** from a place on. -/
inductive Scans (m : Bytes) : ℕ → ℕ → List Item → Prop
  | nil {p : ℕ} : Scans m 0 p []
  | cons {n p : ℕ} {t : List UInt8} {items : List Item} (howner : Spells m p t)
    (hcname : recordType m p = DNS_CNAME → ∃ t', Spells m (p + 12) t')
    (hrest : Scans m n (nextRecord m p) items) :
    Scans m (n + 1) p ((itemAt m p t).toList ++ items)

/-- **A name that can be read**: it lies in the response, and what it spells fits the buffer
for it. -/
def NameFits (m : Bytes) (p : ℕ) : Prop := Within m 1024 p ∧ ∃ t, Spells m p t ∧ t.length ≤ 128

/-- **A record that can be read**. -/
structure RecordFits (m : Bytes) (p : ℕ) : Prop where
  owner : NameFits m p
  fields : p + 12 ≤ 1024
  cname : recordType m p = DNS_CNAME → NameFits m (p + 12)
  address : IsAddress m p → p + 16 ≤ 1024

/-- Records that can be read, from a place on. -/
def RecordsFit (m : Bytes) : ℕ → ℕ → Prop
  | 0, _ => True
  | n + 1, p => RecordFits m p ∧ RecordsFit m n (nextRecord m p)

theorem parseName_inside_zero {t : List UInt8} {buf : NameBuf}
    (h : dnsParseName m fuel p ⟨fun _ => 0, 0⟩ = some (buf, log)) (ht : Spells m p t) :
    (∀ a ∈ log, a.Inside 1024) ↔ NameFits m p := by
  rw [parseName_inside h ht (Nat.zero_le 128), Nat.zero_add]
  refine and_congr_right (fun _ => ⟨fun hle => ⟨t, ht, hle⟩, ?_⟩)
  rintro ⟨t', ht', hle⟩
  rwa [ht.unique ht']

theorem fieldAccesses_inside : (∀ a ∈ fieldAccesses p, a.Inside 1024) ↔ p + 12 ≤ 1024 := by
  unfold fieldAccesses
  simp only [List.map_cons, List.map_nil, List.forall_mem_cons, Access.Inside]
  constructor
  · rintro ⟨-, -, -, -, -, h, -⟩
    omega
  · intro h
    exact ⟨by omega, by omega, by omega, by omega, by omega, by omega,
      fun a ha => absurd ha List.not_mem_nil⟩

/-- What a round reads of an address. -/
def addressAccesses (m : Bytes) (p : ℕ) : List Access :=
  if IsAddress m p then (List.range 4).map (fun i => .read (p + 12 + i)) else []

theorem addressAccesses_inside :
    (∀ a ∈ addressAccesses m p, a.Inside 1024) ↔ (IsAddress m p → p + 16 ≤ 1024) := by
  unfold addressAccesses
  split
  · next ha =>
    rw [List.forall_mem_map]
    simp only [List.mem_range, Access.Inside]
    constructor
    · intro hdata _
      have hlast := hdata 3 (by decide)
      omega
    · intro hdata i hi
      have hend := hdata ha
      omega
  · next ha => exact iff_of_true (fun a h => absurd h List.not_mem_nil) (fun h => absurd h ha)

/-- A round with a CNAME record. -/
theorem parseAnswer_cname {t : List UInt8} {cname : NameBuf} {log' : List Access}
    (hname : dnsParseName m fuel p ⟨fun _ => 0, 0⟩ = some (NameBuf.put ⟨fun _ => 0, 0⟩ t, log))
    (hc : recordType m p = DNS_CNAME)
    (hcname : dnsParseName m fuel (p + 12) ⟨fun _ => 0, 0⟩ = some (cname, log')) :
    parseAnswer m fuel p
      = some (itemAt m p t, nextRecord m p, log ++ fieldAccesses p ++ log') := by
  have hnot : ¬ IsAddress m p := fun h => absurd (hc.symm.trans h.1) (by decide)
  unfold itemAt nextRecord
  rw [if_neg hnot, if_pos (Or.inl hc)]
  exact bind_of_eq hname ((if_pos hc).trans (bind_of_eq hcname rfl))

/-- A round with another record. -/
theorem parseAnswer_other {t : List UInt8}
    (hname : dnsParseName m fuel p ⟨fun _ => 0, 0⟩ = some (NameBuf.put ⟨fun _ => 0, 0⟩ t, log))
    (hc : recordType m p ≠ DNS_CNAME) :
    parseAnswer m fuel p
      = some (itemAt m p t, nextRecord m p, log ++ fieldAccesses p ++ addressAccesses m p) := by
  have hout : (NameBuf.put ⟨fun _ => 0, 0⟩ t).out = Bytes.ofList t := Bytes.store_zero t
  unfold itemAt nextRecord addressAccesses
  by_cases hh : recordType m p = DNS_HOST
  · rw [if_pos (Or.inr hh)]
    by_cases h4 : dataLength m p = 4
    · rw [if_pos ⟨hh, h4⟩, if_pos ⟨hh, h4⟩, ← hout]
      exact bind_of_eq hname ((if_neg hc).trans ((if_pos hh).trans (if_pos h4)))
    · have hnot : ¬ IsAddress m p := fun h => h4 h.2
      rw [if_neg hnot, if_neg hnot, List.append_nil]
      exact bind_of_eq hname ((if_neg hc).trans ((if_pos hh).trans (if_neg h4)))
  · have hnot : ¬ IsAddress m p := fun h => hh h.1
    rw [if_neg hnot, if_neg hnot, if_neg (not_or.mpr ⟨hc, hh⟩), List.append_nil]
    exact bind_of_eq hname ((if_neg hc).trans (if_neg hh))

/-- **A round of the loop**, if the names it reads come to an end. -/
theorem parseAnswer_of_spells {t : List UInt8} (howner : Spells m p t)
    (hcname : recordType m p = DNS_CNAME → ∃ t', Spells m (p + 12) t') :
    ∃ k, ∀ fuel, k ≤ fuel → ∃ log,
      parseAnswer m fuel p = some (itemAt m p t, nextRecord m p, log) := by
  obtain ⟨k, hk⟩ := parseName_of_spells howner
  by_cases hc : recordType m p = DNS_CNAME
  · obtain ⟨t', ht'⟩ := hcname hc
    obtain ⟨k', hk'⟩ := parseName_of_spells ht'
    refine ⟨max k k', fun fuel hfuel => ?_⟩
    obtain ⟨log, hlog⟩ := hk fuel (le_of_max_le_left hfuel) ⟨fun _ => 0, 0⟩
    obtain ⟨log', hlog'⟩ := hk' fuel (le_of_max_le_right hfuel) ⟨fun _ => 0, 0⟩
    exact ⟨_, parseAnswer_cname hlog hc hlog'⟩
  · refine ⟨k, fun fuel hfuel => ?_⟩
    obtain ⟨log, hlog⟩ := hk fuel hfuel ⟨fun _ => 0, 0⟩
    exact ⟨_, parseAnswer_other hlog hc⟩

/-- **What a round does**, and when it stays inside its arrays. -/
theorem spells_of_parseAnswer {item : Option Item} (h : parseAnswer m fuel p = some (item, q, log)) :
    ∃ t, Spells m p t ∧ (recordType m p = DNS_CNAME → ∃ t', Spells m (p + 12) t')
      ∧ item = itemAt m p t ∧ q = nextRecord m p
      ∧ ((∀ a ∈ log, a.Inside 1024) ↔ RecordFits m p) := by
  obtain ⟨⟨aname, log₁⟩, hname, hrest⟩ := Option.bind_eq_some_iff.mp h
  obtain ⟨t, ht, rfl⟩ := spells_of_parseName hname
  by_cases hc : recordType m p = DNS_CNAME
  · obtain ⟨⟨cname, log₂⟩, hcname, -⟩ := Option.bind_eq_some_iff.mp ((if_pos hc).symm.trans hrest)
    obtain ⟨t', ht', -⟩ := spells_of_parseName hcname
    have hnot : ¬ IsAddress m p := fun h => absurd (hc.symm.trans h.1) (by decide)
    cases (parseAnswer_cname hname hc hcname).symm.trans h
    refine ⟨t, ht, fun _ => ⟨t', ht'⟩, rfl, rfl, ?_⟩
    rw [List.forall_mem_append, List.forall_mem_append, parseName_inside_zero hname ht,
      fieldAccesses_inside, parseName_inside_zero hcname ht']
    constructor
    · rintro ⟨⟨howner, hfields⟩, hfits⟩
      exact ⟨howner, hfields, fun _ => hfits, fun h => absurd h hnot⟩
    · exact fun h => ⟨⟨h.owner, h.fields⟩, h.cname hc⟩
  · cases (parseAnswer_other hname hc).symm.trans h
    refine ⟨t, ht, fun hc' => absurd hc' hc, rfl, rfl, ?_⟩
    rw [List.forall_mem_append, List.forall_mem_append, parseName_inside_zero hname ht,
      fieldAccesses_inside, addressAccesses_inside]
    constructor
    · rintro ⟨⟨howner, hfields⟩, haddress⟩
      exact ⟨howner, hfields, fun hc' => absurd hc' hc, haddress⟩
    · exact fun h => ⟨⟨h.owner, h.fields⟩, h.address⟩

/-- **What is found is added to the list.** -/
theorem parseAnswers_of_scans {items : List Item} (h : Scans m n p items) :
    ∃ k, ∀ fuel, k ≤ fuel → ∀ list, ∃ log,
      parseAnswers m fuel n p list = some (list ++ items, log) := by
  induction h with
  | nil => exact ⟨0, fun _ _ list => ⟨[], by rw [List.append_nil]; rfl⟩⟩
  | @cons n p t items howner hcname _ ih =>
    obtain ⟨k, hk⟩ := parseAnswer_of_spells howner hcname
    obtain ⟨k', hk'⟩ := ih
    refine ⟨max k k', fun fuel hfuel list => ?_⟩
    obtain ⟨log, hlog⟩ := hk fuel (le_of_max_le_left hfuel)
    obtain ⟨log', hlog'⟩ := hk' fuel (le_of_max_le_right hfuel) (list ++ (itemAt m p t).toList)
    rw [← List.append_assoc]
    exact ⟨_, bind_of_eq hlog (bind_of_eq hlog' rfl)⟩

/-- **What is added to the list is what is found**, and the loop stays inside its arrays if
the records can be read. -/
theorem scans_of_parseAnswers {list list' : List Item}
    (h : parseAnswers m fuel n p list = some (list', log)) :
    ∃ items, Scans m n p items ∧ list' = list ++ items
      ∧ ((∀ a ∈ log, a.Inside 1024) ↔ RecordsFit m n p) := by
  induction n generalizing p list log with
  | zero =>
    cases h
    exact ⟨[], .nil, (List.append_nil _).symm,
      iff_of_true (fun a ha => absurd ha List.not_mem_nil) trivial⟩
  | succ n ih =>
    obtain ⟨⟨item, q, log₁⟩, hanswer, h⟩ := Option.bind_eq_some_iff.mp h
    obtain ⟨⟨list₂, log₂⟩, hrest, h⟩ := Option.bind_eq_some_iff.mp h
    cases h
    obtain ⟨t, ht, hcname, rfl, rfl, hin⟩ := spells_of_parseAnswer hanswer
    obtain ⟨items, hscans, rfl, hins⟩ := ih hrest
    refine ⟨_, .cons ht hcname hscans, List.append_assoc _ _ _, ?_⟩
    rw [List.forall_mem_append, hin, hins]
    exact Iff.rfl

/-! ## The response -/

/-- How many questions a response says it has. -/
def questionCount (m : Bytes) : ℕ := (m.net16 4).toNat

/-- How many answers. -/
def answerCount (m : Bytes) : ℕ := (m.net16 6).toNat

/-- **A response whose names come to an end is answered** with what is found in it. -/
theorem dnsParseResponse_of_scans {items : List Item} (hskips : SkipsAll m (questionCount m) 12 e)
    (hscans : Scans m (answerCount m) e items) :
    ∃ fuel log, dnsParseResponse true m fuel = some (((items.length : ℤ), some items), log) := by
  obtain ⟨k, hk⟩ := skipQuestions_of_skipsAll hskips
  obtain ⟨k', hk'⟩ := parseAnswers_of_scans hscans
  obtain ⟨log, hlog⟩ := hk (max k k') (le_max_left _ _)
  obtain ⟨log', hlog'⟩ := hk' (max k k') (le_max_right _ _) []
  exact ⟨max k k', _, bind_of_eq hlog (bind_of_eq hlog' rfl)⟩

/-- **What is answered**, and when the function stays inside its arrays. -/
theorem scans_of_dnsParseResponse {calloc : Bool} {r : ℤ × Option (List Item)}
    (h : dnsParseResponse calloc m fuel = some (r, log)) :
    ∃ e, SkipsAll m (questionCount m) 12 e
      ∧ (calloc = true →
        ∃ items, Scans m (answerCount m) e items ∧ r = ((items.length : ℤ), some items))
      ∧ ((∀ a ∈ log, a.Inside 1024)
        ↔ (questionCount m = 0 ∨ e ≤ 1028)
          ∧ (calloc = true → RecordsFit m (answerCount m) e)) := by
  obtain ⟨⟨e, log₁⟩, hskip, h⟩ := Option.bind_eq_some_iff.mp h
  obtain ⟨hskips, hin⟩ := skipsAll_of_skipQuestions 1024 hskip
  have hheader : ∀ a ∈ [4, 5, 6, 7].map Access.read, a.Inside 1024 := by
    simp only [List.map_cons, List.map_nil, List.forall_mem_cons, Access.Inside]
    exact ⟨by decide, by decide, by decide, by decide, fun a ha => absurd ha List.not_mem_nil⟩
  refine ⟨e, hskips, ?_⟩
  cases calloc with
  | true =>
    obtain ⟨⟨list, log₂⟩, hanswers, h⟩ := Option.bind_eq_some_iff.mp h
    cases h
    obtain ⟨items, hscans, hlist, hins⟩ := scans_of_parseAnswers hanswers
    obtain rfl : list = items := hlist
    refine ⟨fun _ => ⟨list, hscans, rfl⟩, ?_⟩
    rw [List.forall_mem_append, List.forall_mem_append, and_iff_right hheader, hin, hins]
    exact and_congr_right (fun _ => ⟨fun h _ => h, fun h => h rfl⟩)
  | false =>
    cases h
    refine ⟨fun h => absurd h Bool.false_ne_true, ?_⟩
    rw [List.forall_mem_append, and_iff_right hheader, hin]
    exact (and_iff_left (fun h => absurd h Bool.false_ne_true)).symm

/-! ## Staying inside -/

theorem Skips.unique {e' : ℕ} (h : Skips m p e) (h' : Skips m p e') : e = e' := by
  induction h with
  | root h0 =>
    cases h' with
    | root => rfl
    | label hne => exact absurd h0 hne
  | label h0 _ ih =>
    cases h' with
    | root h => exact absurd h h0
    | label _ h => exact ih h

theorem SkipsAll.unique {e' : ℕ} (h : SkipsAll m n p e) (h' : SkipsAll m n p e') : e = e' := by
  induction h with
  | nil =>
    cases h'
    rfl
  | cons h _ ih =>
    cases h' with
    | cons hq hrest =>
      obtain rfl := h.unique hq
      exact ih hrest

/-- **`dns_parse_response` stays inside** the response and the buffers for names. -/
def ParsesInside (calloc : Bool) (m : Bytes) : Prop :=
  ∀ fuel r log, dnsParseResponse calloc m fuel = some (r, log) → ∀ a ∈ log, a.Inside 1024

/-- **A response that can be read**: the name of the last question ends in it, and the
records that are come to behind the questions can be read. -/
def ResponseFits (calloc : Bool) (m : Bytes) : Prop :=
  ∃ e, SkipsAll m (questionCount m) 12 e ∧ (questionCount m = 0 ∨ e ≤ 1028)
    ∧ (calloc = true → RecordsFit m (answerCount m) e)

/-- **When parsing stays inside.** -/
theorem parses_inside_iff {calloc : Bool} (hends : ∃ fuel, dnsParseResponse calloc m fuel ≠ none) :
    ParsesInside calloc m ↔ ResponseFits calloc m := by
  constructor
  · intro hinside
    obtain ⟨fuel, hfuel⟩ := hends
    obtain ⟨⟨r, log⟩, hrun⟩ := Option.ne_none_iff_exists'.mp hfuel
    obtain ⟨e, hskips, -, hin⟩ := scans_of_dnsParseResponse hrun
    exact ⟨e, hskips, hin.mp (hinside fuel r log hrun)⟩
  · rintro ⟨e, hskips, hfits⟩ fuel r log hrun
    obtain ⟨e', hskips', -, hin⟩ := scans_of_dnsParseResponse hrun
    obtain rfl := hskips.unique hskips'
    exact hin.mpr hfits

end

/-- A response with one A record, of the root. -/
def rootAddress : List UInt8 :=
  [0, 0, 0, 0, 0, 0, 0, 1, 0, 0, 0, 0, 192, 4, 0, 1, 0, 1, 0, 0, 0, 0, 0, 4, 127, 0, 0, 1]

theorem parses_inside_iff_root : ParsesInside true (Bytes.ofList rootAddress) := by
  have hends : dnsParseResponse true (Bytes.ofList rootAddress) 2 ≠ none :=
    Option.ne_none_iff_isSome.mpr (by rfl)
  have howner : NameFits (Bytes.ofList rootAddress) 12 :=
    ⟨.pointer (by decide) (by decide) (.root (by decide) (by decide)),
      [], .pointer (by decide) (.root (by decide)), by decide⟩
  have hrecord : RecordFits (Bytes.ofList rootAddress) 12 :=
    ⟨howner, by decide, fun h => absurd h (by decide), fun _ => by decide⟩
  exact (parses_inside_iff ⟨2, hends⟩).mpr ⟨12, .nil, Or.inl rfl, fun _ => ⟨hrecord, trivial⟩⟩

/-- A response with one answer, whose owner begins with a label of 130 bytes. -/
def longLabel : List UInt8 := [0, 0, 0, 0, 0, 0, 0, 1, 0, 0, 0, 0, 130]

/-- **A name of more than 128 bytes is written past the end of its buffer.** -/
theorem not_parses_inside : longLabel.length ≤ 1024
    ∧ (∃ fuel, dnsParseResponse true (Bytes.ofList longLabel) fuel ≠ none)
    ∧ ¬ ParsesInside true (Bytes.ofList longLabel) := by
  have hend : labelEnd (Bytes.ofList longLabel) 12 = 143 := by decide
  have hroot : Bytes.ofList longLabel (labelEnd (Bytes.ofList longLabel) 12) = 0 := by
    rw [hend]
    rfl
  have howner : Spells (Bytes.ofList longLabel) 12 (labelText (Bytes.ofList longLabel) 12 ++ []) :=
    .label (by decide) (by decide) (.root hroot)
  have hscans : Scans (Bytes.ofList longLabel) (answerCount (Bytes.ofList longLabel)) 12 [] :=
    .cons howner (fun h => absurd h (by decide)) .nil
  obtain ⟨fuel, log, hrun⟩ := dnsParseResponse_of_scans .nil hscans
  refine ⟨by decide, ⟨fuel, Option.ne_none_iff_exists'.mpr ⟨_, hrun⟩⟩, fun hinside => ?_⟩
  obtain ⟨e, hskips, -, hin⟩ := scans_of_dnsParseResponse hrun
  obtain rfl : 12 = e := SkipsAll.unique .nil hskips
  obtain ⟨-, t, ht, hlen⟩ := ((hin.mp (hinside _ _ _ hrun)).2 rfl).1.owner
  obtain rfl := ht.unique howner
  unfold labelText at hlen
  rw [if_neg (not_not.mpr hroot)] at hlen
  simp only [List.append_nil, Bytes.length_load] at hlen
  exact absurd hlen (by decide)

end Dns
