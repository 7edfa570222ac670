import LinuxLearn.DList
import LinuxLearn.KvsProtocol

/-!
# The contacts

`contacts.cpp` keeps persons in a doubly linked list, saves them to a file,
a line for each, and loads them from one. A line is written by one format
string and read by a scanner of its own, which skips everything up to a blank
and takes everything after it: the name up to the first comma, and the phone
from there to the end of the line.

The writer puts a blank behind the comma, so the scanner takes the label
`phone:` for a part of the phone, and the line feed for another. What is loaded
is never what was saved, unless nothing was (`roundTrips_iff`). And it is
another run that loads it: `save_file` has no `return` behind `fclose`, which
is undefined in C++.
-/

namespace Contacts

open DList

/-- `NAME_LENGTH`. -/
def NAME_LENGTH : ℕ := 16

/-- `PHONE_LENGTH`. -/
def PHONE_LENGTH : ℕ := 32

/-- `BUFFER_LENGTH`. -/
def BUFFER_LENGTH : ℕ := 128

/-- `MIN_TOKEN_LENGTH`. -/
def MIN_TOKEN_LENGTH : ℕ := 5

/-- **`struct person`**, without its links: two arrays of bytes. -/
structure Person where
  name : List UInt8
  phone : List UInt8

/-- **`struct contacts`**, and the memory the persons are in. -/
structure Book where
  mem : Heap (Node Person)
  /-- The first person of the list, or null. -/
  people : Ptr
  /-- How many persons the list is said to have. -/
  count : ℤ

/-- **How the program can go wrong**: an array is written or read past its end, a
pointer is followed to where nothing is, a loop does not end, or a function that
has a result comes to its end without one. -/
inductive Fault where
  | overflow
  | overread
  | dangling
  | endless
  | noReturn
deriving DecidableEq

/-- **The language** the file is taken for: it is written like C, and built as C++. -/
inductive Dialect where
  | c
  | cpp
deriving DecidableEq

/-- **A function that has a result flows off its end**: in C it returns, with a value
that must not be used and is not; in C++ this is undefined. -/
def Dialect.flowOff : Dialect → Except Fault Unit
  | c => .ok ()
  | cpp => .error .noReturn

/-- A string is printed from the start of an array. -/
def printed (array : List UInt8) : Except Fault (List UInt8) :=
  match stringAt array 0 with
  | some s => .ok s.bytes
  | none => .error .overread

/-- What is printed of a terminated array is its string. -/
theorem printed_of_stringAt {array : List UInt8} {s : CString} (h : stringAt array 0 = some s) :
    printed array = .ok s.bytes := by
  unfold printed
  rw [h]

/-- What is printed of an array without a NUL goes past its end. -/
theorem printed_of_none {array : List UInt8} (h : stringAt array 0 = none) :
    printed array = .error .overread := by
  unfold printed
  rw [h]

/-! ## Saving -/

/-- **A line of the file**, `"name: %s, phone: %s\n"`. -/
def line (p : Person) : Except Fault (List UInt8) := do
  let name ← printed p.name
  let phone ← printed p.phone
  return ascii "name: " ++ name ++ ascii ", phone: " ++ phone ++ [10]

/-- **What `save_file` writes**: what is in the file when it closes it. -/
def savedFile (mem : Heap (Node Person)) (people : Ptr) : Except Fault (List UInt8) :=
  match values mem people with
  | none => .error .dangling
  | some persons => do
    let lines ← persons.mapM line
    return lines.flatten

/-- **`save_file`**, with what is in the file then; `opened` is whether it can be opened.
Behind `fclose` there is no `return`. -/
def saveFile (d : Dialect) (opened : Bool) (mem : Heap (Node Person)) (people : Ptr) :
    Except Fault (List UInt8) :=
  if opened then do
    let file ← savedFile mem people
    d.flowOff
    return file
  else return []

/-! ## Loading -/

/-- **`fgets`**, of at most `n` bytes: what is read, what is left, and whether the end
of the file was met. -/
def fgets : ℕ → List UInt8 → List UInt8 × List UInt8 × Bool
  | 0, file => ([], file, false)
  | _ + 1, [] => ([], [], true)
  | n + 1, c :: file =>
    if c = 10 then ([c], file, false)
    else
      let (bytes, file, eof) := fgets n file
      (c :: bytes, file, eof)

/-- **A field that is scanned.** -/
structure Token where
  /-- A blank was met. -/
  status : Bool
  /-- The index behind the last byte written. -/
  j : ℕ
  /-- What is written. -/
  out : List UInt8

/-- **What the loops of `parser_token` do with a byte.** -/
def Token.put (t : Token) (c : UInt8) : Except Fault Token :=
  if c = 32 then .ok { t with status := true }
  else if t.status then
    if t.j < t.out.length then .ok { t with j := t.j + 1, out := t.out.set t.j c }
    else .error .overflow
  else .ok t

/-- **The first loop of `parser_token`**, from an index on, to the first comma: nothing
but the end of memory stops it before. -/
def nameLoop : List UInt8 → ℕ → Token → Except Fault (ℕ × Token)
  | [], _, _ => .error .overread
  | c :: rest, i, t =>
    if c = 44 then .ok (i, t)
    else do
      let t ← t.put c
      nameLoop rest (i + 1) t

/-- **`parser_token`**, with what it returns and leaves in `name` and `phone`. -/
def parserToken (buffer : List UInt8) (length : ℕ) (name phone : List UInt8) :
    Except Fault (ℤ × List UInt8 × List UInt8) :=
  if length < MIN_TOKEN_LENGTH then .ok (-2, name, phone)
  else do
    let (i, t) ← nameLoop buffer 0 ⟨false, 0, name⟩
    let u ← ((buffer.take length).drop i).foldlM Token.put ⟨false, 0, phone⟩
    -- both are printed
    let _ ← printed t.out
    let _ ← printed u.out
    return (0, t.out, u.out)

/-- **`person_insert`.** -/
def personInsert (mem : Heap (Node Person)) (people ps : Ptr) :
    Except Fault (ℤ × Ptr × Heap (Node Person)) :=
  if ps = 0 then .ok (-1, people, mem)
  else match insertHead mem ps people with
    | some (people, mem) => .ok (0, people, mem)
    | none => .error .dangling

/-- What becomes of a line that is loaded. -/
inductive Loaded where
  | skipped
  | noMemory
  | added (book : Book)

/-- A person that was scanned is allocated and inserted. -/
def addPerson (ok : Bool) (name phone : List UInt8) (book : Book) : Except Fault Loaded :=
  let (p, mem) := book.mem.malloc ok ⟨⟨name, phone⟩, 0, 0⟩
  if p = 0 then .ok .noMemory
  else do
    let (_, people, mem) ← personInsert mem book.people p
    return .added ⟨mem, people, book.count + 1⟩

/-- **What the loop of `load_file` does with a line.** `ok` is whether `malloc` succeeds. -/
def loadLine (ok : Bool) (bytes : List UInt8) (book : Book) : Except Fault Loaded := do
  let buffer := bytes ++ List.replicate (BUFFER_LENGTH - bytes.length) 0
  let length := (CString.ofBytes buffer).strlen
  let (ret, name, phone) ← parserToken buffer length (List.replicate NAME_LENGTH 0)
    (List.replicate PHONE_LENGTH 0)
  if ret ≠ 0 then return .skipped else addPerson ok name phone book

/-- **The loop of `load_file`**: what it returns, and the contacts it leaves. `k` persons
have been allocated before. -/
def loadLoop (malloc : ℕ → Bool) : ℕ → ℕ → List UInt8 → Book → Except Fault (ℤ × Book)
  | 0, _, _, _ => .error .endless
  | fuel + 1, k, file, book => do
    let (bytes, file, eof) := fgets (BUFFER_LENGTH - 1) file
    match ← loadLine (malloc k) bytes book with
    | .skipped => if eof then return (0, book) else loadLoop malloc fuel k file book
    | .noMemory => return (-2, book)
    | .added book => if eof then return (0, book) else loadLoop malloc fuel (k + 1) file book

/-- **`load_file`**, of a file that may not be there. -/
def loadFile (malloc : ℕ → Bool) (file : Option (List UInt8)) (book : Book) :
    Except Fault (ℤ × Book) :=
  match file with
  | none => .ok (-1, book)
  | some file => loadLoop malloc (file.length + 1) 0 file book

/-! ## What is saved and loaded again -/

/-- What a person is about: two strings, if they are terminated. -/
def Person.pair (p : Person) : Option (CString × CString) := do
  let name ← stringAt p.name 0
  let phone ← stringAt p.phone 0
  return (name, phone)

/-- **A person that can be entered and told apart in a file**: two strings that fit
their arrays, neither of them empty, without blanks, line feeds or, in the name,
commas. -/
structure Person.Fits (p : Person) (name phone : CString) : Prop where
  length_name : p.name.length = NAME_LENGTH
  length_phone : p.phone.length = PHONE_LENGTH
  name_eq : stringAt p.name 0 = some name
  phone_eq : stringAt p.phone 0 = some phone
  name_ne : name.bytes ≠ []
  phone_ne : phone.bytes ≠ []
  name_free : ∀ b ∈ name.bytes, b ≠ 32 ∧ b ≠ 44 ∧ b ≠ 10
  phone_free : ∀ b ∈ phone.bytes, b ≠ 32 ∧ b ≠ 10

/-- **What is saved is loaded**, from the file as it was closed and into an empty list in
the memory of another run: the same pairs, each as often, and as many as are
counted. -/
def RoundTrips (book : Book) (mem : Heap (Node Person)) (malloc : ℕ → Bool) : Prop :=
  ∃ file book' saved loaded, savedFile book.mem book.people = .ok file
    ∧ loadFile malloc (some file) ⟨mem, 0, 0⟩ = .ok (0, book')
    ∧ values book.mem book.people = some saved ∧ values book'.mem book'.people = some loaded
    ∧ (loaded.map Person.pair).Perm (saved.map Person.pair) ∧ book'.count = loaded.length

section Scan

variable {bs rest w : List UInt8} {m i n : ℕ} {t : Token}

/-- A scanned field with room for `m` more bytes. -/
def Token.holding (w : List UInt8) (m : ℕ) : Token := ⟨true, w.length, w ++ List.replicate m 0⟩

/-- **Where a blank was met, everything else is written.** -/
theorem foldlM_put (h : ∀ b ∈ bs, b ≠ 32) :
    bs.foldlM Token.put (Token.holding w m)
      = if bs.length ≤ m then .ok (Token.holding (w ++ bs) (m - bs.length)) else .error .overflow := by
  induction bs generalizing w m with
  | nil =>
    rw [List.length_nil, if_pos (Nat.zero_le m), List.append_nil]
    rfl
  | cons b bs ih =>
    obtain ⟨hb, hbs⟩ := List.forall_mem_cons.mp h
    have hput : Token.put (Token.holding w m) b
        = if 0 < m then .ok (Token.holding (w ++ [b]) (m - 1)) else .error .overflow := by
      unfold Token.put
      rw [if_neg hb]
      show (if w.length < (w ++ List.replicate m 0).length then _ else _) = _
      rw [List.length_append, List.length_replicate]
      by_cases hm : 0 < m
      · obtain ⟨m, rfl⟩ := Nat.exists_eq_succ_of_ne_zero (Nat.pos_iff_ne_zero.mp hm)
        rw [if_pos hm, if_pos (by omega)]
        unfold Token.holding
        rw [List.set_append_right _ _ (le_refl _), Nat.sub_self, List.replicate_succ,
          List.set_cons_zero, List.length_append, List.append_assoc]
        rfl
      · rw [if_neg hm, if_neg (by omega)]
    rw [List.foldlM_cons, hput]
    by_cases hm : 0 < m
    · rw [if_pos hm]
      show bs.foldlM Token.put _ = _
      rw [ih hbs, List.append_assoc, List.length_cons, Nat.sub_sub, Nat.add_comm 1]
      have hlen : bs.length ≤ m - 1 ↔ bs.length + 1 ≤ m := by omega
      exact if_congr hlen rfl rfl
    · rw [if_neg hm, List.length_cons, if_neg (by omega)]
      rfl

/-- What comes before the first blank is skipped. -/
theorem foldlM_put_skip (h : ∀ b ∈ bs, b ≠ 32) (ht : t.status = false) :
    bs.foldlM Token.put t = .ok t := by
  induction bs with
  | nil => rfl
  | cons b bs ih =>
    obtain ⟨hb, hbs⟩ := List.forall_mem_cons.mp h
    have hput : t.put b = .ok t := by
      unfold Token.put
      rw [if_neg hb, ht]
      rfl
    rw [List.foldlM_cons, hput]
    exact ih hbs

/-- The first loop scans what is before the comma. -/
theorem nameLoop_eq (h : ∀ b ∈ bs, b ≠ 44) :
    nameLoop (bs ++ 44 :: rest) i t
      = (bs.foldlM Token.put t).map (fun t => (i + bs.length, t)) := by
  induction bs generalizing i t with
  | nil => rfl
  | cons b bs ih =>
    obtain ⟨hb, hbs⟩ := List.forall_mem_cons.mp h
    rw [List.cons_append, nameLoop, if_neg hb, List.foldlM_cons]
    cases t.put b with
    | error f => rfl
    | ok u =>
      show nameLoop _ _ _ = (bs.foldlM Token.put u).map _
      rw [ih hbs, List.length_cons, Nat.add_assoc, Nat.add_comm 1]

/-- A line is read as it is. -/
theorem fgets_line (h : ∀ b ∈ bs, b ≠ 10) (hn : bs.length < n) :
    fgets n (bs ++ 10 :: rest) = (bs ++ [10], rest, false) := by
  induction bs generalizing n with
  | nil =>
    obtain ⟨n, rfl⟩ := Nat.exists_eq_succ_of_ne_zero (Nat.ne_zero_of_lt hn)
    rfl
  | cons b bs ih =>
    obtain ⟨n, rfl⟩ := Nat.exists_eq_succ_of_ne_zero (Nat.ne_zero_of_lt hn)
    obtain ⟨hb, hbs⟩ := List.forall_mem_cons.mp h
    show (if b = 10 then _ else _) = _
    rw [if_neg hb]
    have hrest := ih hbs (Nat.lt_of_succ_lt_succ hn)
    change fgets n (bs.append (10 :: rest)) = _ at hrest
    rw [hrest]
    rfl

/-- What holds of each byte of a list, as it is checked one byte after another. -/
theorem forall_mem_of_all {P : UInt8 → Prop} [DecidablePred P]
    (h : bs.all (fun b => decide (P b)) = true) : ∀ b ∈ bs, P b :=
  fun b hb => of_decide_eq_true (List.all_eq_true.mp h b hb)

end Scan

section Line

variable {p : Person} {name phone : CString} {w rest : List UInt8}

/-- The label that the scanner takes for a part of the phone. -/
def label : List UInt8 := ascii "phone:"

/-- The string in an array that is filled up with NULs. -/
theorem stringAt_append (hw : (0 : UInt8) ∉ w) (m : ℕ) :
    stringAt (w ++ List.replicate m 0) 0 = if 0 < m then some ⟨w, hw⟩ else none := by
  have hne : ∀ b ∈ w, b ≠ 0 := fun b hb he => hw (he ▸ hb)
  unfold stringAt
  rw [List.drop_zero]
  cases m with
  | zero => rw [List.replicate_zero, List.append_nil, if_neg hw, if_neg (lt_irrefl 0)]
  | succ m =>
    rw [List.replicate_succ, if_pos (List.mem_append_right _ List.mem_cons_self),
      CString.ofBytes_append_nul hne, if_pos (Nat.succ_pos m)]
    exact congrArg some (CString.ext (List.takeWhile_eq_self_iff.mpr (by simpa using hne)))

theorem printed_append (hw : (0 : UInt8) ∉ w) (m : ℕ) :
    printed (w ++ List.replicate m 0) = if 0 < m then .ok w else .error .overread := by
  unfold printed
  rw [stringAt_append hw]
  by_cases hm : 0 < m
  · rw [if_pos hm, if_pos hm]
  · rw [if_neg hm, if_neg hm]

theorem nul_free_saved (phone : CString) :
    (0 : UInt8) ∉ label ++ phone.bytes ++ [10] := by
  simp only [List.mem_append, not_or]
  exact ⟨⟨by decide, phone.nul_free⟩, by decide⟩

/-- What is before the line feed of a line. -/
def body (name phone : CString) : List UInt8 :=
  ascii "name: " ++ name.bytes ++ ascii ", phone: " ++ phone.bytes

theorem Person.Fits.line_eq (h : p.Fits name phone) : line p = .ok (body name phone ++ [10]) := by
  unfold line printed
  rw [h.name_eq, h.phone_eq]
  rfl

theorem Person.Fits.length_lt (h : p.Fits name phone) :
    name.bytes.length < NAME_LENGTH ∧ phone.bytes.length < PHONE_LENGTH := by
  have hshort : ∀ {array : List UInt8} {s : CString}, stringAt array 0 = some s →
      s.bytes.length < array.length := by
    intro array s hs
    obtain ⟨rest, rfl⟩ := stringAt_eq_some_iff.mp hs
    rw [List.length_append, List.length_cons]
    omega
  exact ⟨h.length_name ▸ hshort h.name_eq, h.length_phone ▸ hshort h.phone_eq⟩

/-- A line fits the buffer. -/
theorem Person.Fits.length_body (h : p.Fits name phone) :
    (body name phone).length + 1 < BUFFER_LENGTH := by
  obtain ⟨hname, hphone⟩ := h.length_lt
  rw [NAME_LENGTH] at hname
  rw [PHONE_LENGTH] at hphone
  unfold body
  simp only [List.length_append, BUFFER_LENGTH]
  show 6 + _ + 9 + _ + 1 < 128
  omega

/-- The line as the scanner sees it: up to the comma, and from there on. -/
theorem body_eq (name phone : CString) :
    body name phone ++ [10] = (ascii "name:" ++ 32 :: name.bytes)
      ++ 44 :: (32 :: label ++ 32 :: (phone.bytes ++ [10])) := by
  have hfirst : ascii "name: " = ascii "name:" ++ [32] := rfl
  have hsecond : ascii ", phone: " = 44 :: 32 :: label ++ [32] := rfl
  unfold body
  rw [hfirst, hsecond]
  simp only [List.append_assoc, List.cons_append, List.nil_append]

/-- There is one comma in a line. -/
theorem Person.Fits.comma_free (h : p.Fits name phone) :
    ∀ b ∈ ascii "name:" ++ 32 :: name.bytes, b ≠ 44 := by
  intro b hb
  rcases List.mem_append.mp hb with hb | hb
  · exact forall_mem_of_all (P := fun b => b ≠ 44) (by decide) b hb
  · rcases List.mem_cons.mp hb with rfl | hb
    · decide
    · exact (h.name_free b hb).2.1

/-- **Up to the comma**, the name is what is behind the blank. -/
theorem Person.Fits.scan_name (h : p.Fits name phone) :
    (ascii "name:" ++ 32 :: name.bytes).foldlM Token.put ⟨false, 0, List.replicate NAME_LENGTH 0⟩
      = .ok (Token.holding name.bytes (NAME_LENGTH - name.bytes.length)) := by
  rw [List.foldlM_append, foldlM_put_skip (forall_mem_of_all (by decide)) rfl]
  show name.bytes.foldlM Token.put (Token.holding [] NAME_LENGTH) = _
  rw [foldlM_put (fun b hb => (h.name_free b hb).1), if_pos h.length_lt.1.le]
  rfl

/-- **Behind the comma**, so is the label, and the second blank is left out. -/
theorem Person.Fits.scan_phone (h : p.Fits name phone) :
    (44 :: (32 :: label ++ 32 :: (phone.bytes ++ [10]))).foldlM Token.put
        ⟨false, 0, List.replicate PHONE_LENGTH 0⟩
      = if phone.bytes.length + 7 ≤ PHONE_LENGTH then
          .ok (Token.holding (label ++ phone.bytes ++ [10])
            (PHONE_LENGTH - (phone.bytes.length + 7)))
        else .error .overflow := by
  have hfree : ∀ b ∈ phone.bytes ++ [10], b ≠ 32 := by
    intro b hb
    rcases List.mem_append.mp hb with hb | hb
    · exact (h.phone_free b hb).1
    · rw [List.mem_singleton.mp hb]
      decide
  have hlabel : (32 :: (phone.bytes ++ [10])).foldlM Token.put (Token.holding label 26)
      = (phone.bytes ++ [10]).foldlM Token.put (Token.holding label 26) := rfl
  show (label ++ 32 :: (phone.bytes ++ [10])).foldlM Token.put (Token.holding [] PHONE_LENGTH) = _
  rw [List.foldlM_append, foldlM_put (forall_mem_of_all (by decide)), if_pos (by decide)]
  show (32 :: (phone.bytes ++ [10])).foldlM Token.put (Token.holding label 26) = _
  rw [hlabel, foldlM_put hfree, List.length_append, List.length_singleton, List.append_assoc,
    PHONE_LENGTH]
  have hlen : phone.bytes.length + 1 ≤ 26 ↔ phone.bytes.length + 7 ≤ 32 := by omega
  have hroom : 26 - (phone.bytes.length + 1) = 32 - (phone.bytes.length + 7) := by omega
  rw [hroom]
  exact if_congr hlen rfl rfl

/-- **A line is scanned**: what comes back as the phone has the label in front of it and
the line feed behind. -/
theorem Person.Fits.parserToken_eq (h : p.Fits name phone) (m : ℕ) :
    parserToken (body name phone ++ [10] ++ List.replicate m 0) (body name phone ++ [10]).length
        (List.replicate NAME_LENGTH 0) (List.replicate PHONE_LENGTH 0)
      = if phone.bytes.length + 7 < PHONE_LENGTH then
          .ok (0, name.bytes ++ List.replicate (NAME_LENGTH - name.bytes.length) 0,
            label ++ phone.bytes ++ [10]
              ++ List.replicate (PHONE_LENGTH - (phone.bytes.length + 7)) 0)
        else if phone.bytes.length + 7 = PHONE_LENGTH then .error .overread
        else .error .overflow := by
  obtain ⟨hname, hphone⟩ := h.length_lt
  have hlength : ¬ (body name phone ++ [10]).length < MIN_TOKEN_LENGTH := by
    rw [body_eq, MIN_TOKEN_LENGTH]
    simp only [List.length_append, List.length_cons]
    show ¬ 5 + _ + _ < 5
    omega
  unfold parserToken
  rw [if_neg hlength, List.take_left' rfl, body_eq, List.append_assoc, List.cons_append,
    nameLoop_eq h.comma_free, h.scan_name]
  have hbehind : ((ascii "name:" ++ 32 :: name.bytes)
        ++ 44 :: (32 :: label ++ 32 :: (phone.bytes ++ [10]))).drop
          (0 + (ascii "name:" ++ 32 :: name.bytes).length)
      = 44 :: (32 :: label ++ 32 :: (phone.bytes ++ [10])) := by
    rw [Nat.zero_add, List.drop_left]
  have hnul := nul_free_saved phone
  refine bind_ok rfl ?_
  dsimp only
  rw [hbehind, h.scan_phone]
  by_cases hroom : phone.bytes.length + 7 ≤ PHONE_LENGTH
  · rw [if_pos hroom]
    refine bind_ok rfl ?_
    refine bind_ok ((printed_append name.nul_free _).trans (if_pos (by omega))) ?_
    by_cases hlt : phone.bytes.length + 7 < PHONE_LENGTH
    · rw [if_pos hlt]
      exact bind_ok ((printed_append hnul _).trans (if_pos (by omega))) rfl
    · rw [if_neg hlt, if_pos (by omega)]
      have hover : printed (Token.holding (label ++ phone.bytes ++ [10])
          (PHONE_LENGTH - (phone.bytes.length + 7))).out = .error .overread :=
        (printed_append hnul _).trans (if_neg (by omega))
      rw [hover]
      rfl
  · rw [if_neg hroom, if_neg (by omega), if_neg (by omega)]
    rfl

end Line

/-! ## The list that is loaded -/

section Load

variable {malloc : ℕ → Bool} {fuel k : ℕ} {file : List UInt8} {book book' : Book} {ret : ℤ}
  {t : NodeList Person} {mem : Heap (Node Person)} {people : Ptr} {p : Person}
  {name phone : CString}

/-- A person that has been allocated is put in front. -/
theorem exists_personInsert (hrepr : Repr mem people t) {mem₁ : Heap (Node Person)}
    (hload : mem₁.load mem.next = some ⟨p, 0, 0⟩)
    (hother : ∀ q, q ≠ mem.next → mem₁.load q = mem.load q) :
    ∃ mem', personInsert mem₁ people mem.next = .ok (0, mem.next, mem')
      ∧ Repr mem' mem.next ((mem.next, p) :: t) := by
  have hne : ∀ x ∈ t, x.1 ≠ mem.next := by
    intro x hx
    obtain ⟨node, hnode, -⟩ := hrepr.load hx
    exact Heap.ne_next_of_load hnode
  have halloc : Repr mem₁ people t := hrepr.congr (fun x hx => hother x.1 (hne x hx))
  have hfresh : mem.next ∉ t.map Prod.fst := by
    intro hmem
    obtain ⟨x, hx, he⟩ := List.mem_map.mp hmem
    exact hne x hx he
  obtain ⟨mem', hinsert, hrepr', -⟩ := halloc.insertHead hload hfresh
  refine ⟨mem', ?_, hrepr'⟩
  unfold personInsert
  rw [if_neg (Heap.next_ne_null mem), hinsert]

/-- **A person is added**, if there is memory. -/
theorem addPerson_eq (hrepr : Repr book.mem book.people t) (ok : Bool)
    (name phone : List UInt8) :
    ok = false ∧ addPerson ok name phone book = .ok .noMemory
      ∨ ok = true ∧ ∃ b a, addPerson ok name phone book = .ok (.added b)
        ∧ Repr b.mem b.people ((a, ⟨name, phone⟩) :: t) ∧ b.count = book.count + 1 := by
  cases ok with
  | false => exact .inl ⟨rfl, rfl⟩
  | true =>
    obtain ⟨mem', hinsert, hrepr'⟩ := exists_personInsert hrepr
      (show (book.mem.alloc ⟨⟨name, phone⟩, 0, 0⟩).load book.mem.next = _ from if_pos rfl)
      (fun q hq => if_neg hq)
    refine .inr ⟨rfl, ⟨mem', book.mem.next, book.count + 1⟩, book.mem.next, ?_, hrepr', rfl⟩
    unfold addPerson
    rw [Heap.malloc_true]
    dsimp only
    rw [if_neg (Heap.next_ne_null _)]
    exact bind_ok hinsert rfl

/-- A line that is loaded adds a person, or nothing. -/
theorem added_of_loadLine {ok : Bool} {bytes : List UInt8} (hrepr : Repr book.mem book.people t)
    (hline : loadLine ok bytes book = .ok (.added book')) :
    ∃ x, Repr book'.mem book'.people (x :: t) ∧ book'.count = book.count + 1 := by
  unfold loadLine at hline
  obtain ⟨⟨ret, name, phone⟩, -, hline⟩ := exists_of_bind_eq_ok hline
  dsimp only at hline
  split at hline
  · cases hline
  · rcases addPerson_eq hrepr ok name phone with ⟨-, hno⟩ | ⟨-, b, a, hadd, hrepr', hcount⟩
    · cases hno.symm.trans hline
    · obtain rfl := Loaded.added.inj (Except.ok.inj (hadd.symm.trans hline))
      exact ⟨_, hrepr', hcount⟩

/-- **What is loaded is put in front of what there is**, and counted. -/
theorem exists_append_of_loadLoop (hrepr : Repr book.mem book.people t)
    (hload : loadLoop malloc fuel k file book = .ok (ret, book')) :
    ∃ u, Repr book'.mem book'.people (u ++ t) ∧ book'.count = book.count + u.length := by
  induction fuel generalizing k file book t with
  | zero => cases hload
  | succ fuel ih =>
    unfold loadLoop at hload
    obtain ⟨loaded, hline, hload⟩ := exists_of_bind_eq_ok hload
    cases loaded with
    | skipped =>
      dsimp only at hload
      split at hload
      · obtain ⟨-, rfl⟩ := Prod.mk.inj (Except.ok.inj hload)
        exact ⟨[], hrepr, (Int.add_zero _).symm⟩
      · exact ih hrepr hload
    | noMemory =>
      obtain ⟨-, rfl⟩ := Prod.mk.inj (Except.ok.inj hload)
      exact ⟨[], hrepr, (Int.add_zero _).symm⟩
    | added b =>
      obtain ⟨x, hreprx, hcount⟩ := added_of_loadLine hrepr hline
      dsimp only at hload
      split at hload
      · obtain ⟨-, rfl⟩ := Prod.mk.inj (Except.ok.inj hload)
        exact ⟨[x], hreprx, hcount⟩
      · obtain ⟨u, hrepru, hcountu⟩ := ih hreprx hload
        refine ⟨u ++ [x], ?_, ?_⟩
        · rw [List.append_assoc]
          exact hrepru
        · rw [hcountu, hcount, List.length_append, List.length_singleton]
          push_cast
          ring

/-- **A saved line is loaded** with the label in the phone, if it is loaded. -/
theorem Person.Fits.loadLine_eq (h : p.Fits name phone) {ok : Bool} {loaded : Loaded}
    (hrepr : Repr book.mem book.people t)
    (hline : loadLine ok (body name phone ++ [10]) book = .ok loaded) :
    loaded = .noMemory ∨ ∃ b a q, loaded = .added b ∧ Repr b.mem b.people ((a, q) :: t)
      ∧ ∃ s, stringAt q.phone 0 = some s ∧ 10 ∈ s.bytes := by
  have hnul : (0 : UInt8) ∉ body name phone ++ [10] := by
    unfold body
    simp only [List.mem_append, not_or]
    exact ⟨⟨⟨⟨by decide, name.nul_free⟩, by decide⟩, phone.nul_free⟩, by decide⟩
  have hlength : (body name phone ++ [10]).length < BUFFER_LENGTH := by
    rw [List.length_append, List.length_singleton]
    exact h.length_body
  obtain ⟨m, hm⟩ : ∃ m, BUFFER_LENGTH - (body name phone ++ [10]).length = m + 1 :=
    Nat.exists_eq_succ_of_ne_zero (by omega)
  have hstrlen : (CString.ofBytes (body name phone ++ [10] ++ List.replicate (m + 1) 0)).strlen
      = (body name phone ++ [10]).length := by
    rw [CString.ofBytes_append_replicate]
    exact congrArg List.length (takeWhile_ne_zero_self (fun b hb he => hnul (he ▸ hb)))
  unfold loadLine at hline
  dsimp only at hline
  rw [hm, hstrlen, h.parserToken_eq] at hline
  split at hline
  · next hroom =>
    change addPerson ok _ _ book = _ at hline
    rcases addPerson_eq hrepr ok _ _ with ⟨-, hno⟩ | ⟨-, b, a, hadd, hreprb, -⟩
    · exact .inl (Except.ok.inj (hline.symm.trans hno))
    · refine .inr ⟨b, a, _, Except.ok.inj (hline.symm.trans hadd), hreprb, ?_⟩
      exact ⟨_, (stringAt_append (nul_free_saved phone) _).trans (if_pos (by omega)),
        List.mem_append_right _ List.mem_cons_self⟩
  · split at hline
    · cases hline
    · cases hline

/-- The file that is saved starts with the line of the first person. -/
theorem exists_savedFile_cons {x : Ptr × Person} {people : Ptr}
    (hrepr : Repr mem people (x :: t)) (h : x.2.Fits name phone)
    (hsave : savedFile mem people = .ok file) :
    ∃ rest, file = body name phone ++ 10 :: rest := by
  unfold savedFile at hsave
  rw [hrepr.values, List.map_cons] at hsave
  obtain ⟨lines, hlines, hfile⟩ := exists_of_bind_eq_ok hsave
  rw [List.mapM_cons] at hlines
  obtain ⟨first, hfirst, hlines⟩ := exists_of_bind_eq_ok hlines
  obtain ⟨rest, -, hret⟩ := exists_of_bind_eq_ok hlines
  obtain rfl := Except.ok.inj (h.line_eq.symm.trans hfirst)
  obtain rfl := Except.ok.inj hret
  obtain rfl := Except.ok.inj hfile
  exact ⟨rest.flatten, by rw [List.flatten_cons, List.append_assoc]; rfl⟩

/-- **A person that is loaded is none that was saved**: a line feed is in its phone. -/
theorem not_roundTrips_cons {x : Ptr × Person} (hrepr : Repr book.mem book.people (x :: t))
    (hfits : ∀ y ∈ x :: t, ∃ name phone, y.2.Fits name phone) : ¬ RoundTrips book mem malloc := by
  rintro ⟨file, book', saved, loaded, hsave, hload, hsaved, hloaded, hperm, -⟩
  obtain ⟨name, phone, hx⟩ := hfits x List.mem_cons_self
  obtain ⟨rest, rfl⟩ := exists_savedFile_cons hrepr hx hsave
  have hfeed : ∀ b ∈ body name phone, b ≠ 10 := by
    intro b hb
    unfold body at hb
    simp only [List.mem_append] at hb
    rcases hb with ((hb | hb) | hb) | hb
    · exact forall_mem_of_all (P := fun b => b ≠ 10) (by decide) b hb
    · exact (hx.name_free b hb).2.2
    · exact forall_mem_of_all (P := fun b => b ≠ 10) (by decide) b hb
    · exact (hx.phone_free b hb).2
  have hempty : Repr (⟨mem, 0, 0⟩ : Book).mem (⟨mem, 0, 0⟩ : Book).people [] := Repr.empty mem
  change loadLoop malloc (_ + 1) 0 _ _ = _ at hload
  unfold loadLoop at hload
  rw [fgets_line hfeed (by have := hx.length_body; rw [BUFFER_LENGTH] at this ⊢; omega)] at hload
  obtain ⟨first, hline, hload⟩ := exists_of_bind_eq_ok hload
  rcases hx.loadLine_eq hempty hline with rfl | ⟨b, a, q, rfl, hreprb, s, hs, hfeeds⟩
  · cases hload
  · obtain ⟨u, hrepru, -⟩ := exists_append_of_loadLoop hreprb hload
    -- the first person stays, so it is one of those that were saved
    have hq : q.pair ∈ loaded.map Person.pair := by
      obtain rfl := Option.some.inj (hrepru.values.symm.trans hloaded)
      rw [List.map_append, List.map_append]
      exact List.mem_append_right _ List.mem_cons_self
    obtain rfl := Option.some.inj (hrepr.values.symm.trans hsaved)
    obtain ⟨p, hp, hpair⟩ := List.mem_map.mp (hperm.mem_iff.mp hq)
    obtain ⟨y, hy, rfl⟩ := List.mem_map.mp hp
    obtain ⟨name', phone', hfit⟩ := hfits y hy
    unfold Person.pair at hpair
    rw [hfit.name_eq, hfit.phone_eq] at hpair
    obtain ⟨n, -, hpair⟩ := Option.bind_eq_some_iff.mp hpair.symm
    obtain ⟨s', hs', hpair⟩ := Option.bind_eq_some_iff.mp hpair
    obtain rfl := Option.some.inj (hs.symm.trans hs')
    obtain ⟨-, rfl⟩ := Prod.mk.inj (Option.some.inj hpair)
    exact (hfit.phone_free 10 hfeeds).2 rfl

/-- **`save_file` does not return** to a program built as C++. -/
theorem saveFile_cpp (mem : Heap (Node Person)) (people : Ptr) (file : List UInt8) :
    saveFile .cpp true mem people ≠ .ok file := by
  intro h
  obtain ⟨_, -, h⟩ := exists_of_bind_eq_ok h
  obtain ⟨_, h, -⟩ := exists_of_bind_eq_ok h
  cases h

/-- **What the program saved is loaded** only where it saved nothing, and this in another
run: in its own, `save_file` does not return. -/
theorem roundTrips_iff {book : Book} {t : NodeList Person}
    (hrepr : Repr book.mem book.people t)
    (hfits : ∀ x ∈ t, ∃ name phone, x.2.Fits name phone) (mem : Heap (Node Person))
    (malloc : ℕ → Bool) :
    (RoundTrips book mem malloc ↔ t = [])
      ∧ ∀ file, saveFile .cpp true book.mem book.people ≠ .ok file := by
  refine ⟨?_, saveFile_cpp book.mem book.people⟩
  cases t with
  | nil =>
    refine ⟨fun _ => rfl, fun _ => ⟨[], ⟨mem, 0, 0⟩, [], [], ?_, rfl, hrepr.values,
      (Repr.empty mem).values, List.Perm.refl _, rfl⟩⟩
    unfold savedFile
    rw [hrepr.values]
    rfl
  | cons x t =>
    exact ⟨fun h => absurd h (not_roundTrips_cons hrepr hfits), fun h => nomatch h⟩

/-- A person, as it is entered. -/
def bob : Person :=
  ⟨ascii "bob" ++ List.replicate 13 0, ascii "123" ++ List.replicate 29 0⟩

/-- The contacts with nobody else in them. -/
def bobOnly : Book := ⟨Heap.empty.alloc ⟨bob, 0, 0⟩, 1, 1⟩

theorem bob_fits : bob.Fits ⟨ascii "bob", by decide⟩ ⟨ascii "123", by decide⟩ where
  length_name := rfl
  length_phone := rfl
  name_eq := rfl
  phone_eq := rfl
  name_ne := by decide
  phone_ne := by decide
  name_free := forall_mem_of_all (by decide)
  phone_free := forall_mem_of_all (by decide)

theorem bobOnly_repr : Repr bobOnly.mem bobOnly.people [(1, bob)] :=
  ⟨rfl, ⟨rfl, trivial⟩, List.nodup_singleton _⟩

theorem roundTrips_iff_bob : (RoundTrips bobOnly Heap.empty (fun _ => true) ↔ [(1, bob)] = [])
    ∧ ∀ file, saveFile .cpp true bobOnly.mem bobOnly.people ≠ .ok file :=
  roundTrips_iff bobOnly_repr (fun x hx => by
    rw [List.mem_singleton.mp hx]
    exact ⟨_, _, bob_fits⟩) Heap.empty (fun _ => true)

/-- **Bob comes back** with another phone. -/
theorem not_roundTrips_bob : (∃ file book', savedFile bobOnly.mem bobOnly.people = .ok file
      ∧ loadFile (fun _ => true) (some file) ⟨Heap.empty, 0, 0⟩ = .ok (0, book')
      ∧ (values book'.mem book'.people).map (fun ps => ps.map Person.phone)
        = some [ascii "phone:123\n" ++ List.replicate 22 0])
    ∧ ¬ RoundTrips bobOnly Heap.empty (fun _ => true) := by
  refine ⟨⟨_, _, rfl, rfl, rfl⟩, not_roundTrips_cons bobOnly_repr (fun x hx => ?_)⟩
  rw [List.mem_singleton.mp hx]
  exact ⟨_, _, bob_fits⟩

end Load

end Contacts
