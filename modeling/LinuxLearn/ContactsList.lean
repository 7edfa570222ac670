import LinuxLearn.ContactsScan
import LinuxLearn.Simulation

/-!
# The contacts and their count

The menu of `contacts.cpp`: a person is put in front of the list, looked for,
taken out or printed, and the list is saved to a file and loaded from one. The
number of persons is kept beside the list, by those functions that put persons
in it. `delete_entry` takes one out and leaves the number as it is.

What the menu is for is a list of contacts, each a name and a phone, in which
the last that came is the first (`directory`). The program is that, and its
count is right, as long as nobody is deleted, the lines of the files that are loaded
fit, and the count does not overflow (`counts_persons_iff`).

Three of the six functions flow off their ends: `print_entry`, `save_entry` and
`load_entry`. Whether they return is a matter of the language, so that what is
said here is said of both. A file that is loaded may have any bytes in it; of what is
printed, the model has what is said about persons.
-/

namespace Contacts

open DList

/-- `INT_MAX`. -/
def INT_MAX : ℤ := 2 ^ 31 - 1

/-- **`scanf("%s")`** into an array of `n` NULs: a word is written, and a NUL behind it. -/
def scanf (n : ℕ) (word : List UInt8) : Except Fault (List UInt8) :=
  if word.length < n then .ok (word ++ List.replicate (n - word.length) 0) else .error .overflow

/-- What has no result reads memory that is not there. -/
def follow {α : Type} : Option α → Except Fault α
  | some a => .ok a
  | none => .error .dangling

/-- The test of `person_search`. -/
def isNamed (mem : Heap (Node Person)) (name : List UInt8) (item : Ptr) : Option Bool := do
  let node ← mem.load item
  let key ← stringAt name 0
  let s ← stringAt node.val.name 0
  return decide (strcmp key s = 0)

/-- **`person_search`.** -/
def personSearch (mem : Heap (Node Person)) (people : Ptr) (name : List UInt8) : Option Ptr :=
  seek (next mem) (isNamed mem name) mem.next people

/-- **`person_delete`.** -/
def personDelete (mem : Heap (Node Person)) (people ps : Ptr) :
    Except Fault (ℤ × Ptr × Heap (Node Person)) :=
  if ps = 0 then .ok (-1, people, mem)
  else do
    let (people, mem) ← follow (remove mem ps people)
    return (0, people, mem)

/-- What is printed of a person, `"name: %s,phone: %s\n"`. -/
def listing (p : Person) : Except Fault (List UInt8) := do
  let name ← printed p.name
  let phone ← printed p.phone
  return ascii "name: " ++ name ++ ascii ",phone: " ++ phone ++ [10]

/-- **`person_traversal`.** -/
def personTraversal (mem : Heap (Node Person)) (people : Ptr) : Except Fault (List UInt8) := do
  let persons ← follow (values mem people)
  let lines ← persons.mapM listing
  return lines.flatten

/-- A person who is not filled in yet. -/
def Person.zero : Person := ⟨List.replicate NAME_LENGTH 0, List.replicate PHONE_LENGTH 0⟩

/-- **`insert_entry`**; `ok` is whether there is memory for a person. -/
def insertEntry (ok : Bool) (name phone : List UInt8) (cts : Book) : Except Fault (ℤ × Book) :=
  let (p, mem) := cts.mem.malloc ok ⟨Person.zero, 0, 0⟩
  if p = 0 then .ok (-2, cts)
  else do
    let name ← scanf NAME_LENGTH name
    let phone ← scanf PHONE_LENGTH phone
    let mem ← follow (write mem p ⟨name, phone⟩)
    let (ret, people, mem) ← personInsert mem cts.people p
    if ret ≠ 0 then
      let mem ← follow (mem.free p)
      return (-3, ⟨mem, people, cts.count⟩)
    else if cts.count < INT_MAX then
      return (0, ⟨mem, people, cts.count + 1⟩)
    else
      throw .overflow

/-- **`print_entry`**, which has no `return` at its end. -/
def printEntry (d : Dialect) (cts : Book) : Except Fault (List UInt8) := do
  let text ← personTraversal cts.mem cts.people
  d.flowOff
  return text

/-- **`delete_entry`.** -/
def deleteEntry (name : List UInt8) (cts : Book) : Except Fault (ℤ × List UInt8 × Book) := do
  let name ← scanf NAME_LENGTH name
  let ps ← follow (personSearch cts.mem cts.people name)
  if ps = 0 then return (-2, [], cts)
  else
    let node ← follow (cts.mem.load ps)
    let text ← line node.val
    let (_, people, mem) ← personDelete cts.mem cts.people ps
    let mem ← follow (mem.free ps)
    return (0, text, ⟨mem, people, cts.count⟩)

/-- **`search_entry`.** -/
def searchEntry (name : List UInt8) (cts : Book) : Except Fault (ℤ × List UInt8) := do
  let name ← scanf NAME_LENGTH name
  let ps ← follow (personSearch cts.mem cts.people name)
  if ps = 0 then return (-2, [])
  else
    let node ← follow (cts.mem.load ps)
    let text ← listing node.val
    return (0, text)

/-- **`save_entry`**: what is in the file then, if it could be opened. It has no `return`
at its end, nor has `save_file` where the file could be opened. -/
def saveEntry (d : Dialect) (filename : List UInt8) (opened : Bool) (cts : Book) :
    Except Fault (List UInt8) := do
  let _ ← scanf NAME_LENGTH filename
  let text ← saveFile d opened cts.mem cts.people
  d.flowOff
  return text

/-- **`load_entry`**, of a file that may not be there. The count is an `int`, and has
overflowed if it would be larger now. There is no `return` at the end. -/
def loadEntry (d : Dialect) (filename : List UInt8) (malloc : ℕ → Bool)
    (file : Option (List UInt8)) (cts : Book) : Except Fault Book := do
  let _ ← scanf NAME_LENGTH filename
  let (_, cts) ← loadFile malloc file cts
  if cts.count ≤ INT_MAX then
    d.flowOff
    return cts
  else
    throw .overflow

/-- **What is selected in the menu**, with what is entered, and what the system does. -/
inductive Oper where
  | insert (ok : Bool) (name phone : List UInt8)
  | print
  | delete (name : List UInt8)
  | search (name : List UInt8)
  | save (filename : List UInt8) (opened : Bool)
  | load (filename : List UInt8) (malloc : ℕ → Bool) (file : Option (List UInt8))

/-- **What is entered fits its array**, with a NUL behind it. -/
def Oper.Fits : Oper → Prop
  | insert _ name phone => name.length < NAME_LENGTH ∧ phone.length < PHONE_LENGTH
  | print => True
  | delete name => name.length < NAME_LENGTH
  | search name => name.length < NAME_LENGTH
  | save filename _ => filename.length < NAME_LENGTH
  | load filename _ _ => filename.length < NAME_LENGTH

/-- An operation, with what it returns – 0 here for those without a `return` at their end –
and says about persons. -/
def Oper.apply (d : Dialect) (cts : Book) : Oper → Except Fault ((ℤ × List UInt8) × Book)
  | insert ok name phone => do
    let (ret, cts) ← insertEntry ok name phone cts
    return ((ret, []), cts)
  | print => do
    let text ← printEntry d cts
    return ((0, text), cts)
  | delete name => do
    let (ret, text, cts) ← deleteEntry name cts
    return ((ret, text), cts)
  | search name => do
    let (ret, text) ← searchEntry name cts
    return ((ret, text), cts)
  | save filename opened => do
    let text ← saveEntry d filename opened cts
    return ((0, text), cts)
  | load filename malloc file => do
    let cts ← loadEntry d filename malloc file cts
    return ((0, []), cts)

/-- **The menu**: one operation after another, with input that fits. -/
def menu (d : Dialect) : Machine Book {op : Oper // op.Fits} (ℤ × List UInt8) :=
  fun cts op => (op.val.apply d cts).toOption

/-! ## What the menu is for -/

/-- A name and a phone. -/
abbrev Contact := CString × CString

/-- How a contact is printed. -/
def Contact.listing (c : Contact) : List UInt8 :=
  ascii "name: " ++ c.1.bytes ++ ascii ",phone: " ++ c.2.bytes ++ [10]

/-- How a contact is saved. -/
def Contact.line (c : Contact) : List UInt8 := body c.1 c.2 ++ [10]

/-- **The lines of a file**, as far as a buffer goes. -/
def fileLines : ℕ → List UInt8 → List (List UInt8)
  | 0, _ => []
  | fuel + 1, file =>
    let (bytes, file, eof) := fgets (BUFFER_LENGTH - 1) file
    bytes :: if eof then [] else fileLines fuel file

/-- **The contact in a line**: what is kept on either side of the comma. -/
def lineContact (bytes : List UInt8) : Contact :=
  (CString.ofBytes (lineName bytes), CString.ofBytes (linePhone bytes))

/-- **The lines that are scanned**: up to the first that there is no memory for. A line of fewer
than five bytes is passed over. -/
def scannedFrom (malloc : ℕ → Bool) : ℕ → List (List UInt8) → List (List UInt8)
  | _, [] => []
  | k, bytes :: lines =>
    bytes :: if (lineText bytes).length < MIN_TOKEN_LENGTH then scannedFrom malloc k lines
      else if malloc k then scannedFrom malloc (k + 1) lines
      else []

/-- **What is loaded from lines**, the last in front: up to where there is no memory. -/
def loadedFrom (malloc : ℕ → Bool) : ℕ → List (List UInt8) → List Contact
  | _, [] => []
  | k, bytes :: lines =>
    if (lineText bytes).length < MIN_TOKEN_LENGTH then loadedFrom malloc k lines
    else if malloc k then loadedFrom malloc (k + 1) lines ++ [lineContact bytes]
    else []

/-- What is scanned of a file that may not be there. -/
def scanned (malloc : ℕ → Bool) : Option (List UInt8) → List (List UInt8)
  | none => []
  | some file => scannedFrom malloc 0 (fileLines (file.length + 1) file)

/-- What is loaded from a file that may not be there. -/
def loaded (malloc : ℕ → Bool) : Option (List UInt8) → List Contact
  | none => []
  | some file => loadedFrom malloc 0 (fileLines (file.length + 1) file)

/-- A contact has the name that was entered. -/
def Contact.Named (name : List UInt8) (c : Contact) : Prop := c.1 = CString.ofBytes name

instance (name : List UInt8) : DecidablePred (Contact.Named name) :=
  fun c => inferInstanceAs (Decidable (c.1 = CString.ofBytes name))

/-- **The directory of contacts**: what the menu is for. -/
def directory : Spec (List Contact) Oper (ℤ × List UInt8)
  | cs, .insert ok name phone =>
    if ok then ((0, []), (CString.ofBytes name, CString.ofBytes phone) :: cs) else ((-2, []), cs)
  | cs, .print => ((0, cs.flatMap Contact.listing), cs)
  | cs, .delete name =>
    match cs.find? (Contact.Named name) with
    | none => ((-2, []), cs)
    | some c => ((0, c.line), cs.eraseP (Contact.Named name))
  | cs, .search name =>
    match cs.find? (Contact.Named name) with
    | none => ((-2, []), cs)
    | some c => ((0, c.listing), cs)
  | cs, .save _ opened => ((0, if opened then cs.flatMap Contact.line else []), cs)
  | cs, .load _ malloc file => ((0, []), loaded malloc file ++ cs)

/-- **Where an operation keeps the count**: nobody is deleted, the lines that are scanned of a
file that is loaded can be got over, there are no more persons than an `int`
counts, and a function is not left by its end where this is undefined. -/
def KeepsCount (d : Dialect) (cs : List Contact) : Oper → Prop
  | .insert ok _ _ => ok = true → (cs.length : ℤ) < INT_MAX
  | .print => d = .c
  | .delete name => ∀ c ∈ cs, ¬ c.Named name
  | .search _ => True
  | .save _ _ => d = .c
  | .load _ malloc file => d = .c ∧ (∀ bytes ∈ scanned malloc file, LineLoads bytes)
      ∧ ((loaded malloc file ++ cs).length : ℤ) ≤ INT_MAX

/-- A person has the name that was entered. -/
def Person.Named (name : List UInt8) (p : Person) : Prop :=
  stringAt p.name 0 = some (CString.ofBytes name)

instance (name : List UInt8) : DecidablePred (Person.Named name) :=
  fun p => inferInstanceAs (Decidable (stringAt p.name 0 = some (CString.ofBytes name)))

/-- **The count is right after an operation**: it is the number of persons on a well-formed
list, and `delete_entry` takes out the first who has the name, and nobody else. -/
def CountsPersons (cts : Book) (op : Oper) (cts' : Book) : Prop :=
  ∃ t t', Repr cts.mem cts.people t ∧ Repr cts'.mem cts'.people t' ∧ cts'.count = t'.length
    ∧ ∀ name, op = .delete name → t' = t.eraseP (fun x => x.2.Named name)

/-! ## Persons as contacts -/

section Persons

variable {p : Person} {c : Contact} {cs : List Contact} {t a b : NodeList Person} {x : Ptr × Person}
  {word array : List UInt8}

theorem Person.pair_eq_some :
    p.pair = some c ↔ stringAt p.name 0 = some c.1 ∧ stringAt p.phone 0 = some c.2 := by
  unfold Person.pair
  constructor
  · intro h
    obtain ⟨name, hname, h⟩ := Option.bind_eq_some_iff.mp h
    obtain ⟨phone, hphone, h⟩ := Option.bind_eq_some_iff.mp h
    obtain rfl := Option.some.inj h
    exact ⟨hname, hphone⟩
  · rintro ⟨hname, hphone⟩
    rw [hname, hphone]
    rfl

theorem line_of_pair (h : p.pair = some c) : line p = .ok c.line := by
  obtain ⟨hname, hphone⟩ := Person.pair_eq_some.mp h
  exact bind_ok (printed_of_stringAt hname) (bind_ok (printed_of_stringAt hphone) rfl)

theorem listing_of_pair (h : p.pair = some c) : listing p = .ok c.listing := by
  obtain ⟨hname, hphone⟩ := Person.pair_eq_some.mp h
  exact bind_ok (printed_of_stringAt hname) (bind_ok (printed_of_stringAt hphone) rfl)

/-- A word and its NUL are a string. -/
theorem exists_scanf {n : ℕ} (h : word.length < n) :
    ∃ array, scanf n word = .ok array ∧ stringAt array 0 = some (CString.ofBytes word) := by
  refine ⟨_, if_pos h, ?_⟩
  have hnul : (0 : UInt8) ∈ word ++ List.replicate (n - word.length) 0 :=
    List.mem_append_right _ (List.mem_replicate.mpr ⟨by omega, rfl⟩)
  unfold stringAt
  rw [List.drop_zero, if_pos hnul, CString.ofBytes_append_replicate]

/-- **The persons on a list are contacts**: their arrays are terminated. -/
def Spell (t : NodeList Person) (cs : List Contact) : Prop :=
  t.map (fun x => x.2.pair) = cs.map some

theorem Spell.length (h : Spell t cs) : t.length = cs.length := by
  have hlen := congrArg List.length h
  rwa [List.length_map, List.length_map] at hlen

theorem Spell.cons (h : Spell t cs) (hx : x.2.pair = some c) : Spell (x :: t) (c :: cs) := by
  unfold Spell
  rw [List.map_cons, List.map_cons, hx, h]

theorem Spell.append {u : NodeList Person} {ds : List Contact} (hu : Spell u ds) (ht : Spell t cs) :
    Spell (u ++ t) (ds ++ cs) := by
  unfold Spell
  rw [List.map_append, List.map_append, hu, ht]

/-- A person on the list is a contact. -/
theorem Spell.exists_pair (h : Spell t cs) (hx : x ∈ t) : ∃ c ∈ cs, x.2.pair = some c := by
  have hmem : x.2.pair ∈ cs.map some := h ▸ List.mem_map_of_mem hx
  obtain ⟨c, hc, he⟩ := List.mem_map.mp hmem
  exact ⟨c, hc, he.symm⟩

/-- What is printed of the persons is what is printed of the contacts. -/
theorem Spell.mapM (h : Spell t cs) {format : Person → Except Fault (List UInt8)}
    {text : Contact → List UInt8} (hformat : ∀ p c, p.pair = some c → format p = .ok (text c)) :
    (t.map Prod.snd).mapM format = .ok (cs.map text) := by
  induction t generalizing cs with
  | nil =>
    obtain rfl := List.map_eq_nil_iff.mp h.symm
    rfl
  | cons x t ih =>
    obtain ⟨c, cs, rfl, hc, hcs⟩ := List.map_eq_cons_iff.mp h.symm
    rw [List.map_cons, List.mapM_cons]
    exact bind_ok (hformat x.2 c hc.symm) (bind_ok (ih hcs.symm) rfl)

/-- A person has the name that the contact has. -/
theorem named_of_pair (h : p.pair = some c) : p.Named word ↔ c.Named word := by
  unfold Person.Named Contact.Named
  rw [(Person.pair_eq_some.mp h).1, Option.some_inj]

/-- **The first person who has a name** is the first contact, and both lists go on alike. -/
theorem Spell.first (h : Spell t cs) (word : List UInt8) :
    (t.first (Person.Named word) = none ∧ cs.find? (Contact.Named word) = none
        ∧ t.eraseP (fun x => x.2.Named word) = t)
      ∨ ∃ x c a b, t.first (Person.Named word) = some x ∧ cs.find? (Contact.Named word) = some c
        ∧ x.2.pair = some c ∧ t = a ++ x :: b ∧ t.eraseP (fun x => x.2.Named word) = a ++ b
        ∧ Spell (a ++ b) (cs.eraseP (Contact.Named word)) := by
  induction t generalizing cs with
  | nil =>
    obtain rfl := List.map_eq_nil_iff.mp h.symm
    exact Or.inl ⟨rfl, rfl, rfl⟩
  | cons y t ih =>
    obtain ⟨d, cs, rfl, hd, hcs⟩ := List.map_eq_cons_iff.mp h.symm
    by_cases hnamed : y.2.Named word
    · have hnamed' := (named_of_pair hd.symm).mp hnamed
      refine Or.inr ⟨y, d, [], t, NodeList.first_cons_of_pos hnamed,
        List.find?_cons_of_pos (decide_eq_true hnamed'), hd.symm, rfl,
        List.eraseP_cons_of_pos (decide_eq_true hnamed), ?_⟩
      have herase : (d :: cs).eraseP (fun c => c.Named word) = cs :=
        List.eraseP_cons_of_pos (decide_eq_true hnamed')
      rw [herase]
      exact hcs.symm
    · have hnamed' : ¬ d.Named word := fun hd' => hnamed ((named_of_pair hd.symm).mpr hd')
      have hfirst : NodeList.first (y :: t) (Person.Named word)
          = NodeList.first t (Person.Named word) :=
        NodeList.first_cons_of_neg hnamed
      have hfind : (d :: cs).find? (fun c => c.Named word) = cs.find? (fun c => c.Named word) :=
        List.find?_cons_of_neg (by simpa using hnamed')
      have herase : (y :: t).eraseP (fun x => x.2.Named word)
          = y :: t.eraseP (fun x => x.2.Named word) :=
        List.eraseP_cons_of_neg (by simpa using hnamed)
      have herase' : (d :: cs).eraseP (fun c => c.Named word)
          = d :: cs.eraseP (fun c => c.Named word) :=
        List.eraseP_cons_of_neg (by simpa using hnamed')
      rw [hfirst, hfind, herase, herase']
      rcases ih hcs.symm with ⟨hnone, hnone', hsame⟩ | ⟨x, c, a, b, hx, hc, hpair, rfl, hab, hspell⟩
      · exact Or.inl ⟨hnone, hnone', by rw [hsame]⟩
      · exact Or.inr ⟨x, c, y :: a, b, hx, hc, hpair, rfl, by rw [hab]; rfl,
          hspell.cons hd.symm⟩

end Persons

/-! ## What the operations do -/

section Operations

variable {cts : Book} {t : NodeList Person} {cs : List Contact}
  {name phone name' phone' word array : List UInt8} {malloc : ℕ → Bool} {fuel k : ℕ}

/-- **The search** finds the first person who has the name. -/
theorem personSearch_eq (hrepr : Repr cts.mem cts.people t) (hspell : Spell t cs)
    (harray : stringAt array 0 = some (CString.ofBytes word)) :
    personSearch cts.mem cts.people array
      = some ((NodeList.first t (Person.Named word)).elim 0 Prod.fst) := by
  refine hrepr.seek_first _ (fun x hx => ?_)
  obtain ⟨node, hload, hval⟩ := hrepr.load hx
  obtain ⟨c, -, hc⟩ := hspell.exists_pair hx
  have hname : stringAt node.val.name 0 = some c.1 := hval ▸ (Person.pair_eq_some.mp hc).1
  refine bind_of_eq hload (bind_of_eq harray (bind_of_eq hname ?_))
  refine congrArg some (decide_eq_decide.mpr ?_)
  rw [strcmp_eq_zero, named_of_pair hc, Contact.Named, eq_comm]

/-- **Somebody is inserted**, if there is memory and the count does not overflow. -/
theorem insertEntry_true (hrepr : Repr cts.mem cts.people t) (hname : name.length < NAME_LENGTH)
    (hphone : phone.length < PHONE_LENGTH) :
    ∃ mem' p, insertEntry true name phone cts
        = (if cts.count < INT_MAX then .ok (0, ⟨mem', cts.mem.next, cts.count + 1⟩)
          else .error .overflow)
      ∧ Repr mem' cts.mem.next ((cts.mem.next, p) :: t)
      ∧ p.pair = some (CString.ofBytes name, CString.ofBytes phone) := by
  obtain ⟨name', hscan, hname'⟩ := exists_scanf hname
  obtain ⟨phone', hscan', hphone'⟩ := exists_scanf hphone
  have hwrite := Heap.modify_alloc_next cts.mem ⟨Person.zero, 0, 0⟩
    (fun node => { node with val := ⟨name', phone'⟩ })
  obtain ⟨mem', hinsert, hrepr'⟩ := exists_personInsert hrepr
    (Heap.load_update_self (fun node => { node with val := ⟨name', phone'⟩ })
      (show (cts.mem.alloc ⟨Person.zero, 0, 0⟩).load cts.mem.next = _ from if_pos rfl))
    (fun q hq => (Heap.load_update_of_ne _ _ hq).trans
      ((Heap.load_alloc _ _ _).trans (if_neg hq)))
  refine ⟨mem', _, ?_, hrepr', Person.pair_eq_some.mpr ⟨hname', hphone'⟩⟩
  unfold insertEntry
  rw [Heap.malloc_true]
  dsimp only
  rw [if_neg (Heap.next_ne_null _)]
  exact bind_ok hscan (bind_ok hscan' (bind_ok (congrArg follow hwrite) (bind_ok hinsert rfl)))

/-- **Somebody is deleted**, if anybody has the name, and the count is as before. -/
theorem deleteEntry_eq (hrepr : Repr cts.mem cts.people t) (hspell : Spell t cs)
    (hword : word.length < NAME_LENGTH) :
    (cs.find? (Contact.Named word) = none ∧ deleteEntry word cts = .ok (-2, [], cts)
        ∧ t.eraseP (fun x => x.2.Named word) = t)
      ∨ ∃ c cts', cs.find? (Contact.Named word) = some c
        ∧ deleteEntry word cts = .ok (0, c.line, cts') ∧ cts'.count = cts.count
        ∧ Repr cts'.mem cts'.people (t.eraseP (fun x => x.2.Named word))
        ∧ Spell (t.eraseP (fun x => x.2.Named word)) (cs.eraseP (Contact.Named word)) := by
  obtain ⟨array, hscan, harray⟩ := exists_scanf hword
  have hsearch := personSearch_eq hrepr hspell harray
  rcases hspell.first word with ⟨hnone, hfind, hsame⟩
    | ⟨x, c, a, b, hfirst, hfind, hpair, rfl, hab, hrest⟩
  · rw [hnone] at hsearch
    exact Or.inl ⟨hfind, bind_ok hscan (bind_ok (congrArg follow hsearch) rfl), hsame⟩
  · rw [hfirst] at hsearch
    obtain ⟨p, v⟩ := x
    have hp : (p, v) ∈ a ++ (p, v) :: b := List.mem_append_right _ List.mem_cons_self
    obtain ⟨node, hload, rfl⟩ := hrepr.load hp
    have hp0 : p ≠ 0 := Heap.ne_null_of_load hload
    obtain ⟨mem', hremove, hrepr', hload', -⟩ := hrepr.remove
    have hdelete : personDelete cts.mem cts.people p = .ok (0, headD (a ++ b) 0, mem') := by
      unfold personDelete
      rw [if_neg hp0]
      exact bind_ok (congrArg follow hremove) rfl
    have hfree := Heap.free_of_load hload'
    have hne : ∀ y ∈ a ++ b, y.1 ≠ p := by
      intro y hy he
      have hdistinct := hrepr.distinct
      unfold NodeList.Distinct at hdistinct
      rw [List.map_append, List.map_cons] at hdistinct
      have hp := (List.nodup_middle.mp hdistinct)
      rw [← List.map_append, List.nodup_cons] at hp
      exact hp.1 (List.mem_map.mpr ⟨y, hy, he⟩)
    rw [hab]
    refine Or.inr ⟨c, ⟨mem'.erase p, headD (a ++ b) 0, cts.count⟩, hfind, ?_, rfl, ?_, hrest⟩
    · refine bind_ok hscan (bind_ok (congrArg follow hsearch) ?_)
      show (if p = 0 then _ else _) = _
      rw [if_neg hp0]
      exact bind_ok (congrArg follow hload) (bind_ok (line_of_pair hpair)
        (bind_ok hdelete (bind_ok (congrArg follow hfree) rfl)))
    · exact hrepr'.congr (fun y hy => by rw [Heap.load_erase, if_neg (hne y hy)])

/-- **A search** says what it finds. -/
theorem searchEntry_eq (hrepr : Repr cts.mem cts.people t) (hspell : Spell t cs)
    (hword : word.length < NAME_LENGTH) :
    searchEntry word cts = .ok (match cs.find? (Contact.Named word) with
      | none => (-2, [])
      | some c => (0, c.listing)) := by
  obtain ⟨array, hscan, harray⟩ := exists_scanf hword
  have hsearch := personSearch_eq hrepr hspell harray
  rcases hspell.first word with ⟨hnone, hfind, -⟩ | ⟨x, c, a, b, hfirst, hfind, hpair, rfl, -⟩
  · rw [hnone] at hsearch
    rw [hfind]
    exact bind_ok hscan (bind_ok (congrArg follow hsearch) rfl)
  · rw [hfirst] at hsearch
    rw [hfind]
    have hx : x ∈ a ++ x :: b := List.mem_append_right _ List.mem_cons_self
    obtain ⟨node, hload, hval⟩ := hrepr.load hx
    refine bind_ok hscan (bind_ok (congrArg follow hsearch) ?_)
    show (if x.1 = 0 then _ else _) = _
    rw [if_neg (Heap.ne_null_of_load hload)]
    exact bind_ok (congrArg follow hload) (bind_ok (listing_of_pair (hval ▸ hpair)) rfl)

theorem printEntry_eq (hrepr : Repr cts.mem cts.people t) (hspell : Spell t cs) (d : Dialect) :
    printEntry d cts = d.flowOff.map (fun _ => cs.flatMap Contact.listing) := by
  have htext : personTraversal cts.mem cts.people = .ok (cs.flatMap Contact.listing) :=
    bind_ok (congrArg follow hrepr.values)
      (bind_ok (hspell.mapM (fun _ _ => listing_of_pair)) rfl)
  refine bind_ok htext ?_
  cases d <;> rfl

theorem savedFile_eq (hrepr : Repr cts.mem cts.people t) (hspell : Spell t cs) :
    savedFile cts.mem cts.people = .ok (cs.flatMap Contact.line) := by
  unfold savedFile
  rw [hrepr.values]
  exact bind_ok (hspell.mapM (fun _ _ => line_of_pair)) rfl

theorem saveEntry_eq (hrepr : Repr cts.mem cts.people t) (hspell : Spell t cs)
    (hword : word.length < NAME_LENGTH) (opened : Bool) (d : Dialect) :
    saveEntry d word opened cts
      = d.flowOff.map (fun _ => if opened then cs.flatMap Contact.line else []) := by
  obtain ⟨array, hscan, -⟩ := exists_scanf hword
  refine bind_ok hscan ?_
  cases opened with
  | false => cases d <;> rfl
  | true =>
    have hfile : saveFile d true cts.mem cts.people
        = d.flowOff.map (fun _ => cs.flatMap Contact.line) := by
      refine bind_ok (savedFile_eq hrepr hspell) ?_
      cases d <;> rfl
    rw [hfile]
    cases d <;> rfl

/-- **What becomes of a line** depends on whether it can be got over, and is long enough. -/
theorem loadLine_cases (hrepr : Repr cts.mem cts.people t) (ok : Bool) (bytes : List UInt8) :
    ¬ LineLoads bytes ∧ ¬ (lineText bytes).length < MIN_TOKEN_LENGTH
        ∧ (∃ f, loadLine ok bytes cts = .error f)
      ∨ LineLoads bytes ∧ (lineText bytes).length < MIN_TOKEN_LENGTH
        ∧ loadLine ok bytes cts = .ok .skipped
      ∨ LineLoads bytes ∧ ¬ (lineText bytes).length < MIN_TOKEN_LENGTH
        ∧ (ok = false ∧ loadLine ok bytes cts = .ok .noMemory
          ∨ ok = true ∧ ∃ cts' x, loadLine ok bytes cts = .ok (.added cts')
            ∧ Repr cts'.mem cts'.people (x :: t) ∧ x.2.pair = some (lineContact bytes)
            ∧ cts'.count = cts.count + 1) := by
  have hlength : (CString.ofBytes (lineBuffer bytes)).strlen = (lineText bytes).length := by
    unfold lineBuffer
    rw [CString.ofBytes_append_replicate]
    rfl
  have hload : loadLine ok bytes cts
      = (parserToken (lineBuffer bytes) (lineText bytes).length (List.replicate NAME_LENGTH 0)
          (List.replicate PHONE_LENGTH 0) >>= fun r =>
        if r.1 ≠ 0 then .ok .skipped else addPerson ok r.2.1 r.2.2 cts) := by
    rw [← hlength]
    rfl
  rw [hload]
  by_cases hshort : (lineText bytes).length < MIN_TOKEN_LENGTH
  · exact Or.inr (Or.inl ⟨Or.inl hshort, hshort, bind_ok (if_pos hshort) rfl⟩)
  rcases parserToken_cases hshort with ⟨hloads, name, phone, hparse, hname, hphone⟩
    | ⟨hloads, f, hparse⟩
  · have hpair : Person.pair ⟨name, phone⟩ = some (lineContact bytes) :=
      Person.pair_eq_some.mpr ⟨hname, hphone⟩
    refine Or.inr (Or.inr ⟨hloads, hshort, ?_⟩)
    rcases addPerson_eq hrepr ok name phone with ⟨hok, hno⟩ | ⟨hok, cts', a, hadd, hrepr', hcount⟩
    · exact Or.inl ⟨hok, bind_ok hparse hno⟩
    · exact Or.inr ⟨hok, cts', _, bind_ok hparse hadd, hrepr', hpair, hcount⟩
  · refine Or.inl ⟨hloads, hshort, f, ?_⟩
    rw [hparse]
    rfl

/-- What is left of a file is less, where its end was not met. -/
theorem length_fgets_lt {n : ℕ} {file : List UInt8} (h : (fgets (n + 1) file).2.2 = false) :
    (fgets (n + 1) file).2.1.length < file.length := by
  have hle : ∀ (n : ℕ) (file : List UInt8), (fgets n file).2.1.length ≤ file.length := by
    intro n
    induction n with
    | zero => exact fun file => le_rfl
    | succ n ih =>
      intro file
      cases file with
      | nil => exact le_rfl
      | cons c file =>
        unfold fgets
        split
        · exact Nat.le_succ _
        · exact (ih file).trans (Nat.le_succ _)
  cases file with
  | nil => cases h
  | cons c file =>
    unfold fgets
    split
    · exact Nat.lt_succ_self _
    · exact Nat.lt_succ_of_le (hle n file)

/-- **What is loaded from a file is put in front**, and counted. -/
theorem loadLoop_cases {file : List UInt8} (hfuel : file.length < fuel)
    (hrepr : Repr cts.mem cts.people t) :
    (¬ ∀ bytes ∈ scannedFrom malloc k (fileLines fuel file), LineLoads bytes)
        ∧ (∃ f, loadLoop malloc fuel k file cts = .error f)
      ∨ (∀ bytes ∈ scannedFrom malloc k (fileLines fuel file), LineLoads bytes)
        ∧ ∃ ret cts' u, loadLoop malloc fuel k file cts = .ok (ret, cts')
          ∧ Repr cts'.mem cts'.people (u ++ t)
          ∧ Spell u (loadedFrom malloc k (fileLines fuel file))
          ∧ cts'.count = cts.count + u.length := by
  induction fuel generalizing k file cts t with
  | zero => exact absurd hfuel (Nat.not_lt_zero _)
  | succ fuel ih =>
    have hshort : (fgets (BUFFER_LENGTH - 1) file).2.2 = false →
        (fgets (BUFFER_LENGTH - 1) file).2.1.length < fuel :=
      fun heof => (length_fgets_lt heof).trans_le (Nat.lt_succ_iff.mp hfuel)
    unfold fileLines loadLoop
    obtain ⟨⟨bytes, rest, eof⟩, hread⟩ : ∃ r, fgets (BUFFER_LENGTH - 1) file = r := ⟨_, rfl⟩
    rw [hread] at hshort ⊢
    dsimp only at hshort ⊢
    unfold scannedFrom loadedFrom
    rw [List.forall_mem_cons]
    rcases loadLine_cases hrepr (malloc k) bytes with ⟨hloads, -, f, hline⟩ | ⟨hloads, hskip, hline⟩
      | ⟨hloads, hlong, ⟨hok, hline⟩ | ⟨hok, b, x, hline, hreprb, hx, hcount⟩⟩
    · rw [hline]
      exact Or.inl ⟨fun h => hloads h.1, f, rfl⟩
    · rw [hline, if_pos hskip, if_pos hskip, and_iff_right hloads]
      cases eof with
      | true =>
        exact Or.inr ⟨fun b hb => absurd hb List.not_mem_nil, 0, cts, [], rfl, hrepr, rfl,
          (Int.add_zero _).symm⟩
      | false => exact ih (hshort rfl) hrepr
    · rw [hline, if_neg hlong, if_neg hlong, hok, if_neg Bool.false_ne_true,
        if_neg Bool.false_ne_true, and_iff_right hloads]
      exact Or.inr ⟨fun b hb => absurd hb List.not_mem_nil, -2, cts, [], rfl, hrepr, rfl,
        (Int.add_zero _).symm⟩
    · rw [hline, if_neg hlong, if_neg hlong, if_pos hok, if_pos hok, and_iff_right hloads]
      -- the contact of this line comes behind those of the lines that follow
      cases eof with
      | true =>
        exact Or.inr ⟨fun b hb => absurd hb List.not_mem_nil, 0, b, [x], rfl, hreprb,
          Spell.cons rfl hx, hcount⟩
      | false =>
        rcases ih (hshort rfl) hreprb with ⟨hnone, f, herror⟩
          | ⟨hall, ret, cts', u, hrest, hreprc, hspell, hcountc⟩
        · exact Or.inl ⟨hnone, f, herror⟩
        · refine Or.inr ⟨hall, ret, cts', u ++ [x], hrest, ?_,
            hspell.append (Spell.cons rfl hx), ?_⟩
          · rw [List.append_assoc]
            exact hreprc
          · rw [hcountc, hcount, List.length_append, List.length_singleton]
            push_cast
            ring

theorem loadEntry_cases (hrepr : Repr cts.mem cts.people t) (hword : word.length < NAME_LENGTH)
    (file : Option (List UInt8)) (d : Dialect) :
    (¬ ∀ bytes ∈ scanned malloc file, LineLoads bytes)
        ∧ (∃ f, loadEntry d word malloc file cts = .error f)
      ∨ (∀ bytes ∈ scanned malloc file, LineLoads bytes)
        ∧ ∃ cts' u, loadEntry d word malloc file cts
          = (if cts'.count ≤ INT_MAX then d.flowOff.map (fun _ => cts') else .error .overflow)
        ∧ Repr cts'.mem cts'.people (u ++ t) ∧ Spell u (loaded malloc file)
        ∧ cts'.count = cts.count + u.length := by
  obtain ⟨array, hscan, -⟩ := exists_scanf hword
  have hend : ∀ cts : Book, (if cts.count ≤ INT_MAX then (do d.flowOff; return cts)
      else throw .overflow : Except Fault Book)
      = if cts.count ≤ INT_MAX then d.flowOff.map (fun _ => cts) else .error .overflow := by
    intro cts
    cases d <;> rfl
  cases file with
  | none =>
    exact Or.inr ⟨fun b hb => absurd hb List.not_mem_nil, cts, [],
      bind_ok hscan (bind_ok rfl (hend cts)), hrepr, rfl, (Int.add_zero _).symm⟩
  | some file =>
    rcases loadLoop_cases (Nat.lt_succ_self file.length) hrepr with ⟨hnone, f, herror⟩
      | ⟨hall, ret, cts', u, hload, hrepr', hspell, hcount⟩
    · exact Or.inl ⟨hnone, f, bind_ok hscan (by
        show (loadLoop malloc (file.length + 1) 0 file cts >>= _) = _
        rw [herror]
        rfl)⟩
    · exact Or.inr ⟨hall, cts', u, bind_ok hscan (bind_ok hload (hend cts')), hrepr', hspell,
        hcount⟩

end Operations

/-! ## Runs of the menu -/

/-- **The contacts in the program**: they are on its list, and it counts them. -/
def Represents (cts : Book) (cs : List Contact) : Prop :=
  ∃ t, Repr cts.mem cts.people t ∧ Spell t cs ∧ cts.count = cs.length

section Menu

variable {d : Dialect} {cts cts' : Book} {cs : List Contact} {op : Oper}

/-- An operation that returns is a step of the menu. -/
theorem menu_of_apply {r : (ℤ × List UInt8) × Book} (hfits : op.Fits) (h : op.apply d cts = .ok r) :
    menu d cts ⟨op, hfits⟩ = some r := congrArg Except.toOption h

/-- Somebody who is inserted comes first. -/
theorem Represents.insertEntry (hrep : Represents cts cs) (hmax : (cs.length : ℤ) < INT_MAX)
    {name phone : List UInt8} (hname : name.length < NAME_LENGTH)
    (hphone : phone.length < PHONE_LENGTH) :
    ∃ cts', Contacts.insertEntry true name phone cts = .ok (0, cts')
      ∧ Represents cts' ((CString.ofBytes name, CString.ofBytes phone) :: cs) := by
  obtain ⟨t, hrepr, hspell, hcount⟩ := hrep
  obtain ⟨mem', p, hinsert, hrepr', hp⟩ := insertEntry_true hrepr hname hphone
  rw [hcount, if_pos hmax] at hinsert
  refine ⟨_, hinsert, _, hrepr', hspell.cons hp, ?_⟩
  rw [List.length_cons, Nat.cast_succ]

/-- Those who are loaded come before those who were there. -/
theorem Represents.loadEntry (hrep : Represents cts cs) {filename : List UInt8}
    (hfits : filename.length < NAME_LENGTH) {malloc : ℕ → Bool} {file : Option (List UInt8)}
    (hlines : ∀ bytes ∈ scanned malloc file, LineLoads bytes)
    (hmax : ((loaded malloc file ++ cs).length : ℤ) ≤ INT_MAX) :
    ∃ cts', Contacts.loadEntry .c filename malloc file cts = .ok cts'
      ∧ Represents cts' (loaded malloc file ++ cs) := by
  obtain ⟨t, hrepr, hspell, hcount⟩ := hrep
  rcases loadEntry_cases hrepr hfits file .c with ⟨hnone, -⟩
    | ⟨-, cts', u, hload, hrepr', hspell', hcount'⟩
  · exact absurd hlines hnone
  · have hlen : cts'.count = (loaded malloc file ++ cs).length := by
      rw [hcount', hcount, hspell'.length, List.length_append]
      push_cast
      ring
    rw [hlen, if_pos hmax] at hload
    exact ⟨cts', hload, u ++ t, hrepr', hspell'.append hspell, hlen⟩

/-- **The menu is a directory of contacts**, as long as it keeps the count. -/
theorem menu_simulates (d : Dialect) :
    Simulates (menu d) directory Subtype.val (KeepsCount d) Represents := by
  rintro cts cs ⟨op, hfits⟩ hrep hkeeps
  have ⟨t, hrepr, hspell, hcount⟩ := hrep
  cases op with
  | insert ok name phone =>
    cases ok with
    | false => exact ⟨cts, menu_of_apply hfits rfl, t, hrepr, hspell, hcount⟩
    | true =>
      obtain ⟨cts', hinsert, hrep'⟩ := hrep.insertEntry (hkeeps rfl) hfits.1 hfits.2
      exact ⟨cts', menu_of_apply hfits (bind_ok hinsert rfl), hrep'⟩
  | print =>
    obtain rfl : d = .c := hkeeps
    exact ⟨cts, menu_of_apply hfits (bind_ok (printEntry_eq hrepr hspell .c) rfl), t, hrepr, hspell,
      hcount⟩
  | delete name =>
    have hfind : cs.find? (Contact.Named name) = none :=
      List.find?_eq_none.mpr (fun c hc => by simpa using hkeeps c hc)
    rcases deleteEntry_eq hrepr hspell hfits with ⟨-, hdelete, -⟩ | ⟨c, cts', hsome, -⟩
    · have hdir : directory cs (.delete name) = ((-2, []), cs) := by simp only [directory, hfind]
      rw [hdir]
      exact ⟨cts, menu_of_apply hfits (bind_ok hdelete rfl), t, hrepr, hspell, hcount⟩
    · cases hfind.symm.trans hsome
  | search name =>
    have hsearch := searchEntry_eq hrepr hspell hfits
    have hdir : directory cs (.search name) = (match cs.find? (Contact.Named name) with
        | none => (-2, [])
        | some c => (0, c.listing), cs) := by
      simp only [directory]
      cases cs.find? (Contact.Named name) <;> rfl
    rw [hdir]
    exact ⟨cts, menu_of_apply hfits (bind_ok hsearch rfl), t, hrepr, hspell, hcount⟩
  | save filename opened =>
    obtain rfl : d = .c := hkeeps
    exact ⟨cts, menu_of_apply hfits (bind_ok (saveEntry_eq hrepr hspell hfits opened .c) rfl), t,
      hrepr, hspell, hcount⟩
  | load filename malloc file =>
    obtain ⟨rfl, hlines, hmax⟩ := hkeeps
    obtain ⟨cts', hload, hrep'⟩ := hrep.loadEntry hfits hlines hmax
    exact ⟨cts', menu_of_apply hfits (bind_ok hload rfl), hrep'⟩

/-- A step that keeps the count leaves it right. -/
theorem CountsPersons.of_keeps (hfits : op.Fits) (hrep : Represents cts cs)
    (hkeeps : KeepsCount d cs op) {r : ℤ × List UInt8}
    (hstep : menu d cts ⟨op, hfits⟩ = some (r, cts'))
    (hrep' : Represents cts' (directory cs op).2) : CountsPersons cts op cts' := by
  obtain ⟨t, hrepr, hspell, -⟩ := hrep
  obtain ⟨t', hrepr', hspell', hcount'⟩ := hrep'
  have hlen : cts'.count = t'.length := by rw [hcount', hspell'.length]
  cases op with
  | delete name =>
    have hfind : cs.find? (Contact.Named name) = none :=
      List.find?_eq_none.mpr (fun c hc => by simpa using hkeeps c hc)
    rcases deleteEntry_eq hrepr hspell hfits with ⟨-, hdelete, hsame⟩ | ⟨c, b, hsome, -⟩
    · have hsame' := (menu_of_apply hfits (bind_ok hdelete rfl)).symm.trans hstep
      obtain ⟨-, rfl⟩ := Prod.mk.inj (Option.some.inj hsame')
      have hlen' : t'.length = t.length := by
        have hvalues := Option.some.inj (hrepr.values.symm.trans hrepr'.values)
        simpa using (congrArg List.length hvalues).symm
      refine ⟨t, t, hrepr, hrepr, by rw [hlen, hlen'], ?_⟩
      rintro word ⟨⟩
      exact hsame.symm
    · cases hfind.symm.trans hsome
  | _ => exact ⟨t, t', hrepr, hrepr', hlen, fun word he => by cases he⟩

/-- **Somebody who is deleted** is still counted. -/
theorem not_countsPersons_delete {name : List UInt8} {c : Contact} (hrep : Represents cts cs)
    (hfits : name.length < NAME_LENGTH) (hc : c ∈ cs) (hnamed : c.Named name)
    {r : ℤ × List UInt8}
    (hstep : menu d cts ⟨.delete name, hfits⟩ = some (r, cts')) :
    ¬ CountsPersons cts (.delete name) cts' := by
  rintro ⟨t₁, t₂, hrepr₁, -, hcount₂, herase⟩
  obtain ⟨t, hrepr, hspell, hcount⟩ := hrep
  rcases deleteEntry_eq hrepr hspell hfits with ⟨hnone, -⟩ | ⟨_, b, -, hdelete, hcountb, -, hrest⟩
  · exact List.find?_eq_none.mp hnone c hc (decide_eq_true hnamed)
  have hmenu := menu_of_apply (d := d) (show (Oper.delete name).Fits from hfits)
    (bind_ok hdelete rfl)
  obtain ⟨-, rfl⟩ := Prod.mk.inj (Option.some.inj (hmenu.symm.trans hstep))
  -- what the persons are does not depend on how the list is told
  have hvalues := Option.some.inj (hrepr.values.symm.trans hrepr₁.values)
  have hlength : ∀ u : NodeList Person, (u.eraseP (fun x => x.2.Named name)).length
      = ((u.map Prod.snd).eraseP (fun p => p.Named name)).length := by
    intro u
    rw [List.eraseP_map, List.length_map]
    rfl
  have hlen₂ : t₂.length = (t.eraseP (fun x => x.2.Named name)).length := by
    rw [herase name rfl, hlength, hlength, hvalues]
  have hlen : (cs.eraseP (fun c => c.Named name)).length = cs.length - 1 :=
    List.length_eraseP_of_mem hc (decide_eq_true hnamed)
  have hpos := List.length_pos_of_mem hc
  rw [hcountb, hcount, hlen₂, hrest.length] at hcount₂
  have hsame := Nat.cast_inj.mp hcount₂
  omega

/-- **A step that does not keep the count** goes wrong, or somebody is deleted and still
counted. -/
theorem not_countsPersons (hfits : op.Fits) (hrep : Represents cts cs)
    (hkeeps : ¬ KeepsCount d cs op) {r : ℤ × List UInt8}
    (hstep : menu d cts ⟨op, hfits⟩ = some (r, cts')) : ¬ CountsPersons cts op cts' := by
  have ⟨t, hrepr, hspell, hcount⟩ := hrep
  have hwrong : ∀ {f}, op.apply d cts = .error f → False := by
    intro f herror
    have hnone : menu d cts ⟨op, hfits⟩ = none := congrArg Except.toOption herror
    cases hnone.symm.trans hstep
  have hcpp : ∀ {d : Dialect}, d ≠ .c → d = .cpp := fun {d} hd => by
    cases d with
    | c => exact absurd rfl hd
    | cpp => rfl
  cases op with
  | insert ok name phone =>
    obtain ⟨rfl, hmax⟩ := Classical.not_imp.mp hkeeps
    obtain ⟨mem', p, hinsert, -⟩ := insertEntry_true hrepr hfits.1 hfits.2
    rw [hcount, if_neg hmax] at hinsert
    exact (hwrong (by show (_ >>= _) = _; rw [hinsert]; rfl)).elim
  | delete name =>
    obtain ⟨c, hc⟩ := Classical.not_forall.mp hkeeps
    obtain ⟨hc, hnamed⟩ := Classical.not_imp.mp hc
    exact not_countsPersons_delete hrep hfits hc (not_not.mp hnamed) hstep
  | print =>
    obtain rfl : d = .cpp := hcpp hkeeps
    have herror : printEntry .cpp cts = .error .noReturn := printEntry_eq hrepr hspell .cpp
    exact (hwrong (by show (_ >>= _) = _; rw [herror]; rfl)).elim
  | search name => exact absurd trivial hkeeps
  | save filename opened =>
    obtain rfl : d = .cpp := hcpp hkeeps
    have herror : saveEntry .cpp filename opened cts = .error .noReturn :=
      saveEntry_eq hrepr hspell hfits opened .cpp
    exact (hwrong (by show (_ >>= _) = _; rw [herror]; rfl)).elim
  | load filename malloc file =>
    rcases loadEntry_cases hrepr hfits file d with ⟨-, f, herror⟩
      | ⟨hlines, b, u, hload, -, hspell', hcount'⟩
    · exact (hwrong (by show (_ >>= _) = _; rw [herror]; rfl)).elim
    · have herror : ∃ f, loadEntry d filename malloc file cts = .error f := by
        rw [hload]
        by_cases hmany : b.count ≤ INT_MAX
        · rw [if_pos hmany]
          rw [hcount', hcount, hspell'.length] at hmany
          obtain rfl : d = .cpp := hcpp (fun hd => hkeeps ⟨hd, hlines, by
            rw [List.length_append]
            push_cast
            linarith⟩)
          exact ⟨_, rfl⟩
        · exact ⟨_, if_neg hmany⟩
      obtain ⟨f, herror⟩ := herror
      exact (hwrong (by show (_ >>= _) = _; rw [herror]; rfl)).elim

/-- **The count is right in every run** in which nobody is deleted, the lines that are scanned of
files can be got over, no more persons come than an `int` counts, and – as C++ –
nothing is printed, saved or loaded; and in no other. -/
theorem counts_persons_iff (d : Dialect) (mem : Heap (Node Person))
    (ops : List {op : Oper // op.Fits}) :
    (menu d).Holds (fun cts op _ cts' => CountsPersons cts op.val cts') ⟨mem, 0, 0⟩ ops
      ↔ directory.Along (KeepsCount d) [] (ops.map Subtype.val) := by
  have hinit : Represents ⟨mem, 0, 0⟩ [] := ⟨[], Repr.empty mem, rfl, rfl⟩
  exact (menu_simulates d).holds_iff
    (fun cts cs op cts' hrep hkeeps hstep hrep' =>
      CountsPersons.of_keeps op.property hrep hkeeps hstep hrep')
    (fun cts cs op r cts' hrep hkeeps hstep =>
      not_countsPersons op.property hrep hkeeps hstep) hinit

/-- **Somebody who is inserted and deleted** is still counted, be it C or C++. -/
theorem not_counts_bob :
    ¬ (menu .c).Holds (fun cts op _ cts' => CountsPersons cts op.val cts')
        ⟨Heap.empty, 0, 0⟩ [⟨.insert true (ascii "bob") (ascii "123"), by decide, by decide⟩,
          ⟨.delete (ascii "bob"), show 3 < NAME_LENGTH by decide⟩]
      ∧ ¬ (menu .cpp).Holds (fun cts op _ cts' => CountsPersons cts op.val cts')
        ⟨Heap.empty, 0, 0⟩ [⟨.insert true (ascii "bob") (ascii "123"), by decide, by decide⟩,
          ⟨.delete (ascii "bob"), show 3 < NAME_LENGTH by decide⟩] := by
  suffices hbob : ∀ d : Dialect, ¬ (menu d).Holds
      (fun cts op _ cts' => CountsPersons cts op.val cts') ⟨Heap.empty, 0, 0⟩
      [⟨.insert true (ascii "bob") (ascii "123"), by decide, by decide⟩,
        ⟨.delete (ascii "bob"), show 3 < NAME_LENGTH by decide⟩] from ⟨hbob .c, hbob .cpp⟩
  intro d
  have hinit : Represents ⟨Heap.empty, 0, 0⟩ [] := ⟨[], Repr.empty _, rfl, rfl⟩
  obtain ⟨cts, hinsert, hrep⟩ := menu_simulates d ⟨Heap.empty, 0, 0⟩ []
    ⟨.insert true (ascii "bob") (ascii "123"), by decide, by decide⟩ hinit
    (fun _ => show (0 : ℤ) < INT_MAX by decide)
  rintro ⟨r, cts', hstep, -, r', cts'', hstep', hcounts, -⟩
  obtain ⟨-, rfl⟩ := Prod.mk.inj (Option.some.inj (hinsert.symm.trans hstep))
  have hkeeps : ¬ KeepsCount d [(CString.ofBytes (ascii "bob"), CString.ofBytes (ascii "123"))]
      (.delete (ascii "bob")) := fun h => h _ List.mem_cons_self rfl
  exact not_countsPersons _ hrep hkeeps hstep' hcounts

end Menu

end Contacts
