import LinuxLearn.DList
import LinuxLearn.Simulation

/-!
# The list macros

Three programs of the repository edit their doubly linked lists with macros
of their own: `LIST_INSERT_HEAD`, `LIST_INSERT_TAIL` and `LIST_REMOVE` of
`Threadpool.c`, `LL_ADD` and `LL_REMOVE` of `tcp_concurrency.c`,
`LIST_INSERT` and `LIST_REMOVE` of `contacts.cpp`. Each is one of three
macros under another name.

Whatever nodes are put in and taken out, the list is the sequence of the
nodes that are in it: it can be walked forwards to its end, its two links
are inverse to each other, a node that was taken out has none, and no other
node is touched (`edits_sequence`).
-/

namespace ListMacros

open DList

variable {α : Type}

/-- **`LIST_INSERT_HEAD`.** -/
def listInsertHead (mem : Heap (Node α)) (item list : Ptr) : Option (Ptr × Heap (Node α)) :=
  insertHead mem item list

/-- **`LIST_INSERT_TAIL`.** -/
def listInsertTail (mem : Heap (Node α)) (item list : Ptr) : Option (Ptr × Heap (Node α)) :=
  insertTail mem item list

/-- **`LIST_REMOVE`.** -/
def listRemove (mem : Heap (Node α)) (item list : Ptr) : Option (Ptr × Heap (Node α)) :=
  DList.remove mem item list

/-- **`LL_ADD`.** -/
def llAdd (mem : Heap (Node α)) (item list : Ptr) : Option (Ptr × Heap (Node α)) :=
  insertHead mem item list

/-- **`LL_REMOVE`.** -/
def llRemove (mem : Heap (Node α)) (item list : Ptr) : Option (Ptr × Heap (Node α)) :=
  DList.remove mem item list

/-- **`LIST_INSERT`.** -/
def listInsert (mem : Heap (Node α)) (item list : Ptr) : Option (Ptr × Heap (Node α)) :=
  insertHead mem item list

/-- **The macros**, by their names. -/
inductive MacroName where
  | listInsertHead
  | listInsertTail
  | listRemove
  | llAdd
  | llRemove
  | listInsert

/-- A macro, applied to a node and a list. -/
def MacroName.run (mem : Heap (Node α)) (item list : Ptr) :
    MacroName → Option (Ptr × Heap (Node α))
  | .listInsertHead => ListMacros.listInsertHead mem item list
  | .listInsertTail => ListMacros.listInsertTail mem item list
  | .listRemove => ListMacros.listRemove mem item list
  | .llAdd => ListMacros.llAdd mem item list
  | .llRemove => ListMacros.llRemove mem item list
  | .listInsert => ListMacros.listInsert mem item list

/-- What a macro is for: a node is put in front, or at the end, or taken out. -/
inductive Kind where
  | head
  | tail
  | out
deriving DecidableEq

/-- What each macro is for. -/
def MacroName.kind : MacroName → Kind
  | .listInsertHead => .head
  | .listInsertTail => .tail
  | .listRemove => .out
  | .llAdd => .head
  | .llRemove => .out
  | .listInsert => .head

/-- **An edit** of a list, by one of the macros. -/
structure Edit where
  name : MacroName
  item : Ptr

/-- **A list**: its variable, and the memory its nodes are in. -/
structure State (α : Type) where
  mem : Heap (Node α)
  list : Ptr

/-- **A list that is edited.** -/
def machine : Machine (State α) Edit Unit := fun s e =>
  (e.name.run s.mem e.item s.list).map (fun r => ((), ⟨r.2, r.1⟩))

/-- The sequence of the nodes after an edit. -/
def edited (ps : List Ptr) (item : Ptr) : Kind → List Ptr
  | .head => item :: ps
  | .tail => ps ++ [item]
  | .out => ps.erase item

/-- **What the macros are for**: a sequence of nodes. -/
def sequence : Spec (List Ptr) Edit Unit := fun ps e => ((), edited ps e.item e.name.kind)

/-- **A node that is taken out** is in the list, and one that is put in is there and is not. -/
def Edit.Admissible (mem : Heap (Node α)) (ps : List Ptr) (e : Edit) : Prop :=
  if e.name.kind = .out then e.item ∈ ps else e.item ∉ ps ∧ (mem.load e.item).isSome

instance (mem : Heap (Node α)) (ps : List Ptr) (e : Edit) : Decidable (e.Admissible mem ps) :=
  inferInstanceAs (Decidable
    (if e.name.kind = .out then e.item ∈ ps else e.item ∉ ps ∧ (mem.load e.item).isSome))

/-- **A well-formed list** of some nodes. -/
structure Lists (s : State α) (ps : List Ptr) : Prop where
  /-- Followed from the variable, the next links meet the nodes, and then `NULL`. -/
  linked : Linked (next s.mem) s.list ps
  /-- No node is met twice. -/
  nodup : ps.Nodup
  /-- There is nothing before the first node. -/
  head_prev : s.list ≠ 0 → prev s.mem s.list = some 0
  /-- The links are inverse to each other. -/
  inverse : ∀ p ∈ ps, ∀ q ∈ ps, next s.mem p = some q ↔ prev s.mem q = some p

/-- **What an edit owes**: a node that was taken out has no links, and the nodes that are
not in the list are not touched. -/
def EditOk (s : State α) (e : Edit) (_ : Unit) (s' : State α) : Prop :=
  ∃ ps, Lists s ps ∧ Lists s' (sequence ps e).2
    ∧ (e.name.kind = .out → next s'.mem e.item = some 0 ∧ prev s'.mem e.item = some 0)
    ∧ ∀ p, p ∉ ps → p ≠ e.item → s'.mem.load p = s.mem.load p

section

variable {s s' : State α} {t a b : NodeList α} {mem mem' : Heap (Node α)} {list p : Ptr}
  {v : α}

/-- A node of a list, as it is in memory. -/
theorem load_split (h : Repr mem list (a ++ (p, v) :: b)) :
    mem.load p = some ⟨v, lastD a 0, headD b 0⟩ := (seg_append.mp h.seg).2.1

theorem next_split (h : Repr mem list (a ++ (p, v) :: b)) : next mem p = some (headD b 0) :=
  congrArg (Option.map Node.next) (load_split h)

theorem prev_split (h : Repr mem list (a ++ (p, v) :: b)) : prev mem p = some (lastD a 0) :=
  congrArg (Option.map Node.prev) (load_split h)

theorem exists_split (hp : p ∈ t.map Prod.fst) : ∃ a v b, t = a ++ (p, v) :: b := by
  obtain ⟨x, hx, rfl⟩ := List.mem_map.mp hp
  obtain ⟨a, b, rfl⟩ := List.append_of_mem hx
  exact ⟨a, x.2, b, rfl⟩

theorem ne_null (h : Repr mem list t) (hp : p ∈ t.map Prod.fst) : p ≠ 0 := by
  obtain ⟨a, v, b, rfl⟩ := exists_split hp
  exact Heap.ne_null_of_load (load_split h)

/-- **The links are inverse to each other.** -/
theorem next_iff_prev (h : Repr mem list t) {q : Ptr} (hp : p ∈ t.map Prod.fst)
    (hq : q ∈ t.map Prod.fst) : next mem p = some q ↔ prev mem q = some p := by
  constructor
  · intro hnext
    obtain ⟨a, v, b, rfl⟩ := exists_split hp
    have hb := Option.some.inj ((next_split h).symm.trans hnext)
    -- what follows the one node is the other
    cases b with
    | nil => exact absurd hb.symm (ne_null h hq)
    | cons y b =>
      obtain rfl : y.1 = q := hb
      rw [List.append_cons] at h
      rw [prev_split (a := a ++ [(p, v)]) h]
      simp [lastD]
  · intro hprev
    obtain ⟨a, w, b, rfl⟩ := exists_split hq
    have ha := Option.some.inj ((prev_split h).symm.trans hprev)
    rcases List.eq_nil_or_concat a with rfl | ⟨a, x, rfl⟩
    · exact absurd ha.symm (ne_null h hp)
    · rw [List.concat_eq_append] at ha h
      obtain rfl : x.1 = p := by simpa [lastD] using ha
      rw [List.append_assoc] at h
      exact next_split h

/-- **A list that is represented is well formed.** -/
theorem lists_of_repr (h : Repr s.mem s.list t) : Lists s (t.map Prod.fst) where
  linked := h.linked
  nodup := h.distinct
  head_prev := by
    intro hne
    rw [h.head_eq] at hne ⊢
    cases t with
    | nil => exact absurd rfl hne
    | cons x t => exact prev_split (a := []) h
  inverse := fun _ hp _ hq => next_iff_prev h hp hq

/-- **What holds between the edits**: the list is represented, and the nodes that are there
are those that were there. -/
structure Inv (mem₀ : Heap (Node α)) (s : State α) (ps : List Ptr) : Prop where
  repr : ∃ t, Repr s.mem s.list t ∧ t.map Prod.fst = ps
  live : ∀ p, (mem₀.load p).isSome → (s.mem.load p).isSome

variable {mem₀ : Heap (Node α)} {ps : List Ptr} {item : Ptr} {e : Edit}

/-- Where an edit touches only its node and those of the list, all stay that were there. -/
theorem Inv.of_frame (h : Inv mem₀ s ps) (hrepr : Repr mem list t)
    (hitem : (mem.load item).isSome)
    (hframe : ∀ p, p ∉ t.map Prod.fst → p ≠ item → mem.load p = s.mem.load p) :
    Inv mem₀ ⟨mem, list⟩ (t.map Prod.fst) := by
  refine ⟨⟨t, hrepr, rfl⟩, fun p hp => ?_⟩
  by_cases hpt : p ∈ t.map Prod.fst
  · obtain ⟨a, v, b, rfl⟩ := exists_split hpt
    show (mem.load p).isSome
    rw [load_split hrepr]
    rfl
  by_cases hne : p = item
  · rw [hne]
    exact hitem
  · show (mem.load p).isSome
    rw [hframe p hpt hne]
    exact h.live p hp

/-- **A node is put in front.** -/
theorem Inv.insertHead (h : Inv mem₀ s ps) (hitem : item ∉ ps) (hlive : (mem₀.load item).isSome) :
    ∃ list mem, DList.insertHead s.mem item s.list = some (list, mem)
      ∧ Inv mem₀ ⟨mem, list⟩ (item :: ps)
      ∧ ∀ p, p ∉ ps → p ≠ item → mem.load p = s.mem.load p := by
  obtain ⟨t, hrepr, rfl⟩ := h.repr
  obtain ⟨node, hload⟩ := Option.isSome_iff_exists.mp (h.live item hlive)
  obtain ⟨mem, hinsert, hrepr', hother, -⟩ := hrepr.insertHead hload hitem
  have hitem' : (mem.load item).isSome := by
    rw [load_split (a := []) hrepr']
    rfl
  refine ⟨item, mem, hinsert, h.of_frame hrepr' hitem' (fun p hp hne => ?_),
    fun p hp hne => hother p hne hp⟩
  exact hother p hne (fun hmem => hp (List.mem_cons_of_mem item hmem))

/-- **A node is put at the end.** -/
theorem Inv.insertTail (h : Inv mem₀ s ps) (hitem : item ∉ ps) (hlive : (mem₀.load item).isSome) :
    ∃ list mem, DList.insertTail s.mem item s.list = some (list, mem)
      ∧ Inv mem₀ ⟨mem, list⟩ (ps ++ [item])
      ∧ ∀ p, p ∉ ps → p ≠ item → mem.load p = s.mem.load p := by
  obtain ⟨t, hrepr, rfl⟩ := h.repr
  obtain ⟨node, hload⟩ := Option.isSome_iff_exists.mp (h.live item hlive)
  obtain ⟨mem, hinsert, hrepr', hother, -⟩ := hrepr.insertTail hload hitem
  have hitem' : (mem.load item).isSome := by
    rw [load_split hrepr']
    rfl
  have hinv := h.of_frame hrepr' hitem' (fun p hp hne => by
    refine hother p hne (fun hmem => hp ?_)
    rw [List.map_append]
    exact List.mem_append_left _ hmem)
  have hps : (t ++ [(item, node.val)]).map Prod.fst = t.map Prod.fst ++ [item] := List.map_append
  exact ⟨_, mem, hinsert, hps ▸ hinv, fun p hp hne => hother p hne hp⟩

/-- **A node is taken out.** -/
theorem Inv.remove (h : Inv mem₀ s ps) (hitem : item ∈ ps) :
    ∃ list mem, DList.remove s.mem item s.list = some (list, mem)
      ∧ Inv mem₀ ⟨mem, list⟩ (ps.erase item)
      ∧ (next mem item = some 0 ∧ prev mem item = some 0)
      ∧ ∀ p, p ∉ ps → p ≠ item → mem.load p = s.mem.load p := by
  obtain ⟨t, hrepr, rfl⟩ := h.repr
  obtain ⟨a, v, b, rfl⟩ := exists_split hitem
  obtain ⟨mem, hremove, hrepr', hload, hother, -⟩ := hrepr.remove
  have hdistinct := hrepr.distinct
  unfold NodeList.Distinct at hdistinct
  rw [List.map_append, List.map_cons] at hdistinct
  have hnotin : item ∉ a.map Prod.fst := fun hmem =>
    (List.nodup_append.mp hdistinct).2.2 item hmem item List.mem_cons_self rfl
  have herase : ((a ++ (item, v) :: b).map Prod.fst).erase item = (a ++ b).map Prod.fst := by
    rw [List.map_append, List.map_cons, List.erase_append_right _ hnotin, List.erase_cons_head,
      List.map_append]
  rw [herase]
  have hitem' : (mem.load item).isSome := by
    rw [hload]
    rfl
  have hinv := h.of_frame hrepr' hitem' (fun p hp hne => by
    refine hother p (fun hmem => hp ?_)
    rw [List.map_append] at hmem ⊢
    rcases List.mem_append.mp hmem with hmem | hmem
    · exact List.mem_append_left _ hmem
    · exact List.mem_append_right _ ((List.mem_cons.mp hmem).resolve_left hne))
  refine ⟨_, mem, hremove, hinv, ⟨?_, ?_⟩, fun p hp _ => hother p hp⟩
  · exact congrArg (Option.map Node.next) hload
  · exact congrArg (Option.map Node.prev) hload

/-- The macro, as the operation it is. -/
theorem run_eq (mem : Heap (Node α)) (e : Edit) (list : Ptr) :
    e.name.run mem e.item list = (match e.name.kind with
      | .head => DList.insertHead mem e.item list
      | .tail => DList.insertTail mem e.item list
      | .out => DList.remove mem e.item list) := by
  obtain ⟨name, item⟩ := e
  cases name with
  | listInsertHead => rfl
  | listInsertTail => rfl
  | listRemove => rfl
  | llAdd => rfl
  | llRemove => rfl
  | listInsert => rfl

/-- **Every edit is one of the sequence.** -/
theorem Inv.edit (h : Inv mem₀ s ps) (hadm : e.Admissible mem₀ ps) :
    ∃ list mem, e.name.run s.mem e.item s.list = some (list, mem)
      ∧ Inv mem₀ ⟨mem, list⟩ (edited ps e.item e.name.kind)
      ∧ (e.name.kind = .out → next mem e.item = some 0 ∧ prev mem e.item = some 0)
      ∧ ∀ p, p ∉ ps → p ≠ e.item → mem.load p = s.mem.load p := by
  unfold Edit.Admissible at hadm
  rw [run_eq]
  cases hkind : e.name.kind with
  | head =>
    rw [hkind, if_neg nofun] at hadm
    obtain ⟨list, mem, hrun, hinv, hframe⟩ := h.insertHead hadm.1 hadm.2
    exact ⟨list, mem, hrun, hinv, nofun, hframe⟩
  | tail =>
    rw [hkind, if_neg nofun] at hadm
    obtain ⟨list, mem, hrun, hinv, hframe⟩ := h.insertTail hadm.1 hadm.2
    exact ⟨list, mem, hrun, hinv, nofun, hframe⟩
  | out =>
    rw [hkind, if_pos rfl] at hadm
    obtain ⟨list, mem, hrun, hinv, hlinks, hframe⟩ := h.remove hadm
    exact ⟨list, mem, hrun, hinv, fun _ => hlinks, hframe⟩

theorem Inv.lists (h : Inv mem₀ s ps) : Lists s ps := by
  obtain ⟨t, hrepr, rfl⟩ := h.repr
  exact lists_of_repr hrepr

theorem machine_eq (hrun : e.name.run s.mem e.item s.list = some (list, mem)) :
    machine s e = some ((), ⟨mem, list⟩) := by
  unfold machine
  rw [hrun]
  rfl

/-- **The macros simulate a sequence.** -/
theorem machine_simulates (mem₀ : Heap (Node α)) :
    Simulates machine sequence id (fun ps e => e.Admissible mem₀ ps) (Inv mem₀) := by
  intro s ps e h hadm
  obtain ⟨list, mem, hrun, hinv, -⟩ := h.edit (e := e) hadm
  exact ⟨⟨mem, list⟩, machine_eq hrun, hinv⟩

/-- **The macros implement a sequence.** Whatever nodes of a memory are put in, unless they
are in the list, and taken out, if they are, the list that was empty is the sequence of the
nodes that are in it, after each edit; a node that was taken out has no links, and no other
node is touched. -/
theorem edits_sequence (mem : Heap (Node α)) (edits : List Edit)
    (h : sequence.Along (fun ps e => e.Admissible mem ps) [] edits) :
    (∃ s, machine.run ⟨mem, 0⟩ edits = some ((sequence.run [] edits).1, s)
        ∧ Lists s (sequence.run [] edits).2)
      ∧ machine.Holds EditOk ⟨mem, 0⟩ edits := by
  have hempty : Inv mem ⟨mem, 0⟩ [] := ⟨⟨[], .empty mem, rfl⟩, fun _ hp => hp⟩
  have hsim := machine_simulates mem
  rw [← List.map_id edits] at h
  obtain ⟨s, hrun, hinv⟩ := hsim.run hempty h
  rw [List.map_id] at hrun hinv
  refine ⟨⟨s, hrun, hinv.lists⟩, hsim.holds (fun s ps e s' hs hadm hstep hs' => ?_) hempty h⟩
  obtain ⟨list, mem', hedit, -, hlinks, hframe⟩ := hs.edit (e := e) hadm
  obtain ⟨-, rfl⟩ := Prod.mk.inj (Option.some.inj ((machine_eq hedit).symm.trans hstep))
  exact ⟨ps, hs.lists, hs'.lists, hlinks, hframe⟩

end

/-- Three nodes that are in no list. -/
def three : Heap (Node Unit) :=
  ((Heap.empty.alloc ⟨(), 0, 0⟩).alloc ⟨(), 0, 0⟩).alloc ⟨(), 0, 0⟩

/-- They are put in, and the one in the middle and the first are taken out. -/
def threeEdits : List Edit :=
  [⟨.listInsertHead, 1⟩, ⟨.listInsertTail, 2⟩, ⟨.llAdd, 3⟩, ⟨.listRemove, 1⟩, ⟨.llRemove, 3⟩]

theorem edits_sequence_three :
    (∃ s, machine.run ⟨three, 0⟩ threeEdits = some ((sequence.run [] threeEdits).1, s)
        ∧ Lists s (sequence.run [] threeEdits).2)
      ∧ machine.Holds EditOk ⟨three, 0⟩ threeEdits :=
  edits_sequence three threeEdits ⟨by decide, by decide, by decide, by decide, by decide, trivial⟩

end ListMacros
