import LinuxLearn.NtyTreeRemove
import LinuxLearn.Simulation

/-!
# The tree as an ordered set

What a tree is for is an ordered set: a list of elements in the order of their keys, no two of
which have one key. `orderedSet` says what each call is to give and what it is to leave.
`rbCall` makes the calls as the programs that use the macros make them: a new node is allocated
and zeroed and freed again if it is not inserted, and a node that is removed is freed. The
simulation between the two holds from any red-black tree whose nodes are all that is in the
memory, so nothing is lost and nothing leaks in any run.
-/

open RedBlack LinkedTree SearchTree
open RedBlack.RBTree (plug branch node toList)

namespace NtyTree

/-- What a tree is asked. -/
inductive RbCall (α : Type) where
  | insert (a : α)
  | find (a : α)
  | nfind (a : α)
  | remove (a : α)
  | min
  | max
  | foreach
  | foreachReverse

/-- What it answers: a node or none, or all nodes in an order. -/
inductive RbResult (α : Type) where
  | node (a : Option α)
  | nodes (l : List α)
deriving DecidableEq

variable {α : Type}

/-- **An ordered set**, as the list of its elements in order. -/
def orderedSet {κ : Type} [LinearOrder κ] (key : α → κ) : Spec (List α) (RbCall α) (RbResult α)
  | l, .insert a =>
    match l.find? (fun b => key b = key a) with
    | some b => (.node (some b), l)
    | none => (.node none, l.filter (fun b => key b < key a) ++ a :: l.filter (fun b => key a < key b))
  | l, .find a => (.node (l.find? (fun b => key b = key a)), l)
  | l, .nfind a => (.node (l.find? (fun b => key a ≤ key b)), l)
  | l, .remove a => (.node (l.find? (fun b => key b = key a)), l.filter (fun b => key b ≠ key a))
  | l, .min => (.node l.head?, l)
  | l, .max => (.node l.reverse.head?, l)
  | l, .foreach => (.nodes l, l)
  | l, .foreachReverse => (.nodes l.reverse, l)

theorem orderedSet_insert_found {κ : Type} [LinearOrder κ] {key : α → κ} {l : List α} {a b : α}
    (h : l.find? (fun b => key b = key a) = some b) :
    orderedSet key l (.insert a) = (.node (some b), l) := by
  simp only [orderedSet, h]

theorem orderedSet_insert_new {κ : Type} [LinearOrder κ] {key : α → κ} {l : List α} {a : α}
    (h : l.find? (fun b => key b = key a) = none) : orderedSet key l (.insert a)
      = (.node none, l.filter (fun b => key b < key a) ++ a :: l.filter (fun b => key a < key b)) := by
  simp only [orderedSet, h]

/-- What a pointer to a node, or a null pointer, leads to. -/
def nodeAt (head : LinkedTree α) (elm : Ptr) : Option (Option α) :=
  if elm = 0 then some none else (head.elemOf elm).map some

/-- **One call.** A new node is zeroed, and `RB_BLACK` is zero. -/
def rbCall (cmp : α → α → ℤ) : Machine (LinkedTree α) (RbCall α) (RbResult α)
  | head, .insert a => do
    let elm := head.nodes.next
    let head := { head with nodes := head.nodes.alloc ⟨0, 0, 0, RB_BLACK, a⟩ }
    let (tmp, head) ← rbInsert cmp head elm
    let found ← nodeAt head tmp
    if tmp = 0 then
      return (.node found, head)
    else
      let nodes ← head.nodes.free elm
      return (.node found, { head with nodes := nodes })
  | head, .find a => do
    return (.node (← nodeAt head (← rbFind cmp head a)), head)
  | head, .nfind a => do
    return (.node (← nodeAt head (← rbNfind cmp head a)), head)
  | head, .remove a => do
    let elm ← rbFind cmp head a
    if elm = 0 then
      return (.node none, head)
    else
      let (old, head) ← rbRemove head elm
      let found ← nodeAt head old
      let nodes ← head.nodes.free old
      return (.node found, { head with nodes := nodes })
  | head, .min => do
    return (.node (← nodeAt head (← rbMin head)), head)
  | head, .max => do
    return (.node (← nodeAt head (← rbMax head)), head)
  | head, .foreach => do
    return (.nodes (← (← rbForeach head).mapM head.elemOf), head)
  | head, .foreachReverse => do
    return (.nodes (← (← rbForeachReverse head).mapM head.elemOf), head)

/-- **A red-black search tree** with the given elements, whose nodes are all that is in the memory. -/
structure Tree {κ : Type} [LinearOrder κ] (key : α → κ) (T : LinkedTree α) (W : RBTree (Entry α))
    (r : Multiset (Ptr × LinkedNode α)) : Prop where
  rep : Rep T W T.nodes.next r
  bal : ∃ m, Balanced W .black m
  sorted : Sorted (entryKey key) W.toList

section Read

variable {T : LinkedTree α} {W : RBTree (Entry α)} {next : Ptr} {r : Multiset (Ptr × LinkedNode α)}
  {e : Entry α} {l : List (Entry α)}

/-- An element of the tree is read at its address. -/
theorem elemOf_mem (h : Rep T W next r) (he : e ∈ W.toList) : T.elemOf e.addr = some e.elem := by
  obtain ⟨nd, hnd, helem⟩ := mem_cells_iff.mpr he
  rw [elemOf_eq (h.holds.mem (Multiset.mem_add.mpr (Or.inl hnd))), helem]

theorem addr_ne_zero (h : Rep T W next r) (he : e ∈ W.toList) : e.addr ≠ 0 := by
  obtain ⟨nd, hnd, -⟩ := mem_cells_iff.mpr he
  exact h.holds.ne_null (Multiset.mem_add.mpr (Or.inl hnd))

theorem nodeAt_mem (h : Rep T W next r) (he : e ∈ W.toList) : nodeAt T e.addr = some (some e.elem) := by
  unfold nodeAt
  rw [if_neg (addr_ne_zero h he), elemOf_mem h he]
  rfl

/-- The first of some elements of the tree. -/
theorem nodeAt_firstPtr (h : Rep T W next r) (hl : ∀ e ∈ l, e ∈ W.toList) :
    nodeAt T (firstPtr l) = some (l.map Entry.elem).head? := by
  cases l with
  | nil => rfl
  | cons e l => exact nodeAt_mem h (hl e List.mem_cons_self)

/-- All of them, one after another. -/
theorem mapM_elemOf (h : Rep T W next r) (hl : ∀ e ∈ l, e ∈ W.toList) :
    (l.map Entry.addr).mapM T.elemOf = some (l.map Entry.elem) := by
  induction l with
  | nil => rfl
  | cons e l ih =>
    obtain ⟨he, hl⟩ := List.forall_mem_cons.mp hl
    rw [List.map_cons, List.mapM_cons]
    exact bind_of_eq (elemOf_mem h he) (bind_of_eq (ih hl) rfl)

end Read

section Calls

variable {κ : Type} [LinearOrder κ] {cmp : α → α → ℤ} {key : α → κ} {T : LinkedTree α}
  {W : RBTree (Entry α)} {r : Multiset (Ptr × LinkedNode α)}

/-- The elements are in the order of their keys. -/
theorem Tree.sorted_elems (h : Tree key T W r) : Sorted key (W.toList.map Entry.elem) :=
  List.pairwise_map.mpr h.sorted

/-- A key that no entry has. -/
theorem find?_eq_none_of_new {a : α} (h : ¬ ∃ e ∈ W.toList, key e.elem = key a) :
    (W.toList.map Entry.elem).find? (fun b => key b = key a) = none := by
  rw [List.find?_eq_none]
  intro b hb
  obtain ⟨e, he, rfl⟩ := List.mem_map.mp hb
  simpa using fun hk => h ⟨e, he, hk⟩

/-- **`RB_FIND`** finds what a search of the elements finds. -/
theorem Tree.find_eq (h : Tree key T W r) (ho : Orders cmp key) (a : α) :
    ∃ p, rbFind cmp T a = some p
      ∧ nodeAt T p = some ((W.toList.map Entry.elem).find? (fun b => key b = key a)) := by
  by_cases hkey : ∃ e ∈ W.toList, key e.elem = key a
  · obtain ⟨e, he, hk⟩ := hkey
    refine ⟨e.addr, find_found ho h.rep h.sorted he hk, ?_⟩
    rw [nodeAt_mem h.rep he, h.sorted_elems.find?_eq (List.mem_map_of_mem he) hk]
  · refine ⟨0, find_missing ho h.rep (fun e he hk => hkey ⟨e, he, hk⟩), ?_⟩
    rw [find?_eq_none_of_new hkey]
    rfl

/-- A tree in a state of the memory. -/
theorem Tree.of_rep {next : Ptr} {m : ℕ} (h : Rep T W next r) (hbal : Balanced W .black m)
    (hs : Sorted (entryKey key) W.toList) : Tree key T W r := by
  refine ⟨?_, ⟨m, hbal⟩, hs⟩
  rw [h.next_eq]
  exact h

/-- An allocation is none of the tree. -/
theorem Tree.alloc (h : Tree key T W 0) (nd : LinkedNode α) :
    Rep { T with nodes := T.nodes.alloc nd } W (T.nodes.next + 1) ({(T.nodes.next, nd)} + 0) :=
  ⟨h.rep.root_eq, (h.rep.holds.alloc nd).of_eq _ (by abel)⟩

/-- A node that is none of the tree is freed. -/
theorem rep_free {next p : Ptr} {nd : LinkedNode α} (h : Rep T W next ({(p, nd)} + r)) :
    T.nodes.free p = some (T.nodes.erase p) ∧ Rep { T with nodes := T.nodes.erase p } W next r := by
  have hh := h.holds.of_eq ({(p, nd)} + (cells 0 W + r)) (by abel)
  exact ⟨hh.free, h.root_eq, hh.erase⟩

/-- Balance does not depend on the element at the focus. -/
theorem exists_balanced_set {c : Color} {l u : RBTree (Entry α)} {e : Entry α}
    {ctx : List (Frame (Entry α))} {m : ℕ} (h : Balanced (plug (branch .left c e l u) ctx) .black m)
    (e' : Entry α) : ∃ m, Balanced (plug (branch .left c e' l u) ctx) .black m := by
  obtain ⟨k, n, hfocus, hfits⟩ := exists_fits h
  cases c with
  | red =>
    obtain ⟨rfl, hl, hu⟩ := hfocus.of_branch_red
    exact (hl.branch_red hu).plug hfits
  | black =>
    obtain ⟨rfl, n, k₁, k₂, rfl, hl, hu⟩ := hfocus.of_branch_black
    exact (hl.branch_black hu).plug hfits

/-- **An element is written to**, its key apart: it stays in its place among the others. -/
theorem Tree.exists_set {e : Entry α} {f : α → α} (h : Tree key T W 0) (he : e ∈ W.toList)
    (hf : key (f e.elem) = key e.elem) :
    ∃ T' W' xs ys, T.set e.addr (fun n => { n with elem := f n.elem }) = some T' ∧ Tree key T' W' 0
      ∧ T'.nodes.next = T.nodes.next
      ∧ W.toList = xs ++ e :: ys ∧ W'.toList = xs ++ ⟨e.addr, f e.elem⟩ :: ys := by
  obtain ⟨c, l, u, ctx, rfl⟩ := exists_focus he
  have hfocus : Rep T (plug (branch .left c e l u) ctx) T.nodes.next 0 := h.rep
  obtain ⟨T', hset, hroot, h'⟩ := LinkedTree.exists_set hfocus.split_branch (fun n => { n with elem := f n.elem })
  have hrep : Rep T' (plug (branch .left c ⟨e.addr, f e.elem⟩ l u) ctx) T.nodes.next 0 :=
    Rep.of_split_branch (hroot.trans hfocus.root_branch) h'
  obtain ⟨m, hbal⟩ := h.bal
  obtain ⟨m', hbal'⟩ := exists_balanced_set hbal ⟨e.addr, f e.elem⟩
  -- the elements before and after it stay
  have hold : (plug (node c l e u) ctx).toList
      = (before ctx ++ l.toList) ++ e :: (u.toList ++ after ctx) := by
    rw [toList_plug]
    simp [toList]
  have hnew : (plug (branch .left c ⟨e.addr, f e.elem⟩ l u) ctx).toList
      = (before ctx ++ l.toList) ++ ⟨e.addr, f e.elem⟩ :: (u.toList ++ after ctx) := by
    rw [toList_plug]
    simp [branch, toList]
  have hs := h.sorted
  unfold Sorted at hs
  rw [hold, ← List.pairwise_map, List.map_append, List.map_cons] at hs
  have hs' : Sorted (entryKey key) (plug (branch .left c ⟨e.addr, f e.elem⟩ l u) ctx).toList := by
    unfold Sorted
    rw [hnew, ← List.pairwise_map, List.map_append, List.map_cons]
    rwa [show entryKey key ⟨e.addr, f e.elem⟩ = entryKey key e from hf]
  exact ⟨T', _, _, _, hset, Tree.of_rep hrep hbal' hs', hrep.next_eq, hold, hnew⟩

/-- **`RB_INSERT` on a fresh node** does what is to be done. -/
theorem Tree.insert_eq (h : Tree key T W 0) (ho : Orders cmp key) (a : α) :
    ∃ T' W', rbCall cmp T (.insert a) = some ((orderedSet key (W.toList.map Entry.elem) (.insert a)).1, T')
      ∧ Tree key T' W' 0
      ∧ W'.toList.map Entry.elem = (orderedSet key (W.toList.map Entry.elem) (.insert a)).2 := by
  have hrep := h.alloc ⟨0, 0, 0, RB_BLACK, a⟩
  obtain ⟨m, hbal⟩ := h.bal
  by_cases hkey : ∃ e ∈ W.toList, key e.elem = key a
  · -- the node is not inserted, and is freed again
    obtain ⟨e, he, hk⟩ := hkey
    have helm : ({ T with nodes := T.nodes.alloc ⟨0, 0, 0, RB_BLACK, a⟩ } : LinkedTree α).nodes.load T.nodes.next
        = some ⟨0, 0, 0, RB_BLACK, a⟩ := hrep.holds.mem (by simp)
    have hrun := insert_found ho hrep helm h.sorted he hk
    obtain ⟨hfree, hrep'⟩ := rep_free hrep
    rw [orderedSet_insert_found (h.sorted_elems.find?_eq (List.mem_map_of_mem he) hk)]
    refine ⟨_, W, ?_, Tree.of_rep hrep' hbal h.sorted, rfl⟩
    refine bind_of_eq hrun (bind_of_eq (nodeAt_mem hrep he) ?_)
    exact (if_neg (addr_ne_zero hrep he)).trans (bind_of_eq hfree rfl)
  · rw [orderedSet_insert_new (find?_eq_none_of_new hkey)]
    obtain ⟨T', W', m', xs, ys, hrun, hrep', hbal', hs', hW, hW'⟩ :=
      insert_new ho hrep hbal h.sorted (fun e he hk => hkey ⟨e, he, hk⟩)
    have hT' := Tree.of_rep hrep' hbal' hs'
    refine ⟨T', W', bind_of_eq hrun rfl, hT', ?_⟩
    have hsorted := hT'.sorted_elems
    rw [hW', List.map_append, List.map_cons] at hsorted
    obtain ⟨hxs, hys⟩ := hsorted.filter_eq
    rw [hW', hW, List.map_append, List.map_append, List.map_cons, hxs, hys]

/-- **`RB_FIND`, `RB_REMOVE` and `free`** do what is to be done. -/
theorem Tree.remove_eq (h : Tree key T W 0) (ho : Orders cmp key) (a : α) :
    ∃ T' W', rbCall cmp T (.remove a) = some ((orderedSet key (W.toList.map Entry.elem) (.remove a)).1, T')
      ∧ Tree key T' W' 0
      ∧ W'.toList.map Entry.elem = (orderedSet key (W.toList.map Entry.elem) (.remove a)).2 := by
  by_cases hkey : ∃ e ∈ W.toList, key e.elem = key a
  · obtain ⟨e, he, hk⟩ := hkey
    obtain ⟨m, hbal⟩ := h.bal
    obtain ⟨T₁, W', m', nd, xs, ys, hrun, hnd, hrep, hbal', hW, hW'⟩ := NtyTree.remove_eq h.rep hbal he
    obtain ⟨hfree, hrep'⟩ := rep_free hrep
    have hsorted := h.sorted
    rw [hW] at hsorted
    have hs' : Sorted (entryKey key) W'.toList := by
      rw [hW']
      exact hsorted.remove
    have hat : nodeAt T₁ e.addr = some (some e.elem) := by
      unfold nodeAt
      rw [if_neg (addr_ne_zero h.rep he), elemOf_eq (hrep.holds.mem (p := e.addr) (v := nd) (by simp)), hnd]
      rfl
    have hfound := h.sorted_elems.find?_eq (List.mem_map_of_mem he) hk
    refine ⟨_, W', ?_, Tree.of_rep hrep' hbal' hs', ?_⟩
    · refine bind_of_eq (find_found ho h.rep h.sorted he hk) ((if_neg (addr_ne_zero h.rep he)).trans ?_)
      refine bind_of_eq hrun (bind_of_eq hat (bind_of_eq hfree ?_))
      rw [← hfound]
      rfl
    · have helems := h.sorted_elems
      rw [hW, List.map_append, List.map_cons] at helems
      have hne := helems.filter_ne
      rw [hk] at hne
      rw [hW', hW, List.map_append, List.map_append, List.map_cons]
      exact hne.symm
  · refine ⟨T, W, ?_, h, ?_⟩
    · refine bind_of_eq (find_missing ho h.rep (fun e he hk => hkey ⟨e, he, hk⟩)) ((if_pos rfl).trans ?_)
      rw [← find?_eq_none_of_new hkey]
      rfl
    · refine (List.filter_eq_self.mpr fun b hb => ?_).symm
      obtain ⟨e, he, rfl⟩ := List.mem_map.mp hb
      simpa using fun hk => hkey ⟨e, he, hk⟩

/-- **The calls are those of an ordered set.** -/
theorem simulates (ho : Orders cmp key) :
    Simulates (rbCall cmp) (orderedSet key) id (fun _ _ => True)
      (fun T l => ∃ W, Tree key T W 0 ∧ W.toList.map Entry.elem = l) := by
  rintro T l call ⟨W, h, rfl⟩ -
  have hreads : ∀ {o : Option (RbResult α × LinkedTree α)} {res : RbResult α}, o = some (res, T) →
      ∃ T', o = some (res, T') ∧ ∃ W', Tree key T' W' 0 ∧ W'.toList.map Entry.elem = W.toList.map Entry.elem :=
    fun ho => ⟨T, ho, W, h, rfl⟩
  cases call with
  | insert a =>
    obtain ⟨T', W', hrun, h', hW'⟩ := h.insert_eq ho a
    exact ⟨T', hrun, W', h', hW'⟩
  | remove a =>
    obtain ⟨T', W', hrun, h', hW'⟩ := h.remove_eq ho a
    exact ⟨T', hrun, W', h', hW'⟩
  | find a =>
    obtain ⟨p, hfind, hat⟩ := h.find_eq ho a
    exact hreads (bind_of_eq hfind (bind_of_eq hat rfl))
  | nfind a =>
    refine hreads (bind_of_eq (nfind_eq ho h.rep h.sorted a) ?_)
    refine bind_of_eq (nodeAt_firstPtr h.rep (fun e he => List.mem_of_mem_filter he)) ?_
    show _ = some (RbResult.node ((W.toList.map Entry.elem).find? (fun b => key a ≤ key b)), T)
    rw [← List.head?_filter, List.filter_map]
    rfl
  | min => exact hreads (bind_of_eq (min_eq h.rep) (bind_of_eq (nodeAt_firstPtr h.rep (fun e he => he)) rfl))
  | max =>
    refine hreads (bind_of_eq (max_eq h.rep) ?_)
    refine bind_of_eq (nodeAt_firstPtr h.rep (fun e he => mem_listTo.mp he)) ?_
    show some (RbResult.node (W.toList.reverse.map Entry.elem).head?, T) = _
    rw [List.map_reverse]
    rfl
  | foreach =>
    exact hreads (bind_of_eq (foreach_eq h.rep) (bind_of_eq (mapM_elemOf h.rep (fun e he => he)) rfl))
  | foreachReverse =>
    refine hreads (bind_of_eq (foreachReverse_eq h.rep) ?_)
    refine bind_of_eq (mapM_elemOf h.rep (fun e he => List.mem_reverse.mp he)) ?_
    rw [List.map_reverse]
    rfl

/-- `RB_INIT`, with nothing in the memory. -/
def empty : LinkedTree α := rbInit ⟨0, Heap.empty⟩

theorem empty_tree : Tree key (empty : LinkedTree α) .nil 0 :=
  ⟨⟨rfl, Heap.Holds.empty⟩, ⟨0, .nil⟩, List.Pairwise.nil⟩

/-- **Every run of the macros is one of an ordered set**: no call reads or writes where there is no
node, each answers what the set answers, and at the end there is a red-black search tree of the
elements of the set, with a node for each of them and no other memory. -/
theorem run_orderedSet (ho : Orders cmp key) (calls : List (RbCall α)) :
    ∃ T W, (rbCall cmp).run empty calls = some (((orderedSet key).run [] calls).1, T)
      ∧ Tree key T W 0 ∧ W.toList.map Entry.elem = ((orderedSet key).run [] calls).2 := by
  have hempty : ∃ W, Tree key (empty : LinkedTree α) W 0 ∧ W.toList.map Entry.elem = [] := ⟨.nil, empty_tree, rfl⟩
  obtain ⟨T, hrun, W, h, hW⟩ := (simulates ho).run hempty
    (Spec.Along.of_forall (fun _ _ => trivial) (calls.map id) _)
  rw [List.map_id] at hrun hW
  exact ⟨T, W, hrun, h, hW⟩

/-- `sockfd_cmp` on the descriptors themselves. -/
def compareFd (a b : ℤ) : ℤ := if a < b then -1 else if a = b then 0 else 1

theorem orders_compareFd : Orders compareFd id where
  neg_iff := fun a b => by
    unfold compareFd
    split
    · next h => exact iff_of_true (by decide) h
    · next h => split <;> exact iff_of_false (by decide) h
  pos_iff := fun a b => by
    unfold compareFd id
    split
    · next h => exact iff_of_false (by decide) h.not_gt
    · next h =>
      split
      · next heq => exact iff_of_false (by decide) heq.not_gt
      · next hne => exact iff_of_true (by decide) (lt_of_le_of_ne (not_lt.mp h) (Ne.symm hne))

theorem run_orderedSet_two : ∃ T W,
    (rbCall compareFd).run empty [.insert 2, .insert 1, .insert 2, .foreach, .remove 2]
      = some ([.node none, .node none, .node (some 2), .nodes [1, 2], .node (some 2)], T)
    ∧ Tree id T W 0 ∧ W.toList.map Entry.elem = [1] :=
  run_orderedSet orders_compareFd [.insert 2, .insert 1, .insert 2, .foreach, .remove 2]

/-- **Lookup is fast in every tree that can come up**: among `n` elements, so many rounds of the
loop of `RB_FIND` find what it finds as are more than `2 * log (n + 1)`. -/
theorem find_rounds (ho : Orders cmp key) (calls : List (RbCall α)) (a : α) (fuel : ℕ)
    (hfuel : (((orderedSet key).run [] calls).2.length + 1) ^ 2 < 2 ^ fuel) :
    ∃ outs T p, (rbCall cmp).run empty calls = some (outs, T)
      ∧ rbFindFrom cmp T a fuel T.root = some p ∧ rbFind cmp T a = some p := by
  obtain ⟨T, W, hrun, h, hW⟩ := run_orderedSet ho calls
  obtain ⟨m, hbal⟩ := h.bal
  have hlen : W.toList.length = ((orderedSet key).run [] calls).2.length := by
    rw [← hW, List.length_map]
  have hpaths : ∀ p ∈ W.paths, p.length < fuel := by
    intro p hp
    have hle := hbal.two_pow_length_le hp
    rw [hlen] at hle
    exact (Nat.pow_lt_pow_iff_right Nat.one_lt_two).mp (hle.trans_lt hfuel)
  have hfind : rbFindFrom cmp T a fuel T.root = _ :=
    h.rep.root_eq ▸ findFrom_eq ho a W [] h.rep hpaths
  refine ⟨_, T, _, hrun, hfind, ?_⟩
  unfold rbFind
  rw [h.rep.root_eq]
  exact findFrom_eq ho a W [] h.rep (length_path_lt h.rep)

theorem find_rounds_three : (3 + 1) ^ 2 < 2 ^ 5 ∧ ∃ outs T p,
    (rbCall compareFd).run empty [.insert 1, .insert 2, .insert 3] = some (outs, T)
      ∧ rbFindFrom compareFd T 2 5 T.root = some p ∧ rbFind compareFd T 2 = some p :=
  ⟨by decide, find_rounds orders_compareFd [.insert 1, .insert 2, .insert 3] 2 5 (by decide)⟩

end Calls

end NtyTree
