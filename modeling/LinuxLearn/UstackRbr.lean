import LinuxLearn.NtyTreeRuns
import LinuxLearn.UstackEpoll

/-!
# The epoll on its red-black tree

`Eventpoll` takes the tree of the items for a finite map. Here the calls are made on the tree
itself, with the functions that `RB_GENERATE` writes for `struct epitem`: an item is a node, and
its links are changed by each insertion and removal. `Implements` says that the nodes are the
items of an `Eventpoll`, and each call keeps it: what it returns is the same, and it goes wrong
where that goes wrong, in the same way. So what is proved of the map holds of the tree
(`runCalls_eq`).
-/

open RedBlack LinkedTree SearchTree NtyTree
open RedBlack.RBTree (plug branch node toList)

/-! ## Programs that may go wrong -/

section Agree

variable {ε ρ σ τ ι : Type}

/-- **Two programs agree**: they return the same, or go wrong in the same way. -/
inductive Agree (S : σ → τ → Prop) : Except ε (ρ × σ) → Except ε (ρ × τ) → Prop where
  | ok {r : ρ} {s : σ} {t : τ} (h : S s t) : Agree S (.ok (r, s)) (.ok (r, t))
  | error (e : ε) : Agree S (.error e) (.error e)

/-- A call that goes wrong, followed by another. -/
theorem bind_error {α β : Type} {o : Except ε α} {f : α → Except ε β} {e : ε} (h : o = .error e) :
    (o >>= f) = .error e := by
  rw [h]
  rfl

theorem Agree.of_eq {S : σ → τ → Prop} {x x' : Except ε (ρ × σ)} {y y' : Except ε (ρ × τ)} (hx : x = x')
    (hy : y = y') (h : Agree S x' y') : Agree S x y := by
  rw [hx, hy]
  exact h

/-- What is made of the results makes no difference. -/
theorem Agree.map {ρ' : Type} {S : σ → τ → Prop} {x : Except ε (ρ × σ)} {y : Except ε (ρ × τ)} (f : ρ → ρ')
    (h : Agree S x y) : Agree S (x.map (fun r => (f r.1, r.2))) (y.map (fun r => (f r.1, r.2))) := by
  cases h with
  | ok h => exact .ok h
  | error e => exact .error e

/-- **One call after another**, as long as none goes wrong: what they return, and how the last one
went wrong if it did. -/
def runCalls (step : σ → ι → Except ε (ρ × σ)) : σ → List ι → List ρ × Option ε
  | _, [] => ([], none)
  | s, i :: is =>
    match step s i with
    | .ok (r, s) => (r :: (runCalls step s is).1, (runCalls step s is).2)
    | .error e => ([], some e)

/-- **Calls that agree make runs that do.** -/
theorem runCalls_congr {S : σ → τ → Prop} {f : σ → ι → Except ε (ρ × σ)} {g : τ → ι → Except ε (ρ × τ)}
    (hstep : ∀ s t i, S s t → Agree S (f s i) (g t i)) (is : List ι) :
    ∀ {s : σ} {t : τ}, S s t → runCalls f s is = runCalls g t is := by
  induction is with
  | nil => exact fun _ => rfl
  | cons i is ih =>
    intro s t hS
    have hagree := hstep s t i hS
    unfold runCalls
    generalize f s i = x at hagree
    generalize g t i = y at hagree
    cases hagree with
    | ok h => simp only [ih h]
    | error e => rfl

end Agree

namespace Ustack

/-- `sockfd_cmp`. -/
def sockfdCmp (ep1 ep2 : Epitem) : ℤ :=
  if ep1.sockfd < ep2.sockfd then -1 else if ep1.sockfd = ep2.sockfd then 0 else 1

theorem orders_sockfdCmp : Orders sockfdCmp Epitem.sockfd where
  neg_iff := fun a b => orders_compareFd.neg_iff a.sockfd b.sockfd
  pos_iff := fun a b => orders_compareFd.pos_iff a.sockfd b.sockfd

/-- **`struct eventpoll`**, with its tree and the memory of the items. -/
structure RbEventpoll where
  fd : ℤ
  /-- The tree of all items, by descriptor. -/
  rbr : LinkedTree Epitem
  /-- How many items the tree has. -/
  rbcnt : ℤ
  /-- The items that are ready, the newest first. -/
  rdlist : List Ptr
  /-- How many items the list has. -/
  rdnum : ℤ

namespace RbEventpoll

/-- **`nepoll_create`**, as far as the object goes. -/
def create (epfd : ℤ) : RbEventpoll := ⟨epfd, rbInit ⟨0, Heap.empty⟩, 0, [], 0⟩

/-- `tmp`, of which only the descriptor is looked at. -/
def tmp (sockid : ℤ) : Epitem := ⟨0, sockid, ⟨0, 0⟩⟩

/-- An item is written to. -/
def setItem (rbr : LinkedTree Epitem) (epi : Ptr) (f : Epitem → Epitem) : Except Stop (LinkedTree Epitem) :=
  deref (rbr.set epi (fun n => { n with elem := f n.elem }))

/-- The first item of a list gets a new neighbour. -/
def touchFirst (rbr : LinkedTree Epitem) : List Ptr → Except Stop Unit
  | [] => .ok ()
  | first :: _ => (deref (rbr.elemOf first)).map (fun _ => ())

/-- **`epoll_event_callback`.** -/
def epollEventCallback (ep : RbEventpoll) (sockid : ℤ) (event : UInt32) :
    Except Stop (Option ℤ × RbEventpoll) := do
  let epi ← deref (rbFind sockfdCmp ep.rbr (tmp sockid))
  if epi = 0 then
    return (some (-1), ep)
  else
    let item ← deref (ep.rbr.elemOf epi)
    if item.rdy ≠ 0 then
      let rbr ← setItem ep.rbr epi (fun i =>
        { i with event := { i.event with events := i.event.events ||| event } })
      return (some 1, { ep with rbr := rbr })
    else
      let rbr ← setItem ep.rbr epi (fun i => { i with rdy := 1 })
      touchFirst rbr ep.rdlist
      return (none, { ep with rbr := rbr, rdlist := epi :: ep.rdlist, rdnum := ep.rdnum + 1 })

/-- **`nepoll_ctl`** on an epoll object; `ok` tells whether an allocation would succeed. The
memory of a new item is zeroed. -/
def nepollCtl (ep : RbEventpoll) (op : CtlOp) (sockid : ℤ) (event : Option EpollEvent) (ok : Bool) :
    Except Stop (ℤ × RbEventpoll) :=
  match op, event with
  | .add, none => .ok (-1, ep)
  | .mod, none => .ok (-1, ep)
  | .add, some event => do
    let epi ← deref (rbFind sockfdCmp ep.rbr (tmp sockid))
    if epi ≠ 0 then
      return (-1, ep)
    else if ok then
      let rbr := { ep.rbr with nodes := ep.rbr.nodes.alloc ⟨0, 0, 0, RB_BLACK, ⟨0, sockid, event⟩⟩ }
      let (_, rbr) ← deref (rbInsert sockfdCmp rbr ep.rbr.nodes.next)
      return (0, { ep with rbr := rbr, rbcnt := ep.rbcnt + 1 })
    else
      return (-1, ep)
  | .del, _ => do
    let epi ← deref (rbFind sockfdCmp ep.rbr (tmp sockid))
    if epi = 0 then
      return (-1, ep)
    else
      let (epi, rbr) ← deref (rbRemove ep.rbr epi)
      if epi = 0 then
        return (-1, { ep with rbr := rbr })
      else
        let nodes ← deref (rbr.nodes.free epi)
        return (0, { ep with rbr := { rbr with nodes := nodes }, rbcnt := ep.rbcnt - 1 })
  | .mod, some event => do
    let epi ← deref (rbFind sockfdCmp ep.rbr (tmp sockid))
    if epi = 0 then
      return (-1, ep)
    else
      let rbr ← setItem ep.rbr epi (fun i =>
        { i with event := { i.event with events := event.events ||| (EPOLLERR ||| EPOLLHUP) } })
      return (0, { ep with rbr := rbr })

/-- The loop of `nepoll_wait`. -/
def collect (rbr : LinkedTree Epitem) (rdnum : ℤ) :
    List Ptr → ℤ → Except Stop (List EpollEvent × LinkedTree Epitem × List Ptr × ℤ)
  | [], _ => .ok ([], rbr, [], rdnum)
  | epi :: rest, num =>
    if num = 0 then .ok ([], rbr, epi :: rest, rdnum)
    else do
      touchFirst rbr rest
      let item ← deref (rbr.elemOf epi)
      let rbr ← setItem rbr epi (fun i => { i with rdy := 0 })
      let (events, rbr, rdlist, rdnum) ← collect rbr (rdnum - 1) rest (num - 1)
      return (item.event :: events, rbr, rdlist, rdnum)

/-- **`nepoll_wait`.** -/
def nepollWait (ep : RbEventpoll) (maxevents timeout : ℤ) :
    Except Stop (ℤ × List EpollEvent × RbEventpoll) :=
  if maxevents ≤ 0 then .ok (-1, [], ep)
  else if ep.rdnum = 0 ∧ timeout < 0 then .error .blocked
  else do
    let num := if ep.rdnum > maxevents then maxevents else ep.rdnum
    let (events, rbr, rdlist, rdnum) ← collect ep.rbr ep.rdnum ep.rdlist num
    return (events.length, events, { ep with rbr := rbr, rdlist := rdlist, rdnum := rdnum })

end RbEventpoll

/-! ## The tree and the map -/

/-- **The nodes of the tree are the items**, each found under its descriptor. -/
structure HoldsItems (rbr : LinkedTree Epitem) (W : RBTree (Entry Epitem)) (items : Heap Epitem)
    (keys : AList (fun _ : ℤ => Ptr)) : Prop where
  tree : Tree Epitem.sockfd rbr W 0
  next_eq : items.next = rbr.nodes.next
  load_iff : ∀ p a, items.load p = some a ↔ (⟨p, a⟩ : Entry Epitem) ∈ W.toList
  lookup_iff : ∀ k p, keys.lookup k = some p ↔ ∃ a, (⟨p, a⟩ : Entry Epitem) ∈ W.toList ∧ a.sockfd = k

section Items

variable {rbr : LinkedTree Epitem} {W : RBTree (Entry Epitem)} {items : Heap Epitem}
  {keys : AList (fun _ : ℤ => Ptr)} {sockid : ℤ} {epi : Ptr} {item : Epitem}

/-- An item is read in the same way. -/
theorem HoldsItems.elemOf_eq (h : HoldsItems rbr W items keys) (p : Ptr) : rbr.elemOf p = items.load p := by
  refine Option.ext fun a => ?_
  rw [h.load_iff]
  constructor
  · intro ha
    obtain ⟨n, hn, rfl⟩ := Option.map_eq_some_iff.mp ha
    have hmem := (h.tree.rep.holds.load_iff p n).mp hn
    rw [add_zero] at hmem
    exact mem_cells_iff.mp ⟨n, hmem, rfl⟩
  · exact fun ha => elemOf_mem h.tree.rep ha

/-- **A descriptor that is not registered** is not found in the tree. -/
theorem HoldsItems.find_none (h : HoldsItems rbr W items keys) (hlookup : keys.lookup sockid = none) :
    rbFind sockfdCmp rbr (RbEventpoll.tmp sockid) = some 0 := by
  refine find_missing orders_sockfdCmp h.tree.rep (fun e he hk => ?_)
  have hsome := (h.lookup_iff sockid e.addr).mpr ⟨e.elem, he, hk⟩
  rw [hlookup] at hsome
  cases hsome

/-- **One that is registered** is found, and its item is there. -/
theorem HoldsItems.find_some (h : HoldsItems rbr W items keys) (hlookup : keys.lookup sockid = some epi) :
    ∃ item, rbFind sockfdCmp rbr (RbEventpoll.tmp sockid) = some epi ∧ epi ≠ 0
      ∧ (⟨epi, item⟩ : Entry Epitem) ∈ W.toList ∧ item.sockfd = sockid := by
  obtain ⟨item, hmem, hk⟩ := (h.lookup_iff sockid epi).mp hlookup
  exact ⟨item, find_found orders_sockfdCmp h.tree.rep h.tree.sorted hmem hk,
    NtyTree.addr_ne_zero h.tree.rep hmem, hmem, hk⟩

/-- The descriptors are those of the items in the memory. -/
theorem HoldsItems.lookup_iff_load (h : HoldsItems rbr W items keys) (k : ℤ) (p : Ptr) :
    keys.lookup k = some p ↔ ∃ a, items.load p = some a ∧ a.sockfd = k :=
  (h.lookup_iff k p).trans (exists_congr fun a => and_congr_left' (h.load_iff p a).symm)

/-- To have the nodes and the descriptors in order, it is enough to have each in order with the
items in the memory. -/
theorem HoldsItems.of_load (htree : Tree Epitem.sockfd rbr W 0) (hnext : items.next = rbr.nodes.next)
    (hload : ∀ p a, items.load p = some a ↔ (⟨p, a⟩ : Entry Epitem) ∈ W.toList)
    (hlookup : ∀ k p, keys.lookup k = some p ↔ ∃ a, items.load p = some a ∧ a.sockfd = k) :
    HoldsItems rbr W items keys where
  tree := htree
  next_eq := hnext
  load_iff := hload
  lookup_iff := fun k p => (hlookup k p).trans (exists_congr fun a => and_congr_left' (hload p a))

/-- What is elsewhere in a list has another address. -/
theorem addr_ne_of_mem {xs ys : List (Entry Epitem)} {p q : Ptr} {a b : Epitem}
    (hnd : ((xs ++ ⟨p, a⟩ :: ys).map Entry.addr).Nodup) (hmem : (⟨q, b⟩ : Entry Epitem) ∈ xs ++ ys) : q ≠ p := by
  rw [List.map_append, List.map_cons, List.nodup_middle, List.nodup_cons, ← List.map_append] at hnd
  rintro rfl
  have haddr := List.mem_map_of_mem (f := Entry.addr) hmem
  exact hnd.1 haddr

/-- What is at an address, and what is elsewhere. -/
theorem mem_replace {xs ys : List (Entry Epitem)} {p q : Ptr} {a b : Epitem}
    (hnd : ((xs ++ ⟨p, a⟩ :: ys).map Entry.addr).Nodup) :
    (⟨q, b⟩ : Entry Epitem) ∈ xs ++ ⟨p, a⟩ :: ys ↔ (q = p ∧ b = a) ∨ (q ≠ p ∧ (⟨q, b⟩ : Entry Epitem) ∈ xs ++ ys) := by
  rw [List.mem_append, List.mem_cons, or_left_comm, ← List.mem_append, Entry.mk.injEq]
  exact or_congr Iff.rfl ⟨fun hmem => ⟨addr_ne_of_mem hnd hmem, hmem⟩, fun hmem => hmem.2⟩

/-- Writing to an item leaves the descriptors what they are. -/
theorem exists_load_update {f : Epitem → Epitem} (hf : ∀ i, (f i).sockfd = i.sockfd) (k : ℤ) (p : Ptr) :
    (∃ a, (items.update epi f).load p = some a ∧ a.sockfd = k) ↔ ∃ a, items.load p = some a ∧ a.sockfd = k := by
  rw [Heap.load_update]
  by_cases hp : p = epi
  · subst hp
    rw [if_pos rfl]
    constructor
    · rintro ⟨a, ha, rfl⟩
      obtain ⟨b, hb, rfl⟩ := Option.map_eq_some_iff.mp ha
      exact ⟨b, hb, (hf b).symm⟩
    · rintro ⟨a, ha, rfl⟩
      exact ⟨f a, Option.map_eq_some_iff.mpr ⟨a, ha, rfl⟩, hf a⟩
  · rw [if_neg hp]

/-- **An item is written to**, its descriptor apart. -/
theorem HoldsItems.update (h : HoldsItems rbr W items keys) {f : Epitem → Epitem}
    (hmem : (⟨epi, item⟩ : Entry Epitem) ∈ W.toList) (hf : ∀ i, (f i).sockfd = i.sockfd) :
    ∃ rbr' W', RbEventpoll.setItem rbr epi f = .ok rbr' ∧ HoldsItems rbr' W' (items.update epi f) keys := by
  obtain ⟨rbr', W', xs, ys, hset, htree, hnext, hW, hW'⟩ := h.tree.exists_set hmem (hf item)
  have hndOld := nodup_addrs h.tree.rep
  have hndNew := nodup_addrs htree.rep
  rw [hW] at hndOld
  rw [hW'] at hndNew
  have hload : items.load epi = some item := (h.load_iff epi item).mpr hmem
  refine ⟨rbr', W', congrArg deref hset, HoldsItems.of_load htree (h.next_eq.trans hnext.symm) ?_ ?_⟩
  · intro p a
    rw [hW', mem_replace hndNew, Heap.load_update]
    by_cases hp : p = epi
    · subst hp
      rw [if_pos rfl, hload, Option.map_some, Option.some.injEq]
      exact ⟨fun ha => Or.inl ⟨rfl, ha.symm⟩, fun ha => ha.elim (fun ha => ha.2.symm) (fun ha => absurd rfl ha.1)⟩
    · rw [if_neg hp, h.load_iff, hW, mem_replace hndOld]
      simp [hp]
  · intro k p
    rw [exists_load_update hf, h.lookup_iff_load]

/-- No item has a descriptor that is not registered. -/
theorem HoldsItems.sockfd_ne (h : HoldsItems rbr W items keys) (hlookup : keys.lookup sockid = none)
    (hload : items.load epi = some item) : item.sockfd ≠ sockid := by
  intro hk
  have hsome := (h.lookup_iff_load sockid epi).mpr ⟨item, hload, hk⟩
  rw [hlookup] at hsome
  cases hsome

/-- **An item is added** under a new descriptor. -/
theorem HoldsItems.add (h : HoldsItems rbr W items keys) (item : Epitem)
    (hlookup : keys.lookup item.sockfd = none) :
    ∃ rbr' W', rbInsert sockfdCmp { rbr with nodes := rbr.nodes.alloc ⟨0, 0, 0, RB_BLACK, item⟩ } rbr.nodes.next
        = some (0, rbr')
      ∧ HoldsItems rbr' W' (items.alloc item) (keys.insert item.sockfd items.next) := by
  have hrep := h.tree.alloc ⟨0, 0, 0, RB_BLACK, item⟩
  obtain ⟨m, hbal⟩ := h.tree.bal
  obtain ⟨rbr', W', m', xs, ys, hrun, hrep', hbal', hs', hW, hW'⟩ := insert_new orders_sockfdCmp hrep hbal
    h.tree.sorted (fun e he => h.sockfd_ne hlookup ((h.load_iff e.addr e.elem).mpr he))
  have hnd := nodup_addrs hrep'
  rw [hW', ← h.next_eq] at hnd
  refine ⟨rbr', W', hrun, HoldsItems.of_load (Tree.of_rep hrep' hbal' hs') ?_ ?_ ?_⟩
  · rw [Heap.next_alloc, h.next_eq, hrep'.next_eq]
  · intro p a
    rw [hW', ← h.next_eq, mem_replace hnd, ← hW, Heap.load_alloc]
    by_cases hp : p = items.next
    · simp only [hp, if_true, Option.some.injEq, true_and, ne_eq, not_true, false_and, or_false, eq_comm]
    · rw [if_neg hp, h.load_iff]
      simp only [hp, false_and, ne_eq, not_false_iff, true_and, false_or]
  · intro k p
    rw [Heap.load_alloc]
    by_cases hk : k = item.sockfd
    · subst hk
      rw [AList.lookup_insert, Option.some.injEq]
      constructor
      · rintro rfl
        exact ⟨item, if_pos rfl, rfl⟩
      · rintro ⟨a, ha, hak⟩
        by_contra hp
        rw [if_neg (Ne.symm hp)] at ha
        exact h.sockfd_ne hlookup ha hak
    · rw [AList.lookup_insert_ne hk, h.lookup_iff_load]
      by_cases hp : p = items.next
      · subst hp
        rw [if_pos rfl]
        refine iff_of_false ?_ ?_
        · rintro ⟨a, ha, -⟩
          exact Heap.ne_next_of_load ha rfl
        · rintro ⟨a, ha, hak⟩
          rw [← Option.some.inj ha] at hak
          exact hk hak.symm
      · rw [if_neg hp]

/-- **An item is removed**, and its memory freed. -/
theorem HoldsItems.del (h : HoldsItems rbr W items keys) (hmem : (⟨epi, item⟩ : Entry Epitem) ∈ W.toList) :
    ∃ rbr' W', rbRemove rbr epi = some (epi, rbr') ∧ rbr'.nodes.free epi = some (rbr'.nodes.erase epi)
      ∧ HoldsItems { rbr' with nodes := rbr'.nodes.erase epi } W' (items.erase epi) (keys.erase item.sockfd) := by
  obtain ⟨m, hbal⟩ := h.tree.bal
  obtain ⟨rbr', W', m', nd, xs, ys, hrun, -, hrep, hbal', hW, hW'⟩ := remove_eq h.tree.rep hbal hmem
  obtain ⟨hfree, hrep'⟩ := rep_free hrep
  have hnd := nodup_addrs h.tree.rep
  have hs := h.tree.sorted
  rw [hW] at hnd hs
  refine ⟨rbr', W', hrun, hfree, HoldsItems.of_load (Tree.of_rep hrep' hbal' (hW' ▸ hs.remove)) ?_ ?_ ?_⟩
  · show items.next = rbr'.nodes.next
    rw [h.next_eq, hrep.next_eq]
  · intro p a
    rw [hW', Heap.load_erase]
    by_cases hp : p = epi
    · rw [if_pos hp]
      exact iff_of_false (fun h => by cases h) (fun ha => addr_ne_of_mem hnd ha hp)
    · rw [if_neg hp, h.load_iff, hW, mem_replace hnd]
      simp only [hp, false_and, ne_eq, not_false_iff, true_and, false_or]
  · intro k p
    rw [Heap.load_erase]
    by_cases hk : k = item.sockfd
    · subst hk
      rw [AList.lookup_erase]
      refine iff_of_false (fun h => by cases h) ?_
      rintro ⟨a, ha, hak⟩
      by_cases hp : p = epi
      · rw [if_pos hp] at ha
        cases ha
      · rw [if_neg hp] at ha
        have heq := h.tree.sorted.eq_of_key_eq ((h.load_iff p a).mp ha) hmem hak
        exact hp (congrArg Entry.addr heq)
    · rw [AList.lookup_erase_ne hk, h.lookup_iff_load]
      by_cases hp : p = epi
      · subst hp
        rw [if_pos rfl, (h.load_iff p item).mpr hmem]
        refine iff_of_false ?_ (fun ⟨a, ha, _⟩ => by cases ha)
        rintro ⟨a, ha, hak⟩
        rw [← Option.some.inj ha] at hak
        exact hk hak.symm
      · rw [if_neg hp]

/-- The list is touched in the same way. -/
theorem HoldsItems.touchFirst_eq (h : HoldsItems rbr W items keys) (rdlist : List Ptr) :
    RbEventpoll.touchFirst rbr rdlist = Eventpoll.touchFirst items rdlist := by
  cases rdlist with
  | nil => rfl
  | cons first rest =>
    show (deref (rbr.elemOf first)).map _ = (deref (items.load first)).map _
    rw [h.elemOf_eq]

/-- What is read in the tree is one of its elements. -/
theorem HoldsItems.mem (h : HoldsItems rbr W items keys) (hload : items.load epi = some item) :
    (⟨epi, item⟩ : Entry Epitem) ∈ W.toList := (h.load_iff epi item).mp hload

end Items

/-! ## The calls -/

/-- **The tree implements the map**: nothing else is different. -/
structure Implements (R : RbEventpoll) (ep : Eventpoll) : Prop where
  holds : ∃ W, HoldsItems R.rbr W ep.items ep.rbr
  fd_eq : R.fd = ep.fd
  rbcnt_eq : R.rbcnt = ep.rbcnt
  rdlist_eq : R.rdlist = ep.rdlist
  rdnum_eq : R.rdnum = ep.rdnum

theorem create_implements (epfd : ℤ) : Implements (RbEventpoll.create epfd) (Eventpoll.create epfd) where
  holds := ⟨.nil, empty_tree, rfl, fun _ _ => iff_of_false (fun h => by cases h) List.not_mem_nil,
    fun _ _ => iff_of_false (fun h => by cases h) (fun ⟨_, h, _⟩ => absurd h List.not_mem_nil)⟩
  fd_eq := rfl
  rbcnt_eq := rfl
  rdlist_eq := rfl
  rdnum_eq := rfl

section Calls

variable {R : RbEventpoll} {ep : Eventpoll}

/-- **`epoll_event_callback`** on the tree and on the map. -/
theorem Implements.callback (h : Implements R ep) (sockid : ℤ) (event : UInt32) :
    Agree Implements (R.epollEventCallback sockid event) (ep.epollEventCallback sockid event) := by
  obtain ⟨W, hW⟩ := h.holds
  unfold RbEventpoll.epollEventCallback Eventpoll.epollEventCallback
  cases hlookup : ep.rbr.lookup sockid with
  | none =>
    rw [hW.find_none hlookup]
    exact .ok h
  | some epi =>
    obtain ⟨item, hfind, hne, hmem, -⟩ := hW.find_some hlookup
    have hload : deref (ep.items.load epi) = .ok item := by
      rw [(hW.load_iff epi item).mpr hmem]
      rfl
    have helem : deref (R.rbr.elemOf epi) = .ok item := by
      rw [hW.elemOf_eq, (hW.load_iff epi item).mpr hmem]
      rfl
    have hfind' : deref (rbFind sockfdCmp R.rbr (RbEventpoll.tmp sockid)) = .ok epi := by
      rw [hfind]
      rfl
    by_cases hrdy : item.rdy = 0
    · -- the item becomes ready
      obtain ⟨rbr', W', hset, hW'⟩ := hW.update hmem (f := fun i => { i with rdy := 1 }) (fun _ => rfl)
      have htouch := hW'.touchFirst_eq R.rdlist
      rw [h.rdlist_eq] at htouch
      cases ht : Eventpoll.touchFirst (ep.items.update epi (fun i => { i with rdy := 1 })) ep.rdlist with
      | error e =>
        rw [ht, ← h.rdlist_eq] at htouch
        refine Agree.of_eq (bind_ok hfind' ((if_neg hne).trans (bind_ok helem
          ((if_neg (not_not.mpr hrdy)).trans (bind_ok hset (bind_error htouch))))))
          (bind_ok hload ((if_neg (not_not.mpr hrdy)).trans (bind_error (bind_error ht)))) (.error e)
      | ok u =>
        rw [ht, ← h.rdlist_eq] at htouch
        refine Agree.of_eq (bind_ok hfind' ((if_neg hne).trans (bind_ok helem
          ((if_neg (not_not.mpr hrdy)).trans (bind_ok hset (bind_ok htouch rfl))))))
          (bind_ok hload ((if_neg (not_not.mpr hrdy)).trans (bind_ok (bind_ok ht rfl) rfl))) (.ok ?_)
        exact ⟨⟨W', hW'⟩, h.fd_eq, h.rbcnt_eq, congrArg _ h.rdlist_eq, congrArg (· + 1) h.rdnum_eq⟩
    · obtain ⟨rbr', W', hset, hW'⟩ := hW.update hmem
        (f := fun i => { i with event := { i.event with events := i.event.events ||| event } }) (fun _ => rfl)
      refine Agree.of_eq (bind_ok hfind' ((if_neg hne).trans (bind_ok helem
        ((if_pos hrdy).trans (bind_ok hset rfl))))) (bind_ok hload (if_pos hrdy)) (.ok ?_)
      exact ⟨⟨W', hW'⟩, h.fd_eq, h.rbcnt_eq, h.rdlist_eq, h.rdnum_eq⟩

/-- **`nepoll_ctl`** on the tree and on the map. -/
theorem Implements.ctl (h : Implements R ep) (op : CtlOp) (sockid : ℤ) (event : Option EpollEvent) (ok : Bool) :
    Agree Implements (R.nepollCtl op sockid event ok) (ep.nepollCtl op sockid event ok) := by
  obtain ⟨W, hW⟩ := h.holds
  have hfind : ∀ {epi : Ptr}, rbFind sockfdCmp R.rbr (RbEventpoll.tmp sockid) = some epi →
      deref (rbFind sockfdCmp R.rbr (RbEventpoll.tmp sockid)) = .ok epi := by
    intro epi hfind
    rw [hfind]
    rfl
  unfold RbEventpoll.nepollCtl Eventpoll.nepollCtl
  cases op with
  | add =>
    cases event with
    | none => exact .ok h
    | some event =>
      cases hlookup : ep.rbr.lookup sockid with
      | some epi =>
        obtain ⟨item, hrun, hne, -, -⟩ := hW.find_some hlookup
        exact Agree.of_eq (bind_ok (hfind hrun) (if_pos hne)) rfl (.ok h)
      | none =>
        have hrun := hW.find_none hlookup
        cases ok with
        | false => exact Agree.of_eq (bind_ok (hfind hrun) ((if_neg (not_not.mpr rfl)).trans rfl)) rfl (.ok h)
        | true =>
          obtain ⟨rbr', W', hinsert, hW'⟩ := hW.add ⟨0, sockid, event⟩ hlookup
          refine Agree.of_eq (bind_ok (hfind hrun) ((if_neg (not_not.mpr rfl)).trans
            (bind_ok (congrArg deref hinsert) rfl))) rfl (.ok ?_)
          exact ⟨⟨W', hW'⟩, h.fd_eq, congrArg (· + 1) h.rbcnt_eq, h.rdlist_eq, h.rdnum_eq⟩
  | del =>
    cases hlookup : ep.rbr.lookup sockid with
    | none => exact Agree.of_eq (bind_ok (hfind (hW.find_none hlookup)) (if_pos rfl)) rfl (.ok h)
    | some epi =>
      obtain ⟨item, hrun, hne, hmem, rfl⟩ := hW.find_some hlookup
      obtain ⟨rbr', W', hremove, hfree, hW'⟩ := hW.del hmem
      have hitems := Heap.free_of_load ((hW.load_iff epi item).mpr hmem)
      refine Agree.of_eq (bind_ok (hfind hrun) ((if_neg hne).trans (bind_ok (congrArg deref hremove)
        ((if_neg hne).trans (bind_ok (congrArg deref hfree) rfl)))))
        (bind_ok (congrArg deref hitems) rfl) (.ok ?_)
      exact ⟨⟨W', hW'⟩, h.fd_eq, congrArg (· - 1) h.rbcnt_eq, h.rdlist_eq, h.rdnum_eq⟩
  | mod =>
    cases event with
    | none => exact .ok h
    | some event =>
      cases hlookup : ep.rbr.lookup sockid with
      | none => exact Agree.of_eq (bind_ok (hfind (hW.find_none hlookup)) (if_pos rfl)) rfl (.ok h)
      | some epi =>
        obtain ⟨item, hrun, hne, hmem, -⟩ := hW.find_some hlookup
        obtain ⟨rbr', W', hset, hW'⟩ := hW.update hmem (f := fun i =>
          { i with event := { i.event with events := event.events ||| (EPOLLERR ||| EPOLLHUP) } }) (fun _ => rfl)
        have hitems := Heap.modify_of_load (fun i : Epitem =>
          { i with event := { i.event with events := event.events ||| (EPOLLERR ||| EPOLLHUP) } })
          ((hW.load_iff epi item).mpr hmem)
        refine Agree.of_eq (bind_ok (hfind hrun) ((if_neg hne).trans (bind_ok hset rfl)))
          (bind_ok (congrArg deref hitems) rfl) (.ok ?_)
        exact ⟨⟨W', hW'⟩, h.fd_eq, h.rbcnt_eq, h.rdlist_eq, h.rdnum_eq⟩

/-- **The loop of `nepoll_wait`** on the tree and on the map. -/
theorem collect_agree {keys : AList (fun _ : ℤ => Ptr)} (rdlist : List Ptr) : ∀ {rbr : LinkedTree Epitem}
    {W : RBTree (Entry Epitem)} {items : Heap Epitem} (rdnum num : ℤ), HoldsItems rbr W items keys →
    Agree (fun s t => (∃ W, HoldsItems s.1 W t.1 keys) ∧ s.2 = t.2)
      (RbEventpoll.collect rbr rdnum rdlist num) (Eventpoll.collect items rdnum rdlist num) := by
  induction rdlist with
  | nil => exact fun rdnum num h => .ok ⟨⟨_, h⟩, rfl⟩
  | cons epi rest ih =>
    intro rbr W items rdnum num h
    unfold RbEventpoll.collect Eventpoll.collect
    by_cases hnum : num = 0
    · rw [if_pos hnum, if_pos hnum]
      exact .ok ⟨⟨_, h⟩, rfl⟩
    · rw [if_neg hnum, if_neg hnum]
      have htouch := h.touchFirst_eq rest
      cases ht : Eventpoll.touchFirst items rest with
      | error e => exact Agree.of_eq (bind_error (htouch.trans ht)) (bind_error rfl) (.error e)
      | ok u =>
        cases hload : items.load epi with
        | none =>
          refine Agree.of_eq (bind_ok (htouch.trans ht) (bind_error ?_)) (bind_ok rfl (bind_error rfl))
            (.error Stop.dangling)
          rw [h.elemOf_eq, hload]
          rfl
        | some item =>
          have helem : deref (rbr.elemOf epi) = .ok item := by
            rw [h.elemOf_eq, hload]
            rfl
          obtain ⟨rbr', W', hset, h'⟩ := h.update (h.mem hload) (f := fun i => { i with rdy := 0 }) (fun _ => rfl)
          have hrest := ih (rdnum - 1) (num - 1) h'
          generalize hx : RbEventpoll.collect rbr' (rdnum - 1) rest (num - 1) = x at hrest
          generalize Eventpoll.collect (items.update epi (fun i => { i with rdy := 0 })) (rdnum - 1) rest
            (num - 1) = y at hrest
          cases hrest with
          | ok hS =>
            exact Agree.of_eq (bind_ok (htouch.trans ht) (bind_ok helem (bind_ok hset (bind_ok hx rfl))))
              (bind_ok rfl (bind_ok rfl (bind_ok rfl rfl))) (.ok hS)
          | error e =>
            exact Agree.of_eq (bind_ok (htouch.trans ht) (bind_ok helem (bind_ok hset (bind_error hx))))
              (bind_ok rfl (bind_ok rfl (bind_error rfl))) (.error e)

/-- **A call on the epoll.** -/
inductive EpCall where
  | callback (sockid : ℤ) (event : UInt32)
  | ctl (op : CtlOp) (sockid : ℤ) (event : Option EpollEvent) (ok : Bool)
  | wait (maxevents timeout : ℤ)

/-- What it returns. -/
inductive EpResult where
  | callback (ret : Option ℤ)
  | ctl (ret : ℤ)
  | wait (ret : ℤ) (events : List EpollEvent)
deriving DecidableEq

/-- A call on the map. -/
def Eventpoll.call (ep : Eventpoll) : EpCall → Except Stop (EpResult × Eventpoll)
  | .callback sockid event => (ep.epollEventCallback sockid event).map (fun r => (.callback r.1, r.2))
  | .ctl op sockid event ok => (ep.nepollCtl op sockid event ok).map (fun r => (.ctl r.1, r.2))
  | .wait maxevents timeout => (ep.nepollWait maxevents timeout).map (fun r => (.wait r.1 r.2.1, r.2.2))

/-- A call on the tree. -/
def RbEventpoll.call (ep : RbEventpoll) : EpCall → Except Stop (EpResult × RbEventpoll)
  | .callback sockid event => (ep.epollEventCallback sockid event).map (fun r => (.callback r.1, r.2))
  | .ctl op sockid event ok => (ep.nepollCtl op sockid event ok).map (fun r => (.ctl r.1, r.2))
  | .wait maxevents timeout => (ep.nepollWait maxevents timeout).map (fun r => (.wait r.1 r.2.1, r.2.2))

/-- **`nepoll_wait`** on the tree and on the map. -/
theorem Implements.wait (h : Implements R ep) (maxevents timeout : ℤ) :
    Agree Implements (R.call (.wait maxevents timeout)) (ep.call (.wait maxevents timeout)) := by
  obtain ⟨W, hW⟩ := h.holds
  unfold RbEventpoll.call Eventpoll.call RbEventpoll.nepollWait Eventpoll.nepollWait
  rw [h.rdnum_eq, h.rdlist_eq]
  by_cases hmax : maxevents ≤ 0
  · simp only [if_pos hmax]
    exact .ok h
  · simp only [if_neg hmax]
    by_cases hblocked : ep.rdnum = 0 ∧ timeout < 0
    · simp only [if_pos hblocked]
      exact .error Stop.blocked
    · simp only [if_neg hblocked]
      have hcollect := collect_agree ep.rdlist ep.rdnum (if ep.rdnum > maxevents then maxevents else ep.rdnum) hW
      generalize RbEventpoll.collect R.rbr ep.rdnum ep.rdlist _ = x at hcollect
      generalize Eventpoll.collect ep.items ep.rdnum ep.rdlist _ = y at hcollect
      cases hcollect with
      | ok hS =>
        obtain ⟨hW', hrest⟩ := hS
        exact .ok ⟨hW', h.fd_eq, h.rbcnt_eq, congrArg Prod.fst hrest, congrArg Prod.snd hrest⟩
      | error e => exact .error e

/-- **A call on the tree is one on the map.** -/
theorem Implements.call (h : Implements R ep) (c : EpCall) : Agree Implements (R.call c) (ep.call c) := by
  cases c with
  | callback sockid event => exact (h.callback sockid event).map _
  | ctl op sockid event ok => exact (h.ctl op sockid event ok).map _
  | wait maxevents timeout => exact h.wait maxevents timeout

/-- **The epoll on its red-black tree is the epoll on a map**: whatever is called after
`nepoll_create`, and in whatever order, every call returns the same, and where a call goes wrong
it goes wrong on both, in the same way. -/
theorem runCalls_eq (epfd : ℤ) (calls : List EpCall) :
    runCalls RbEventpoll.call (RbEventpoll.create epfd) calls
      = runCalls Eventpoll.call (Eventpoll.create epfd) calls :=
  runCalls_congr (fun _ _ c h => h.call c) calls (create_implements epfd)

end Calls

end Ustack
