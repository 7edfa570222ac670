import LinuxLearn.Heap
import LinuxLearn.Simulation
import LinuxLearn.UstackFd
import Mathlib.Data.List.AList

/-!
# The epoll of the user-space stack

`struct eventpoll` has two containers for its items: a red–black tree of
all of them, keyed by the descriptor, and the list of those that are
ready. An item tells by its flag `rdy` whether it is on the list. The tree
is taken for what its macros implement, a finite map; the list holds
pointers, and what it points to may have been freed.

`nepoll_ctl` frees an item it deletes and does not take it off the list.
As long as no item is deleted that is ready, tree, list, flags and counters
stay in step (`ready_list`).
-/

namespace Ustack

/-- `EPOLLIN`. -/
def EPOLLIN : UInt32 := 0x0001

/-- `EPOLLERR`. -/
def EPOLLERR : UInt32 := 0x0008

/-- `EPOLLHUP`. -/
def EPOLLHUP : UInt32 := 0x0010

/-- **`struct epoll_event`**; of the union `data` the descriptor. -/
structure EpollEvent where
  events : UInt32
  fd : ℤ
deriving DecidableEq

/-- **`struct epitem`.** -/
structure Epitem where
  /-- Not zero if it is on the list of those that are ready. -/
  rdy : ℤ
  sockfd : ℤ
  event : EpollEvent
deriving DecidableEq

/-- **`struct eventpoll`**; `waiting`, which nobody reads, and the locks are left out. -/
structure Eventpoll where
  fd : ℤ
  /-- The memory of the items. -/
  items : Heap Epitem
  /-- The tree of all items, by descriptor. -/
  rbr : AList (fun _ : ℤ => Ptr)
  /-- How many items the tree has. -/
  rbcnt : ℤ
  /-- The items that are ready, the newest first. -/
  rdlist : List Ptr
  /-- How many items the list has. -/
  rdnum : ℤ

/-- The operations of `nepoll_ctl`. -/
inductive CtlOp where
  | add
  | del
  | mod
deriving DecidableEq

namespace Eventpoll

/-- **`nepoll_create`**, as far as the object goes. -/
def create (epfd : ℤ) : Eventpoll := ⟨epfd, Heap.empty, ∅, 0, [], 0⟩

/-- The first item of a list gets a new neighbour. -/
def touchFirst (items : Heap Epitem) : List Ptr → Except Stop Unit
  | [] => .ok ()
  | first :: _ => (deref (items.load first)).map (fun _ => ())

/-- `LIST_INSERT_HEAD`. -/
def listInsertHead (items : Heap Epitem) (rdlist : List Ptr) (epi : Ptr) :
    Except Stop (List Ptr) := do
  touchFirst items rdlist
  return epi :: rdlist

/-- **`epoll_event_callback`.** Nothing is returned where an item becomes
ready. -/
def epollEventCallback (ep : Eventpoll) (sockid : ℤ) (event : UInt32) :
    Except Stop (Option ℤ × Eventpoll) :=
  match ep.rbr.lookup sockid with
  | none => .ok (some (-1), ep)
  | some epi => do
    let item ← deref (ep.items.load epi)
    if item.rdy ≠ 0 then
      return (some 1, { ep with items := ep.items.update epi (fun i =>
        { i with event := { i.event with events := i.event.events ||| event } }) })
    else
      let items := ep.items.update epi (fun i => { i with rdy := 1 })
      let rdlist ← listInsertHead items ep.rdlist epi
      return (none, { ep with items := items, rdlist := rdlist, rdnum := ep.rdnum + 1 })

/-- **`nepoll_ctl`** on an epoll object; `ok` tells whether an allocation would
succeed. The memory of a new item is zeroed. It comes from `rte_malloc`; that it is
given to `free` and not to `rte_free` is taken for a release all the same. -/
def nepollCtl (ep : Eventpoll) (op : CtlOp) (sockid : ℤ) (event : Option EpollEvent) (ok : Bool) :
    Except Stop (ℤ × Eventpoll) :=
  match op, event with
  | .add, none => .ok (-1, ep)
  | .mod, none => .ok (-1, ep)
  | .add, some event =>
    match ep.rbr.lookup sockid with
    | some _ => .ok (-1, ep)
    | none =>
      if ok then
        .ok (0, { ep with
          items := ep.items.alloc ⟨0, sockid, event⟩
          rbr := ep.rbr.insert sockid ep.items.next
          rbcnt := ep.rbcnt + 1 })
      else .ok (-1, ep)
  | .del, _ =>
    match ep.rbr.lookup sockid with
    | none => .ok (-1, ep)
    | some epi => do
      let items ← deref (ep.items.free epi)
      return (0, { ep with items := items, rbr := ep.rbr.erase sockid, rbcnt := ep.rbcnt - 1 })
  | .mod, some event =>
    match ep.rbr.lookup sockid with
    | none => .ok (-1, ep)
    | some epi => do
      let items ← deref (ep.items.modify epi (fun i =>
        { i with event := { i.event with events := event.events ||| (EPOLLERR ||| EPOLLHUP) } }))
      return (0, { ep with items := items })

/-- The loop of `nepoll_wait`: `num` items at most are taken off the list.
`LIST_REMOVE` of the first gives the next one a new neighbour. -/
def collect (items : Heap Epitem) (rdnum : ℤ) :
    List Ptr → ℤ → Except Stop (List EpollEvent × Heap Epitem × List Ptr × ℤ)
  | [], _ => .ok ([], items, [], rdnum)
  | epi :: rest, num =>
    if num = 0 then .ok ([], items, epi :: rest, rdnum)
    else do
      touchFirst items rest
      let item ← deref (items.load epi)
      let (events, items, rdlist, rdnum) ←
        collect (items.update epi (fun i => { i with rdy := 0 })) (rdnum - 1) rest (num - 1)
      return (item.event :: events, items, rdlist, rdnum)

/-- **`nepoll_wait`.** With nothing ready it waits until something is, or for
the time it is given; that is, without a limit if `timeout` is negative. -/
def nepollWait (ep : Eventpoll) (maxevents timeout : ℤ) :
    Except Stop (ℤ × List EpollEvent × Eventpoll) :=
  if maxevents ≤ 0 then .ok (-1, [], ep)
  else if ep.rdnum = 0 ∧ timeout < 0 then .error .blocked
  else do
    let num := if ep.rdnum > maxevents then maxevents else ep.rdnum
    let (events, items, rdlist, rdnum) ← collect ep.items ep.rdnum ep.rdlist num
    return (events.length, events, { ep with items := items, rdlist := rdlist, rdnum := rdnum })

/-- A callback leaves the tree alone. -/
theorem callback_frame {ep ep' : Eventpoll} {sockid : ℤ} {event : UInt32} {ret : Option ℤ}
    (h : epollEventCallback ep sockid event = .ok (ret, ep')) : ep'.fd = ep.fd ∧ ep'.rbr = ep.rbr := by
  unfold epollEventCallback at h
  split at h
  · obtain ⟨-, rfl⟩ := Prod.mk.inj (Except.ok.inj h)
    exact ⟨rfl, rfl⟩
  · obtain ⟨item, -, h⟩ := exists_of_bind_eq_ok h
    split at h
    · obtain ⟨-, rfl⟩ := Prod.mk.inj (Except.ok.inj h)
      exact ⟨rfl, rfl⟩
    · obtain ⟨rdlist, -, h⟩ := exists_of_bind_eq_ok h
      obtain ⟨-, rfl⟩ := Prod.mk.inj (Except.ok.inj h)
      exact ⟨rfl, rfl⟩

/-! ## Tree and list -/

/-- **Tree, list, flags and counters are in step.** -/
structure InStep (ep : Eventpoll) : Prop where
  rbcnt_eq : ep.rbcnt = ep.rbr.keys.length
  /-- The tree holds items, under their own descriptors. -/
  load_of_lookup : ∀ {sockid epi}, ep.rbr.lookup sockid = some epi →
    ∃ item, ep.items.load epi = some item ∧ item.sockfd = sockid
  /-- It holds them all. -/
  lookup_of_load : ∀ {epi item}, ep.items.load epi = some item →
    ep.rbr.lookup item.sockfd = some epi
  /-- What is on the list is in the tree. -/
  registered : ∀ epi ∈ ep.rdlist, ∃ sockid, ep.rbr.lookup sockid = some epi
  nodup : ep.rdlist.Nodup
  rdy_iff : ∀ {epi item}, ep.items.load epi = some item → (epi ∈ ep.rdlist ↔ item.rdy = 1)
  rdy_cases : ∀ {epi item}, ep.items.load epi = some item → item.rdy = 0 ∨ item.rdy = 1
  rdnum_eq : ep.rdnum = ep.rdlist.length

theorem create_inStep (epfd : ℤ) : InStep (create epfd) where
  rbcnt_eq := rfl
  load_of_lookup := fun h => nomatch h
  lookup_of_load := fun h => nomatch h
  registered := fun _ h => absurd h List.not_mem_nil
  nodup := List.nodup_nil
  rdy_iff := fun h => nomatch h
  rdy_cases := fun h => nomatch h
  rdnum_eq := rfl

section Step

variable {ep : Eventpoll} {epi : Ptr} {sockid : ℤ}

/-- What is on the list is live. -/
theorem InStep.load_of_mem (h : InStep ep) (hepi : epi ∈ ep.rdlist) :
    ∃ item, ep.items.load epi = some item := by
  obtain ⟨sockid, hlookup⟩ := h.registered epi hepi
  obtain ⟨item, hitem, -⟩ := h.load_of_lookup hlookup
  exact ⟨item, hitem⟩

/-- A list of live items is touched without harm. -/
theorem touchFirst_of_live {items : Heap Epitem} {rdlist : List Ptr}
    (h : ∀ p ∈ rdlist, ∃ item, items.load p = some item) : touchFirst items rdlist = .ok () := by
  cases rdlist with
  | nil => rfl
  | cons first rest =>
    obtain ⟨item, hitem⟩ := h first List.mem_cons_self
    show (deref (items.load first)).map _ = _
    rw [hitem]
    rfl

/-- **An item is written to**, its descriptor and its flag apart. -/
theorem InStep.update (h : InStep ep) (epi : Ptr) {f : Epitem → Epitem}
    (hf : ∀ i, (f i).sockfd = i.sockfd ∧ (f i).rdy = i.rdy) :
    InStep { ep with items := ep.items.update epi f } := by
  have hload : ∀ {p item}, (ep.items.update epi f).load p = some item →
      ∃ item', ep.items.load p = some item' ∧ item.sockfd = item'.sockfd ∧ item.rdy = item'.rdy := by
    intro p item hitem
    rw [Heap.load_update] at hitem
    split at hitem
    · obtain ⟨item', hitem', rfl⟩ := Option.map_eq_some_iff.mp hitem
      exact ⟨item', hitem', hf item'⟩
    · exact ⟨item, hitem, rfl, rfl⟩
  refine ⟨h.rbcnt_eq, ?_, ?_, h.registered, h.nodup, ?_, ?_, h.rdnum_eq⟩
  · intro sockid p hlookup
    obtain ⟨item, hitem, hsockfd⟩ := h.load_of_lookup hlookup
    rw [Heap.load_update]
    split
    · exact ⟨f item, by rw [hitem]; rfl, (hf item).1.trans hsockfd⟩
    · exact ⟨item, hitem, hsockfd⟩
  · intro p item hitem
    obtain ⟨item', hitem', hsockfd, -⟩ := hload hitem
    rw [hsockfd]
    exact h.lookup_of_load hitem'
  · intro p item hitem
    obtain ⟨item', hitem', -, hrdy⟩ := hload hitem
    rw [hrdy]
    exact h.rdy_iff hitem'
  · intro p item hitem
    obtain ⟨item', hitem', -, hrdy⟩ := hload hitem
    rw [hrdy]
    exact h.rdy_cases hitem'

/-- **An item becomes ready.** -/
theorem InStep.insertHead (h : InStep ep) {item : Epitem} (hitem : ep.items.load epi = some item)
    (hrdy : item.rdy = 0) :
    InStep { ep with
      items := ep.items.update epi (fun i => { i with rdy := 1 })
      rdlist := epi :: ep.rdlist
      rdnum := ep.rdnum + 1 } := by
  have hnot : epi ∉ ep.rdlist := by
    rw [h.rdy_iff hitem, hrdy]
    decide
  have hself : (ep.items.update epi (fun i => { i with rdy := 1 })).load epi
      = some { item with rdy := 1 } := by
    rw [Heap.load_update, if_pos rfl, hitem]
    rfl
  have hother : ∀ p, p ≠ epi →
      (ep.items.update epi (fun i => { i with rdy := 1 })).load p = ep.items.load p := by
    intro p hp
    rw [Heap.load_update, if_neg hp]
  refine ⟨h.rbcnt_eq, ?_, ?_, ?_, List.nodup_cons.mpr ⟨hnot, h.nodup⟩, ?_, ?_, ?_⟩
  · intro sockid p hlookup
    obtain ⟨item', hitem', hsockfd⟩ := h.load_of_lookup hlookup
    by_cases hp : p = epi
    · subst hp
      obtain rfl := Option.some.inj (hitem.symm.trans hitem')
      exact ⟨_, hself, hsockfd⟩
    · exact ⟨item', (hother p hp).trans hitem', hsockfd⟩
  · intro p item' hitem'
    by_cases hp : p = epi
    · subst hp
      obtain rfl := Option.some.inj (hself.symm.trans hitem')
      have hlookup := h.lookup_of_load hitem
      exact hlookup
    · exact h.lookup_of_load ((hother p hp).symm.trans hitem')
  · exact List.forall_mem_cons.mpr ⟨⟨item.sockfd, h.lookup_of_load hitem⟩, h.registered⟩
  · intro p item' hitem'
    by_cases hp : p = epi
    · subst hp
      obtain rfl := Option.some.inj (hself.symm.trans hitem')
      exact iff_of_true List.mem_cons_self rfl
    · rw [List.mem_cons, or_iff_right hp]
      exact h.rdy_iff ((hother p hp).symm.trans hitem')
  · intro p item' hitem'
    by_cases hp : p = epi
    · subst hp
      obtain rfl := Option.some.inj (hself.symm.trans hitem')
      exact Or.inr rfl
    · exact h.rdy_cases ((hother p hp).symm.trans hitem')
  · show ep.rdnum + 1 = ((epi :: ep.rdlist).length : ℤ)
    rw [h.rdnum_eq, List.length_cons]
    rfl

/-- **`epoll_event_callback`** returns, and keeps them in step. -/
theorem InStep.callback (h : InStep ep) (sockid : ℤ) (event : UInt32) :
    ∃ ret ep', epollEventCallback ep sockid event = .ok (ret, ep') ∧ InStep ep' := by
  unfold epollEventCallback
  cases hlookup : ep.rbr.lookup sockid with
  | none => exact ⟨_, _, rfl, h⟩
  | some epi =>
    obtain ⟨item, hitem, -⟩ := h.load_of_lookup hlookup
    by_cases hrdy : item.rdy = 0
    · have htouch : touchFirst (ep.items.update epi (fun i => { i with rdy := 1 })) ep.rdlist
          = .ok () := by
        refine touchFirst_of_live (fun p hp => ?_)
        obtain ⟨item', hitem'⟩ := h.load_of_mem hp
        rw [Heap.load_update]
        split
        · exact ⟨_, by rw [hitem']; rfl⟩
        · exact ⟨item', hitem'⟩
      refine ⟨none, _, ?_, h.insertHead hitem hrdy⟩
      simp only [hitem, deref, listInsertHead]
      refine bind_ok rfl ?_
      rw [if_neg (not_not.mpr hrdy)]
      exact bind_ok (bind_ok htouch rfl) rfl
    · refine ⟨some 1, _, ?_, h.update epi (f := fun i =>
        { i with event := { i.event with events := i.event.events ||| event } }) (fun i => ⟨rfl, rfl⟩)⟩
      simp only [hitem, deref]
      exact bind_ok rfl (if_pos hrdy)

/-- **An item is added.** -/
theorem InStep.add (h : InStep ep) (hlookup : ep.rbr.lookup sockid = none) (event : EpollEvent) :
    InStep { ep with
      items := ep.items.alloc ⟨0, sockid, event⟩
      rbr := ep.rbr.insert sockid ep.items.next
      rbcnt := ep.rbcnt + 1 } := by
  have hnotMem : sockid ∉ ep.rbr := AList.lookup_eq_none.mp hlookup
  have hnot : ep.items.next ∉ ep.rdlist := by
    intro hmem
    obtain ⟨item, hitem⟩ := h.load_of_mem hmem
    exact Heap.ne_next_of_load hitem rfl
  have hload : ∀ {p item}, (ep.items.alloc ⟨0, sockid, event⟩).load p = some item →
      (p = ep.items.next ∧ item = ⟨0, sockid, event⟩) ∨ (p ≠ ep.items.next
        ∧ ep.items.load p = some item) := by
    intro p item hitem
    rw [Heap.load_alloc] at hitem
    split at hitem
    · next hp => exact Or.inl ⟨hp, (Option.some.inj hitem).symm⟩
    · next hp => exact Or.inr ⟨hp, hitem⟩
  refine ⟨?_, ?_, ?_, ?_, h.nodup, ?_, ?_, h.rdnum_eq⟩
  · show ep.rbcnt + 1 = ((ep.rbr.insert sockid ep.items.next).keys.length : ℤ)
    rw [AList.keys_insert, List.erase_of_not_mem hnotMem, List.length_cons, h.rbcnt_eq]
    rfl
  · intro sockid' p hp
    by_cases hs : sockid' = sockid
    · subst hs
      rw [AList.lookup_insert] at hp
      obtain rfl := Option.some.inj hp
      exact ⟨⟨0, sockid', event⟩, by simp, rfl⟩
    · rw [AList.lookup_insert_ne hs] at hp
      obtain ⟨item, hitem, hsockfd⟩ := h.load_of_lookup hp
      exact ⟨item, Heap.load_alloc_of_load _ hitem, hsockfd⟩
  · intro p item hitem
    rcases hload hitem with ⟨rfl, rfl⟩ | ⟨-, hitem⟩
    · exact AList.lookup_insert _
    · have hp := h.lookup_of_load hitem
      have hne : item.sockfd ≠ sockid := fun he => by
        rw [he, hlookup] at hp
        cases hp
      exact (AList.lookup_insert_ne hne).trans hp
  · intro p hp
    obtain ⟨sockid', hp'⟩ := h.registered p hp
    have hne : sockid' ≠ sockid := fun he => by
      rw [he, hlookup] at hp'
      cases hp'
    exact ⟨sockid', (AList.lookup_insert_ne hne).trans hp'⟩
  · intro p item hitem
    rcases hload hitem with ⟨rfl, rfl⟩ | ⟨-, hitem⟩
    · exact iff_of_false hnot zero_ne_one
    · exact h.rdy_iff hitem
  · intro p item hitem
    rcases hload hitem with ⟨rfl, rfl⟩ | ⟨-, hitem⟩
    · exact Or.inl rfl
    · exact h.rdy_cases hitem

/-- Another item is found after one is deleted. -/
theorem lookup_erase_of_ne (hlookup : ep.rbr.lookup sockid = some epi) {p : Ptr}
    (hp : p ≠ epi) {sockid' : ℤ} (hp' : ep.rbr.lookup sockid' = some p) :
    (ep.rbr.erase sockid).lookup sockid' = some p := by
  have hne : sockid' ≠ sockid := fun he => by
    rw [he, hlookup] at hp'
    exact hp (Option.some.inj hp').symm
  exact (AList.lookup_erase_ne hne).trans hp'

/-- **An item is deleted** that is not ready. -/
theorem InStep.del (h : InStep ep) (hlookup : ep.rbr.lookup sockid = some epi)
    (hnot : epi ∉ ep.rdlist) :
    InStep { ep with
      items := ep.items.erase epi
      rbr := ep.rbr.erase sockid
      rbcnt := ep.rbcnt - 1 } := by
  have hmem : sockid ∈ ep.rbr.keys := AList.lookup_isSome.mp (by rw [hlookup]; rfl)
  have hload : ∀ {p item}, (ep.items.erase epi).load p = some item →
      p ≠ epi ∧ ep.items.load p = some item := by
    intro p item hitem
    rw [Heap.load_erase] at hitem
    split at hitem
    · cases hitem
    · next hp => exact ⟨hp, hitem⟩
  refine ⟨?_, ?_, ?_, ?_, h.nodup, ?_, ?_, h.rdnum_eq⟩
  · show ep.rbcnt - 1 = ((ep.rbr.erase sockid).keys.length : ℤ)
    have hpos : 0 < ep.rbr.keys.length := List.length_pos_of_mem hmem
    rw [AList.keys_erase, List.length_erase_of_mem hmem, h.rbcnt_eq]
    omega
  · intro sockid' p hp
    have hs : sockid' ≠ sockid := fun he => by
      rw [he, AList.lookup_erase] at hp
      cases hp
    rw [AList.lookup_erase_ne hs] at hp
    obtain ⟨item, hitem, hsockfd⟩ := h.load_of_lookup hp
    obtain ⟨item', hitem', hsockfd'⟩ := h.load_of_lookup hlookup
    have hne : p ≠ epi := fun he => by
      rw [he, hitem'] at hitem
      rw [Option.some.inj hitem] at hsockfd'
      exact hs (hsockfd.symm.trans hsockfd')
    refine ⟨item, ?_, hsockfd⟩
    rw [Heap.load_erase, if_neg hne]
    exact hitem
  · intro p item hitem
    obtain ⟨hp, hitem⟩ := hload hitem
    exact lookup_erase_of_ne hlookup hp (h.lookup_of_load hitem)
  · intro p hp
    obtain ⟨sockid', hp'⟩ := h.registered p hp
    exact ⟨sockid', lookup_erase_of_ne hlookup (fun he => hnot (he ▸ hp)) hp'⟩
  · intro p item hitem
    exact h.rdy_iff (hload hitem).2
  · intro p item hitem
    exact h.rdy_cases (hload hitem).2

/-- **An item that is deleted while it is ready** stays on the list, and is no
longer in the tree. -/
theorem not_inStep_del (hmem : epi ∈ ep.rdlist) :
    ¬ InStep { ep with
      items := ep.items.erase epi
      rbr := ep.rbr.erase sockid
      rbcnt := ep.rbcnt - 1 } := by
  intro h
  obtain ⟨item, hitem⟩ := h.load_of_mem hmem
  simp at hitem

/-- Deleting does not go wrong by itself. -/
theorem InStep.nepollCtl_del (h : InStep ep) (hlookup : ep.rbr.lookup sockid = some epi)
    (event : Option EpollEvent) (ok : Bool) :
    nepollCtl ep .del sockid event ok = .ok (0, { ep with
      items := ep.items.erase epi
      rbr := ep.rbr.erase sockid
      rbcnt := ep.rbcnt - 1 }) := by
  obtain ⟨item, hitem, -⟩ := h.load_of_lookup hlookup
  unfold nepollCtl
  simp only [hlookup, Heap.free_of_load hitem]
  rfl

/-- **`nepoll_ctl`** returns, and keeps them in step unless it deletes. -/
theorem InStep.ctl (h : InStep ep) {op : CtlOp} (hop : op ≠ .del) (sockid : ℤ)
    (event : Option EpollEvent) (ok : Bool) :
    ∃ ret ep', nepollCtl ep op sockid event ok = .ok (ret, ep') ∧ InStep ep' := by
  cases op with
  | del => exact absurd rfl hop
  | add =>
    cases event with
    | none => exact ⟨_, _, rfl, h⟩
    | some event =>
      unfold nepollCtl
      cases hlookup : ep.rbr.lookup sockid with
      | some epi => exact ⟨_, _, rfl, h⟩
      | none =>
        cases ok with
        | false => exact ⟨_, _, rfl, h⟩
        | true => exact ⟨_, _, rfl, h.add hlookup event⟩
  | mod =>
    cases event with
    | none => exact ⟨_, _, rfl, h⟩
    | some event =>
      unfold nepollCtl
      cases hlookup : ep.rbr.lookup sockid with
      | none => exact ⟨_, _, rfl, h⟩
      | some epi =>
        obtain ⟨item, hitem, -⟩ := h.load_of_lookup hlookup
        refine ⟨0, _, ?_, h.update epi (f := fun i =>
          { i with event := { i.event with events := event.events ||| (EPOLLERR ||| EPOLLHUP) } })
          (fun i => ⟨rfl, rfl⟩)⟩
        simp only [Heap.modify_of_load _ hitem]
        rfl

/-- **The first items are taken off the list**, and their flags cleared. -/
theorem InStep.taken (h : InStep ep) {n : ℕ} (hle : n ≤ ep.rdlist.length) {items : Heap Epitem}
    (hitems : ∀ p, items.load p = if p ∈ ep.rdlist.take n then
        (ep.items.load p).map (fun i => { i with rdy := 0 })
      else ep.items.load p) :
    InStep { ep with items := items, rdlist := ep.rdlist.drop n, rdnum := ep.rdnum - n } := by
  have hdisjoint : ∀ p ∈ ep.rdlist.take n, p ∉ ep.rdlist.drop n := by
    have hnd := h.nodup
    rw [← List.take_append_drop n ep.rdlist] at hnd
    exact fun p hp hp' => (List.nodup_append.mp hnd).2.2 p hp p hp' rfl
  have hload : ∀ {p item}, items.load p = some item → ∃ item', ep.items.load p = some item'
      ∧ item.sockfd = item'.sockfd
      ∧ ((p ∈ ep.rdlist.take n ∧ item.rdy = 0) ∨ (p ∉ ep.rdlist.take n ∧ item.rdy = item'.rdy)) := by
    intro p item hitem
    rw [hitems] at hitem
    split at hitem
    · next hp =>
      obtain ⟨item', hitem', rfl⟩ := Option.map_eq_some_iff.mp hitem
      exact ⟨item', hitem', rfl, Or.inl ⟨hp, rfl⟩⟩
    · next hp => exact ⟨item, hitem, rfl, Or.inr ⟨hp, rfl⟩⟩
  refine ⟨h.rbcnt_eq, ?_, ?_, ?_, h.nodup.sublist (List.drop_sublist n _), ?_, ?_, ?_⟩
  · intro sockid p hlookup
    obtain ⟨item, hitem, hsockfd⟩ := h.load_of_lookup hlookup
    rw [hitems]
    split
    · exact ⟨{ item with rdy := 0 }, by rw [hitem]; rfl, hsockfd⟩
    · exact ⟨item, hitem, hsockfd⟩
  · intro p item hitem
    obtain ⟨item', hitem', hsockfd, -⟩ := hload hitem
    rw [hsockfd]
    exact h.lookup_of_load hitem'
  · exact fun p hp => h.registered p (List.mem_of_mem_drop hp)
  · intro p item hitem
    obtain ⟨item', hitem', -, ⟨hp, hrdy⟩ | ⟨hp, hrdy⟩⟩ := hload hitem
    · rw [hrdy]
      exact iff_of_false (hdisjoint p hp) zero_ne_one
    · rw [hrdy, ← h.rdy_iff hitem', ← List.take_append_drop n ep.rdlist, List.mem_append,
        or_iff_right hp, List.take_append_drop]
  · intro p item hitem
    obtain ⟨item', hitem', -, ⟨-, hrdy⟩ | ⟨-, hrdy⟩⟩ := hload hitem
    · exact Or.inl hrdy
    · rw [hrdy]
      exact h.rdy_cases hitem'
  · show ep.rdnum - n = ((ep.rdlist.drop n).length : ℤ)
    rw [h.rdnum_eq, List.length_drop]
    omega

/-- **The loop of `nepoll_wait`** takes the first `num` items off a list of live
ones, and clears their flags. -/
theorem collect_eq {ps : List Ptr} (items : Heap Epitem) (rdnum : ℤ) (num : ℕ) (hnd : ps.Nodup)
    (hlive : ∀ p ∈ ps, ∃ item, items.load p = some item) :
    ∃ events items', collect items rdnum ps num
        = .ok (events, items', ps.drop num, rdnum - (ps.take num).length)
      ∧ events.map some = (ps.take num).map (fun p => (items.load p).map Epitem.event)
      ∧ ∀ p, items'.load p = if p ∈ ps.take num then
          (items.load p).map (fun i => { i with rdy := 0 })
        else items.load p := by
  induction ps generalizing items rdnum num with
  | nil => exact ⟨[], items, by simp [collect], by simp, by simp⟩
  | cons epi rest ih =>
    cases num with
    | zero => exact ⟨[], items, by simp [collect], by simp, by simp⟩
    | succ num =>
      obtain ⟨hnot, hnd'⟩ := List.nodup_cons.mp hnd
      obtain ⟨item, hitem⟩ := hlive epi List.mem_cons_self
      have hother : ∀ p ∈ rest,
          (items.update epi (fun i => { i with rdy := 0 })).load p = items.load p := by
        intro p hp
        have hne : p ≠ epi := fun he => hnot (he ▸ hp)
        rw [Heap.load_update, if_neg hne]
      have hrest : ∀ p ∈ rest, ∃ item, items.load p = some item :=
        fun p hp => hlive p (List.mem_cons_of_mem epi hp)
      obtain ⟨events, items', hcollect, hevents, hitems⟩ := ih
        (items.update epi (fun i => { i with rdy := 0 })) (rdnum - 1) num
        hnd' (fun p hp => by rw [hother p hp]; exact hrest p hp)
      refine ⟨item.event :: events, items', ?_, ?_, ?_⟩
      · have hnum : ((num + 1 : ℕ) : ℤ) - 1 = num := by omega
        have hne : ((num + 1 : ℕ) : ℤ) ≠ 0 := by omega
        have hlength : rdnum - 1 - ((rest.take num).length : ℤ)
            = rdnum - (((epi :: rest).take (num + 1)).length : ℤ) := by
          rw [List.take_succ_cons, List.length_cons]
          omega
        unfold collect
        rw [if_neg hne, hnum, hitem]
        refine bind_ok (touchFirst_of_live hrest) (bind_ok rfl (bind_ok hcollect ?_))
        simp only [hlength]
        rfl
      · rw [List.map_cons, hevents, List.take_succ_cons, List.map_cons, hitem]
        congr 1
        refine List.map_congr_left (fun p hp => ?_)
        rw [hother p (List.mem_of_mem_take hp)]
      · intro p
        rw [hitems, Heap.load_update, List.take_succ_cons]
        by_cases hp : p = epi
        · subst hp
          have hnot' : p ∉ rest.take num := fun hmem => hnot (List.mem_of_mem_take hmem)
          rw [if_neg hnot']
          simp
        · simp [hp]

/-- **`nepoll_wait`** with something ready, or a limit to its wait: the first
items are taken off the list, so many as are ready and asked for. -/
theorem InStep.wait_eq (h : InStep ep) {maxevents timeout : ℤ} (hmax : 0 < maxevents)
    (hready : ep.rdnum ≠ 0 ∨ 0 ≤ timeout) :
    ∃ (n : ℕ) (events : List EpollEvent) (items : Heap Epitem),
      min ep.rdnum maxevents = n ∧ n ≤ ep.rdlist.length ∧ events.length = n
      ∧ nepollWait ep maxevents timeout = .ok (n, events,
        { ep with items := items, rdlist := ep.rdlist.drop n, rdnum := ep.rdnum - n })
      ∧ events.map some = (ep.rdlist.take n).map (fun p => (ep.items.load p).map Epitem.event)
      ∧ ∀ p, items.load p = if p ∈ ep.rdlist.take n then
          (ep.items.load p).map (fun i => { i with rdy := 0 })
        else ep.items.load p := by
  obtain ⟨n, hn⟩ : ∃ n : ℕ, min ep.rdnum maxevents = n := by
    refine ⟨(min ep.rdnum maxevents).toNat, (Int.toNat_of_nonneg ?_).symm⟩
    rw [h.rdnum_eq]
    exact le_min (Int.natCast_nonneg _) hmax.le
  have hle : n ≤ ep.rdlist.length := by
    rw [← Int.ofNat_le, ← hn, ← h.rdnum_eq]
    exact min_le_left _ _
  have hnum : (if ep.rdnum > maxevents then maxevents else ep.rdnum) = n := by
    rw [← hn]
    split
    · next hgt => exact (min_eq_right hgt.le).symm
    · next hngt => exact (min_eq_left (not_lt.mp hngt)).symm
  have htake : (ep.rdlist.take n).length = n := by
    rw [List.length_take, min_eq_left hle]
  obtain ⟨events, items, hcollect, hevents, hitems⟩ := collect_eq ep.items ep.rdnum n
    h.nodup (fun p hp => h.load_of_mem hp)
  have hlength : events.length = n := by
    rw [← List.length_map (f := some), hevents, List.length_map, htake]
  refine ⟨n, events, items, hn, hle, hlength, ?_, hevents, hitems⟩
  have hwaits : ¬ (ep.rdnum = 0 ∧ timeout < 0) := by
    rintro ⟨hzero, hneg⟩
    exact hready.elim (fun hne => hne hzero) (fun hle => hle.not_gt hneg)
  unfold nepollWait
  rw [if_neg hmax.not_ge, if_neg hwaits]
  simp only [hnum]
  refine bind_ok hcollect ?_
  simp only [hlength, htake]
  rfl

/-- **What it hands out** is of items in the tree. -/
theorem InStep.wait (h : InStep ep) {maxevents timeout : ℤ} (hmax : 0 < maxevents)
    (hready : ep.rdnum ≠ 0 ∨ 0 ≤ timeout) :
    ∃ events ep', nepollWait ep maxevents timeout = .ok (min ep.rdnum maxevents, events, ep')
      ∧ events.length = min ep.rdnum maxevents
      ∧ (∀ event ∈ events, ∃ sockid epi item, ep.rbr.lookup sockid = some epi
        ∧ ep.items.load epi = some item ∧ item.event = event)
      ∧ InStep ep' := by
  obtain ⟨n, events, items, hn, hle, hlength, hwait, hevents, hitems⟩ := h.wait_eq hmax hready
  refine ⟨events, _, ?_, ?_, ?_, h.taken hle hitems⟩
  · rw [hn]
    exact hwait
  · rw [hn, hlength]
  · intro event hevent
    have hmem : some event ∈ (ep.rdlist.take n).map (fun p => (ep.items.load p).map Epitem.event) := by
      rw [← hevents]
      exact List.mem_map_of_mem hevent
    obtain ⟨epi, hepi, hitem⟩ := List.mem_map.mp hmem
    obtain ⟨item, hload, rfl⟩ := Option.map_eq_some_iff.mp hitem
    exact ⟨item.sockfd, epi, item, h.lookup_of_load hload, hload, rfl⟩

/-! ## Runs -/

/-- **The calls of an epoll object**, with what they are given. -/
inductive Call where
  | ctl (op : CtlOp) (sockid : ℤ) (event : Option EpollEvent) (ok : Bool)
  | callback (sockid : ℤ) (event : UInt32)
  | wait (maxevents timeout : ℤ)

/-- **One call**, and the events it hands out. -/
def step (ep : Eventpoll) : Call → Except Stop (List EpollEvent × Eventpoll)
  | .ctl op sockid event ok => do
    let (_, ep) ← nepollCtl ep op sockid event ok
    return ([], ep)
  | .callback sockid event => do
    let (_, ep) ← epollEventCallback ep sockid event
    return ([], ep)
  | .wait maxevents timeout => do
    let (_, events, ep) ← nepollWait ep maxevents timeout
    return (events, ep)

/-- The epoll object as a machine. -/
def machine : Machine Eventpoll Call (List EpollEvent) := fun ep call => (step ep call).toOption

/-- **A call does not delete an item that is ready.** -/
def Call.Safe (ep : Eventpoll) : Call → Prop
  | .ctl .del sockid _ _ => ∀ epi item, ep.rbr.lookup sockid = some epi →
    ep.items.load epi = some item → item.rdy = 0
  | _ => True

/-- A safe call returns and keeps them in step, unless it waits. -/
theorem InStep.step (h : InStep ep) {call : Call} (hsafe : call.Safe ep)
    (hwaits : Eventpoll.step ep call ≠ .error .blocked) :
    ∃ o, Eventpoll.step ep call = .ok o ∧ InStep o.2 := by
  cases call with
  | ctl op sockid event ok =>
    by_cases hop : op = .del
    · subst hop
      cases hlookup : ep.rbr.lookup sockid with
      | none =>
        refine ⟨([], ep), bind_ok (a := (-1, ep)) ?_ rfl, h⟩
        unfold nepollCtl
        simp only [hlookup]
      | some epi =>
        obtain ⟨item, hitem, -⟩ := h.load_of_lookup hlookup
        have hnot : epi ∉ ep.rdlist := by
          rw [h.rdy_iff hitem, hsafe epi item hlookup hitem]
          exact zero_ne_one
        exact ⟨([], _), bind_ok (h.nepollCtl_del hlookup event ok) rfl, h.del hlookup hnot⟩
    · obtain ⟨ret, ep', hctl, h'⟩ := h.ctl hop sockid event ok
      exact ⟨([], ep'), bind_ok hctl rfl, h'⟩
  | callback sockid event =>
    obtain ⟨ret, ep', hcallback, h'⟩ := h.callback sockid event
    exact ⟨([], ep'), bind_ok hcallback rfl, h'⟩
  | wait maxevents timeout =>
    by_cases hmax : maxevents ≤ 0
    · exact ⟨([], ep), bind_ok (a := (-1, [], ep)) (if_pos hmax) rfl, h⟩
    · by_cases hready : ep.rdnum ≠ 0 ∨ 0 ≤ timeout
      · obtain ⟨events, ep', hwait, -, -, h'⟩ := h.wait (not_le.mp hmax) hready
        exact ⟨(events, ep'), bind_ok hwait rfl, h'⟩
      · obtain ⟨hzero, hneg⟩ : ep.rdnum = 0 ∧ timeout < 0 := by
          simpa only [not_or, not_not, not_le] using hready
        refine absurd ?_ hwaits
        have hblocked : nepollWait ep maxevents timeout = .error .blocked := by
          unfold nepollWait
          rw [if_neg hmax, if_pos ⟨hzero, hneg⟩]
        show (nepollWait ep maxevents timeout >>= _) = _
        rw [hblocked]
        rfl

/-- A safe call that returns keeps them in step. -/
theorem InStep.of_step (h : InStep ep) {call : Call} (hsafe : call.Safe ep)
    {o : List EpollEvent × Eventpoll} (ho : Eventpoll.step ep call = .ok o) : InStep o.2 := by
  have hwaits : Eventpoll.step ep call ≠ .error .blocked := by
    rw [ho]
    exact fun he => nomatch he
  obtain ⟨o', ho', h'⟩ := h.step hsafe hwaits
  obtain rfl := Except.ok.inj (ho'.symm.trans ho)
  exact h'

/-- A call that is not safe leaves a freed item on the list. -/
theorem InStep.safe_of_step (h : InStep ep) {call : Call} {o : List EpollEvent × Eventpoll}
    (ho : Eventpoll.step ep call = .ok o) (h' : InStep o.2) : call.Safe ep := by
  cases call with
  | callback sockid event => trivial
  | wait maxevents timeout => trivial
  | ctl op sockid event ok =>
    cases op with
    | add => trivial
    | mod => trivial
    | del =>
      intro epi item hlookup hitem
      have hdel : Eventpoll.step ep (.ctl .del sockid event ok) = .ok ([], { ep with
          items := ep.items.erase epi
          rbr := ep.rbr.erase sockid
          rbcnt := ep.rbcnt - 1 }) := bind_ok (h.nepollCtl_del hlookup event ok) rfl
      obtain rfl := Except.ok.inj (hdel.symm.trans ho)
      refine (h.rdy_cases hitem).resolve_right (fun hrdy => ?_)
      exact not_inStep_del ((h.rdy_iff hitem).mpr hrdy) h'

/-- **Tree, list, flags and counters stay in step** in every run that deletes no
item that is ready. Then `nepoll_wait` hands out as many events as are ready
and asked for, of descriptors that are registered. A further call that returns
keeps them in step exactly if it is safe, and a safe one returns, unless it waits.
That `free` takes the item of `EPOLL_CTL_DEL` is assumed (`nepollCtl`). -/
theorem ready_list {epfd : ℤ} {log : List EpollEvent} {ep : Eventpoll}
    (h : machine.Reach Call.Safe (create epfd) log ep) :
    InStep ep
    ∧ (∀ maxevents timeout, 0 < maxevents → (ep.rdnum ≠ 0 ∨ 0 ≤ timeout) →
      ∃ events ep', nepollWait ep maxevents timeout = .ok (min ep.rdnum maxevents, events, ep')
        ∧ events.length = min ep.rdnum maxevents
        ∧ ∀ event ∈ events, ∃ sockid epi item, ep.rbr.lookup sockid = some epi
          ∧ ep.items.load epi = some item ∧ item.event = event)
    ∧ (∀ call o, Eventpoll.step ep call = .ok o → (InStep o.2 ↔ call.Safe ep))
    ∧ ∀ call, call.Safe ep → Eventpoll.step ep call ≠ .error .blocked →
      ∃ o, Eventpoll.step ep call = .ok o := by
  have hinv : InStep ep := by
    refine Machine.Reach.invariant (I := fun _ ep => InStep ep) (create_inStep epfd) ?_ h
    intro log ep call out ep' hinv hsafe hstep
    exact hinv.of_step hsafe (eq_ok_of_toOption hstep)
  refine ⟨hinv, ?_, ?_, ?_⟩
  · intro maxevents timeout hmax hready
    obtain ⟨events, ep', hwait, hlength, hregistered, -⟩ := hinv.wait hmax hready
    exact ⟨events, ep', hwait, hlength, hregistered⟩
  · intro call o ho
    exact ⟨fun h' => hinv.safe_of_step ho h', fun hsafe => hinv.of_step hsafe ho⟩
  · intro call hsafe hwaits
    obtain ⟨o, ho, -⟩ := hinv.step hsafe hwaits
    exact ⟨o, ho⟩

/-- A descriptor is added and becomes ready; it is the one event there is. -/
theorem ready_list_one :
    ∃ ep, machine.Reach Call.Safe (create 4) [] ep
      ∧ ∃ event ep', nepollWait ep 128 5 = .ok (1, [event], ep')
        ∧ ∃ sockid epi item, ep.rbr.lookup sockid = some epi
          ∧ ep.items.load epi = some item ∧ item.event = event := by
  have hsafe : (Call.ctl .add 5 (some ⟨EPOLLIN, 5⟩) true).Safe (create 4) := trivial
  have hadd := (Machine.Reach.refl (M := machine)).step hsafe rfl
  have hready := hadd.step (show (Call.callback 5 EPOLLIN).Safe _ from trivial) rfl
  obtain ⟨-, hwait, -⟩ := ready_list hready
  obtain ⟨events, ep', hok, hlength, hregistered⟩ := hwait 128 5 (by decide) (by decide)
  have hone : events.length = 1 := Int.ofNat.inj hlength
  obtain ⟨event, rfl⟩ := List.length_eq_one_iff.mp hone
  exact ⟨_, hready, event, ep', hok, hregistered event List.mem_cons_self⟩

/-- An item that is ready is deleted, and stays on the list. -/
theorem not_ready_list :
    ¬ ∀ (epfd : ℤ) (log : List EpollEvent) (ep : Eventpoll),
      machine.Reach (fun _ _ => True) (create epfd) log ep → InStep ep := by
  intro h
  have hadd := (Machine.Reach.refl (M := machine) (P := fun _ _ => True) (s := create 4)).step
    (i := .ctl .add 5 (some ⟨EPOLLIN, 5⟩) true) trivial rfl
  have hready := hadd.step (i := .callback 5 EPOLLIN) trivial rfl
  have hdel := hready.step (i := .ctl .del 5 none true) trivial rfl
  obtain ⟨sockid, hlookup⟩ := (h _ _ _ hdel).registered 1 List.mem_cons_self
  cases hlookup

end Step

end Eventpoll

end Ustack
