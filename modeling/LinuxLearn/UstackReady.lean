import LinuxLearn.UstackEpoll

/-!
# What an epoll object has to tell

To the application an epoll object is a set of descriptors that are
registered, and the queue of those that are ready. `epoll_event_callback`
puts a descriptor in front of the queue if it is registered and not yet
there; `nepoll_wait` takes the first ones off; `nepoll_ctl` changes the
set, and must not delete what is in the queue.

This is how the object looks as long as tree and list are in step, and
each event carries the descriptor it was registered for (`Tidy`). One
lemma tells what each operation does to set and queue.
-/

namespace Ustack

namespace Eventpoll

/-- **The descriptors that are ready**, the latest first. -/
def ready (ep : Eventpoll) : List ℤ :=
  ep.rdlist.filterMap (fun epi => (ep.items.load epi).map Epitem.sockfd)

/-- **A descriptor is registered and not ready**, so that a callback is told on. -/
def Idle (ep : Eventpoll) (sockid : ℤ) : Prop :=
  ∃ epi item, ep.rbr.lookup sockid = some epi ∧ ep.items.load epi = some item ∧ item.rdy = 0

/-- **In step, and events carry their descriptors.** -/
structure Tidy (ep : Eventpoll) : Prop where
  inStep : InStep ep
  event_fd : ∀ {epi item}, ep.items.load epi = some item → item.event.fd = item.sockfd

section Ready

variable {ep ep' : Eventpoll} {sockid : ℤ}

theorem create_tidy (epfd : ℤ) : Tidy (create epfd) := ⟨create_inStep epfd, fun h => nomatch h⟩

/-- What is ready is registered. -/
theorem InStep.lookup_of_mem_ready (h : InStep ep) (hmem : sockid ∈ ep.ready) :
    ep.rbr.lookup sockid ≠ none := by
  obtain ⟨epi, -, hepi⟩ := List.mem_filterMap.mp hmem
  obtain ⟨item, hitem, rfl⟩ := Option.map_eq_some_iff.mp hepi
  rw [h.lookup_of_load hitem]
  exact Option.some_ne_none epi

theorem InStep.ready_nodup (h : InStep ep) : ep.ready.Nodup := by
  refine h.nodup.filterMap (fun epi epi' sockid hepi hepi' => ?_)
  obtain ⟨item, hitem, hsockfd⟩ := Option.map_eq_some_iff.mp hepi
  obtain ⟨item', hitem', hsockfd'⟩ := Option.map_eq_some_iff.mp hepi'
  have hlookup := h.lookup_of_load hitem
  rw [hsockfd, ← hsockfd', h.lookup_of_load hitem'] at hlookup
  exact (Option.some.inj hlookup).symm

/-- The counter tells whether something is ready. -/
theorem InStep.ready_eq_nil (h : InStep ep) (hrdnum : ep.rdnum = 0) : ep.ready = [] := by
  have hlength : ep.rdlist.length = 0 := by
    rw [← Int.ofNat_inj, ← h.rdnum_eq, hrdnum]
    rfl
  unfold ready
  rw [List.length_eq_zero_iff.mp hlength]
  rfl

/-- The queue looks at descriptors only. -/
theorem ready_congr (rdlist : List Ptr) {items items' : Heap Epitem}
    (h : ∀ p ∈ rdlist, (items'.load p).map Epitem.sockfd = (items.load p).map Epitem.sockfd) :
    rdlist.filterMap (fun epi => (items'.load epi).map Epitem.sockfd)
      = rdlist.filterMap (fun epi => (items.load epi).map Epitem.sockfd) :=
  List.filterMap_congr h

/-- A flag is set, and descriptors stay. -/
theorem sockfd_setRdy (items : Heap Epitem) (epi : Ptr) (rdy : ℤ) (p : Ptr) :
    ((items.update epi (fun i => { i with rdy := rdy })).load p).map Epitem.sockfd
      = (items.load p).map Epitem.sockfd := by
  rw [Heap.load_update]
  split
  · rw [Option.map_map]
    rfl
  · rfl

/-- **`epoll_event_callback`** for a descriptor that is registered and not ready. -/
theorem Tidy.callback (h : Tidy ep) {event : UInt32} {ret : Option ℤ} (hidle : Idle ep sockid)
    (hok : epollEventCallback ep sockid event = .ok (ret, ep')) :
    Tidy ep' ∧ ep'.ready = sockid :: ep.ready := by
  obtain ⟨epi, item, hlookup, hitem, hrdy⟩ := hidle
  have hsockfd : item.sockfd = sockid := by
    obtain ⟨item', hitem', hsockfd⟩ := h.inStep.load_of_lookup hlookup
    obtain rfl := Option.some.inj (hitem.symm.trans hitem')
    exact hsockfd
  unfold epollEventCallback at hok
  simp only [hlookup] at hok
  obtain ⟨item', hitem', hok⟩ := exists_of_bind_eq_ok hok
  obtain rfl : item = item' := by
    rw [hitem] at hitem'
    exact Except.ok.inj hitem'
  rw [if_neg (not_not.mpr hrdy)] at hok
  obtain ⟨rdlist, hinsert, hok⟩ := exists_of_bind_eq_ok hok
  obtain ⟨-, -, hrdlist⟩ := exists_of_bind_eq_ok hinsert
  obtain rfl := Except.ok.inj hrdlist
  obtain ⟨-, rfl⟩ := Prod.mk.inj (Except.ok.inj hok)
  refine ⟨⟨h.inStep.insertHead hitem hrdy, ?_⟩, ?_⟩
  · intro p item' hitem'
    rw [Heap.load_update] at hitem'
    split at hitem'
    · obtain ⟨item₀, hitem₀, rfl⟩ := Option.map_eq_some_iff.mp hitem'
      have hfd := h.event_fd hitem₀
      exact hfd
    · exact h.event_fd hitem'
  · have hhead : ((ep.items.update epi (fun i => { i with rdy := 1 })).load epi).map Epitem.sockfd
        = some sockid := by
      rw [sockfd_setRdy, hitem]
      exact congrArg some hsockfd
    unfold ready
    rw [List.filterMap_cons]
    simp only [hhead]
    refine congrArg (sockid :: ·) ?_
    exact ready_congr _ (fun p _ => sockfd_setRdy ep.items epi 1 p)

/-- **`EPOLL_CTL_ADD`** of a descriptor, with an event that carries it. -/
theorem Tidy.add (h : Tidy ep) {events : UInt32} {ok : Bool} {ret : ℤ}
    (hok : nepollCtl ep .add sockid (some ⟨events, sockid⟩) ok = .ok (ret, ep')) :
    Tidy ep' ∧ ep'.fd = ep.fd ∧ ep'.ready = ep.ready
      ∧ ∀ fd, ep'.rbr.lookup fd ≠ none → fd = sockid ∨ ep.rbr.lookup fd ≠ none := by
  unfold nepollCtl at hok
  cases hlookup : ep.rbr.lookup sockid with
  | some epi =>
    simp only [hlookup] at hok
    obtain ⟨-, rfl⟩ := Prod.mk.inj (Except.ok.inj hok)
    exact ⟨h, rfl, rfl, fun _ hfd => Or.inr hfd⟩
  | none =>
    simp only [hlookup] at hok
    split at hok
    · obtain ⟨-, rfl⟩ := Prod.mk.inj (Except.ok.inj hok)
      refine ⟨⟨h.inStep.add hlookup _, ?_⟩, rfl, ?_, ?_⟩
      · intro p item hitem
        rw [Heap.load_alloc] at hitem
        split at hitem
        · obtain rfl := Option.some.inj hitem
          rfl
        · exact h.event_fd hitem
      · refine ready_congr _ (fun p hp => ?_)
        obtain ⟨item, hitem⟩ := h.inStep.load_of_mem hp
        rw [hitem, Heap.load_alloc_of_load _ hitem]
      · intro fd hfd
        by_cases hs : fd = sockid
        · exact Or.inl hs
        · rw [AList.lookup_insert_ne hs] at hfd
          exact Or.inr hfd
    · obtain ⟨-, rfl⟩ := Prod.mk.inj (Except.ok.inj hok)
      exact ⟨h, rfl, rfl, fun _ hfd => Or.inr hfd⟩

/-- **`EPOLL_CTL_DEL`** of a descriptor that is not ready. -/
theorem Tidy.del (h : Tidy ep) {event : Option EpollEvent} {ok : Bool} {ret : ℤ}
    (hsafe : (Call.ctl .del sockid event ok).Safe ep)
    (hok : nepollCtl ep .del sockid event ok = .ok (ret, ep')) :
    Tidy ep' ∧ ep'.fd = ep.fd ∧ ep'.ready = ep.ready ∧ ep'.rbr.lookup sockid = none
      ∧ ∀ fd, ep'.rbr.lookup fd ≠ none → ep.rbr.lookup fd ≠ none := by
  cases hlookup : ep.rbr.lookup sockid with
  | none =>
    unfold nepollCtl at hok
    simp only [hlookup] at hok
    obtain ⟨-, rfl⟩ := Prod.mk.inj (Except.ok.inj hok)
    exact ⟨h, rfl, rfl, hlookup, fun _ hfd => hfd⟩
  | some epi =>
    rw [h.inStep.nepollCtl_del hlookup] at hok
    obtain ⟨-, rfl⟩ := Prod.mk.inj (Except.ok.inj hok)
    obtain ⟨item, hitem, -⟩ := h.inStep.load_of_lookup hlookup
    have hnot : epi ∉ ep.rdlist := by
      rw [h.inStep.rdy_iff hitem, hsafe epi item hlookup hitem]
      exact zero_ne_one
    refine ⟨⟨h.inStep.del hlookup hnot, ?_⟩, rfl, ?_, AList.lookup_erase _ _, ?_⟩
    · intro p item hitem
      rw [Heap.load_erase] at hitem
      split at hitem
      · cases hitem
      · exact h.event_fd hitem
    · refine ready_congr _ (fun p hp => ?_)
      have hne : p ≠ epi := fun he => hnot (he ▸ hp)
      rw [Heap.load_erase, if_neg hne]
    · intro fd hfd
      by_cases hs : fd = sockid
      · subst hs
        rw [hlookup]
        exact Option.some_ne_none epi
      · rw [AList.lookup_erase_ne hs] at hfd
        exact hfd

/-- **`nepoll_wait`** hands out the front of the queue. -/
theorem Tidy.wait (h : Tidy ep) {maxevents timeout cnt : ℤ} {events : List EpollEvent}
    (hmax : 0 < maxevents) (htimeout : 0 ≤ timeout)
    (hok : nepollWait ep maxevents timeout = .ok (cnt, events, ep')) :
    Tidy ep' ∧ ep'.fd = ep.fd ∧ ep'.rbr = ep.rbr ∧ 0 ≤ cnt
      ∧ events.map EpollEvent.fd ++ ep'.ready = ep.ready := by
  obtain ⟨n, events', items, -, hle, -, hwait, hevents, hitems⟩ :=
    h.inStep.wait_eq hmax (Or.inr htimeout)
  rw [hwait] at hok
  obtain ⟨rfl, hpair⟩ := Prod.mk.inj (Except.ok.inj hok)
  obtain ⟨rfl, rfl⟩ := Prod.mk.inj hpair
  have hsockfd : ∀ p, (items.load p).map Epitem.sockfd = (ep.items.load p).map Epitem.sockfd := by
    intro p
    rw [hitems]
    split
    · rw [Option.map_map]
      rfl
    · rfl
  refine ⟨⟨h.inStep.taken hle hitems, ?_⟩, rfl, rfl, Int.natCast_nonneg n, ?_⟩
  · intro p item hitem
    rw [hitems] at hitem
    split at hitem
    · obtain ⟨item', hitem', rfl⟩ := Option.map_eq_some_iff.mp hitem
      have hfd := h.event_fd hitem'
      exact hfd
    · exact h.event_fd hitem
  · have hfront : events'.map EpollEvent.fd
        = (ep.rdlist.take n).filterMap (fun epi => (ep.items.load epi).map Epitem.sockfd) := by
      have hall : events' = (ep.rdlist.take n).filterMap
          (fun p => (ep.items.load p).map Epitem.event) := by
        have hid := congrArg (List.filterMap id) hevents
        simpa [List.filterMap_map] using hid
      rw [hall, List.map_filterMap]
      refine List.filterMap_congr (fun p _ => ?_)
      rw [Option.map_map]
      exact Option.map_congr (fun item hitem => h.event_fd hitem)
    have hback := ready_congr (ep.rdlist.drop n) (fun p _ => hsockfd p)
    show _ ++ (ep.rdlist.drop n).filterMap _ = _
    rw [hfront, hback, ← List.filterMap_append, List.take_append_drop]
    rfl

end Ready

end Eventpoll

end Ustack
