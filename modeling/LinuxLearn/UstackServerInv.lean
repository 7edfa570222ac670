import LinuxLearn.UstackServer

/-!
# The server is told of all there is to do

For each descriptor the events to come – those the server has not yet
looked at and those `nepoll_wait` has not yet handed out – are counted
against what there is to do: the fragments to read of its stream, or, for
the listener, the streams to accept. A step that loses nothing keeps the
events in the majority, and where none are to come nothing is left
(`nothing_lost`).

Streams that were closed and wait for their last ACK get in the way, since
they keep descriptors that may have been given out again. They have
nothing to read, and `nrecv` waits where it finds one, so that what is
closed is always the stream that was read from (`NotLast`).
-/

namespace Ustack

namespace Server

/-! ## The table of streams -/

/-- **What a stream has to read is told of.** `tokens` are the events to come,
those not yet looked at and those not yet handed out. A stream that was closed,
that listens or that was not accepted has nothing to read. -/
structure Kept (listenfd epfd : ℤ) (fdTable : FdTable) (tokens : List ℤ) (stream : TcpStream) :
    Prop where
  fits : ∀ f ∈ stream.rcvbuf, f.length ≤ BUFFER_SIZE
  told : stream.rcvbuf = [] ∨ (stream.status ≠ .lastAck ∧ 0 ≤ stream.fd ∧ stream.fd ≠ listenfd
    ∧ stream.rcvbuf.length ≤ tokens.count stream.fd)
  listener : stream.fd = listenfd → stream.status = .listen ∧ stream.dport = SERVER_PORT
  ne_epfd : stream.fd ≠ epfd
  taken : stream.status ≠ .lastAck → 0 ≤ stream.fd → fdTable.Taken stream.fd.toNat

/-- **The table of streams**, with the events to come. -/
structure Table (listenfd epfd : ℤ) (tokens : List ℤ) (s : Stack) : Prop where
  formed : s.Formed
  lhost_eq : s.lhost = []
  listenfd_nonneg : 0 ≤ listenfd
  epfd_nonneg : 0 ≤ epfd
  epfd_taken : s.fdTable.Taken epfd.toNat
  /-- Somebody listens. -/
  listens : ∃ x ∈ s.tcbSet, x.2.fd = listenfd
  kept : ∀ x ∈ s.tcbSet, Kept listenfd epfd s.fdTable tokens x.2
  /-- Streams that are not closed have descriptors of their own. -/
  unique : ∀ x ∈ s.tcbSet, ∀ y ∈ s.tcbSet, x.2.status ≠ .lastAck → y.2.status ≠ .lastAck →
    0 ≤ x.2.fd → x.2.fd = y.2.fd → x.1 = y.1
  /-- Each stream that waits to be accepted is told of. -/
  waiting : s.tcbSet.countP (fun x => Unaccepted x.2) ≤ tokens.count listenfd

/-- The first stream of a descriptor was not closed. -/
def NotLast (s : Stack) (fd : ℤ) : Prop :=
  ∀ x, s.tcbSet.first (fun stream => fd = stream.fd) = some x → x.2.status ≠ .lastAck

section Table

variable {listenfd epfd fd : ℤ} {tokens tokens' : List ℤ} {fdTable : FdTable} {s s' : Stack} {p : Ptr}
  {stream stream' : TcpStream}

/-- More events are to come. -/
theorem Kept.mono (h : Kept listenfd epfd fdTable tokens stream)
    (hle : tokens.count stream.fd ≤ tokens'.count stream.fd) :
    Kept listenfd epfd fdTable tokens' stream :=
  ⟨h.fits, h.told.imp_right (fun ht => ⟨ht.1, ht.2.1, ht.2.2.1, ht.2.2.2.trans hle⟩), h.listener,
    h.ne_epfd, h.taken⟩

theorem Table.mono (h : Table listenfd epfd tokens s)
    (hle : ∀ fd, tokens.count fd ≤ tokens'.count fd) : Table listenfd epfd tokens' s :=
  ⟨h.formed, h.lhost_eq, h.listenfd_nonneg, h.epfd_nonneg, h.epfd_taken, h.listens,
    fun x hx => (h.kept x hx).mono (hle _), h.unique, h.waiting.trans (hle _)⟩

/-- Where a descriptor is looked up, streams come first. -/
theorem first_of_getHostinfo (hfd : s.getHostinfoFromfd fd = some (.tcp p stream)) :
    s.tcbSet.first (fun stream => fd = stream.fd) = some (p, stream) := by
  unfold Stack.getHostinfoFromfd at hfd
  split at hfd
  · cases hfd
  · split at hfd
    · next q x hfirst =>
      obtain ⟨rfl, rfl⟩ := Host.tcp.inj (Option.some.inj hfd)
      exact hfirst
    · split at hfd
      · split at hfd
        · cases hfd
        · cases hfd
      · cases hfd

/-- **The listener is found** under its descriptor. -/
theorem Table.getHostinfo_listenfd (h : Table listenfd epfd tokens s) :
    ∃ p stream, s.getHostinfoFromfd listenfd = some (.tcp p stream)
      ∧ stream.dport = SERVER_PORT := by
  obtain ⟨x, hx, hfd⟩ := h.listens
  cases hfirst : s.tcbSet.first (fun stream => listenfd = stream.fd) with
  | none => exact absurd hfd.symm (NodeList.first_eq_none.mp hfirst x hx)
  | some y =>
    obtain ⟨p, stream⟩ := y
    have hkept := h.kept _ (NodeList.mem_of_first hfirst)
    refine ⟨p, stream, ?_, (hkept.listener (NodeList.holds_of_first hfirst).symm).2⟩
    unfold Stack.getHostinfoFromfd
    rw [h.lhost_eq, hfirst]
    rfl

/-- **The epoll object is found** under its descriptor. -/
theorem Table.getHostinfo_epfd (h : Table listenfd epfd tokens s) {q : Ptr} {ep : Eventpoll}
    (hep : s.ep = some (q, ep)) (hfd : ep.fd = epfd) :
    s.getHostinfoFromfd epfd = some (.epoll q ep) := by
  have hfirst : s.tcbSet.first (fun stream => epfd = stream.fd) = none :=
    NodeList.first_eq_none.mpr (fun x hx he => (h.kept x hx).ne_epfd he.symm)
  unfold Stack.getHostinfoFromfd
  rw [h.lhost_eq, hfirst, hep]
  exact if_pos hfd

/-- The epoll object is no part of the table. -/
theorem Table.setEp (h : Table listenfd epfd tokens s) (ep : Option (Ptr × Eventpoll)) :
    Table listenfd epfd tokens { s with ep := ep } :=
  ⟨⟨h.formed.lhost_distinct, h.formed.tcbSet_distinct, h.formed.lhost_below,
    h.formed.tcbSet_below⟩, h.lhost_eq, h.listenfd_nonneg, h.epfd_nonneg, h.epfd_taken, h.listens,
    h.kept, h.unique, h.waiting⟩

/-- **A stream is written to** that keeps its descriptor. It stays closed if it
was, and whoever listens is not closed. -/
theorem Table.setStream (h : Table listenfd epfd tokens s) (hmem : (p, stream) ∈ s.tcbSet)
    (hkept : Kept listenfd epfd s.fdTable tokens stream') (hfd : stream'.fd = stream.fd)
    (hlast : stream.status = .lastAck → stream'.status = .lastAck)
    (hwaiting : (s.setStream p stream').tcbSet.countP (fun x => Unaccepted x.2)
      ≤ tokens.count listenfd) :
    Table listenfd epfd tokens (s.setStream p stream') := by
  have hold : ∀ x ∈ (s.setStream p stream').tcbSet, ∃ y ∈ s.tcbSet, y.1 = x.1
      ∧ y.2.fd = x.2.fd ∧ (x.2.status ≠ .lastAck → y.2.status ≠ .lastAck) := by
    intro x hx
    rcases Stack.mem_setStream.mp hx with ⟨-, hx⟩ | ⟨a, ha, rfl⟩
    · exact ⟨x, hx, rfl, rfl, id⟩
    · exact ⟨(p, stream), hmem, rfl, hfd.symm, mt hlast⟩
  refine ⟨h.formed.setStream p stream', h.lhost_eq, h.listenfd_nonneg, h.epfd_nonneg, h.epfd_taken,
    ?_, ?_, ?_, hwaiting⟩
  · obtain ⟨x, hx, hxfd⟩ := h.listens
    by_cases hp : x.1 = p
    · obtain ⟨q, y⟩ := x
      obtain rfl : q = p := hp
      obtain rfl := h.formed.tcbSet_distinct.eq hmem hx
      exact ⟨(q, stream'), Stack.mem_setStream.mpr (Or.inr ⟨_, hmem, rfl⟩), hfd.trans hxfd⟩
    · exact ⟨x, Stack.mem_setStream.mpr (Or.inl ⟨hp, hx⟩), hxfd⟩
  · exact Stack.forall_setStream h.kept hkept
  · intro x hx y hy hxlast hylast hnonneg hxy
    obtain ⟨x', hx', hxp, hxfd, hxstatus⟩ := hold x hx
    obtain ⟨y', hy', hyp, hyfd, hystatus⟩ := hold y hy
    rw [← hxp, ← hyp]
    exact h.unique x' hx' y' hy' (hxstatus hxlast) (hystatus hylast) (hxfd ▸ hnonneg)
      (hxfd.trans (hxy.trans hyfd.symm))

/-- How many wait to be accepted after a stream was written to. -/
theorem Table.countP_setStream (h : Table listenfd epfd tokens s) (hmem : (p, stream) ∈ s.tcbSet)
    (stream' : TcpStream) :
    (s.setStream p stream').tcbSet.countP (fun x => Unaccepted x.2)
        + (if Unaccepted stream then 1 else 0)
      = s.tcbSet.countP (fun x => Unaccepted x.2) + (if Unaccepted stream' then 1 else 0) :=
  NodeList.countP_update_add (f := fun _ => stream') h.formed.tcbSet_distinct hmem Unaccepted

/-- A stream is written to, and nobody new waits to be accepted. -/
theorem Table.rewrite (h : Table listenfd epfd tokens s) (hmem : (p, stream) ∈ s.tcbSet)
    (hkept : Kept listenfd epfd s.fdTable tokens stream') (hfd : stream'.fd = stream.fd)
    (hlast : stream.status = .lastAck → stream'.status = .lastAck)
    (hwaits : Unaccepted stream' → Unaccepted stream) :
    Table listenfd epfd tokens (s.setStream p stream') := by
  refine h.setStream hmem hkept hfd hlast ?_
  have hcount := h.countP_setStream hmem stream'
  have hwaiting := h.waiting
  by_cases hnew : Unaccepted stream'
  · rw [if_pos hnew, if_pos (hwaits hnew)] at hcount
    omega
  · rw [if_neg hnew] at hcount
    omega

/-- **A stream is added** that was not accepted. -/
theorem Table.cons (h : Table listenfd epfd tokens s) {syn : TcpStream} (hfd : syn.fd = -1)
    (hrcvbuf : syn.rcvbuf = []) (hstatus : syn.status = .synRcvd ∨ syn.status = .listen) :
    Table listenfd epfd tokens { s with tcbSet := (s.next, syn) :: s.tcbSet, next := s.next + 1 } := by
  have hlistenfd := h.listenfd_nonneg
  have hepfd := h.epfd_nonneg
  refine ⟨h.formed.cons_tcb syn, h.lhost_eq, hlistenfd, hepfd, h.epfd_taken, ?_, ?_, ?_, ?_⟩
  · obtain ⟨x, hx, hxfd⟩ := h.listens
    exact ⟨x, List.mem_cons_of_mem _ hx, hxfd⟩
  · refine List.forall_mem_cons.mpr ⟨?_, h.kept⟩
    show Kept _ _ _ _ syn
    refine ⟨?_, Or.inl hrcvbuf, ?_, ?_, ?_⟩
    · rw [hrcvbuf]
      exact List.forall_mem_nil _
    · intro he
      omega
    · omega
    · intro _ hnonneg
      omega
  · intro x hx y hy hxlast hylast hnonneg hxy
    rcases List.mem_cons.mp hx with rfl | hx
    · have : 0 ≤ syn.fd := hnonneg
      omega
    · rcases List.mem_cons.mp hy with rfl | hy
      · have : x.2.fd = syn.fd := hxy
        omega
      · exact h.unique x hx y hy hxlast hylast hnonneg hxy
  · have hnot : ¬ Unaccepted syn := by
      rintro ⟨he, -⟩
      rcases hstatus with hs | hs
      · cases hs.symm.trans he
      · cases hs.symm.trans he
    have hcount : ((s.next, syn) :: s.tcbSet).countP (fun x => Unaccepted x.2)
        = s.tcbSet.countP (fun x => Unaccepted x.2) :=
      List.countP_cons_of_neg (by simpa using hnot)
    show ((s.next, syn) :: s.tcbSet).countP (fun x => Unaccepted x.2) ≤ _
    rw [hcount]
    exact h.waiting

/-- **A stream is taken out**, not the listener. -/
theorem Table.remove (h : Table listenfd epfd tokens s) (hmem : (p, stream) ∈ s.tcbSet)
    (hfd : stream.fd ≠ listenfd) :
    Table listenfd epfd tokens { s with tcbSet := s.tcbSet.remove p } := by
  refine ⟨⟨h.formed.lhost_distinct, h.formed.tcbSet_distinct.remove, h.formed.lhost_below,
    h.formed.tcbSet_below.remove⟩, h.lhost_eq, h.listenfd_nonneg, h.epfd_nonneg, h.epfd_taken,
    ?_, ?_, ?_, ?_⟩
  · obtain ⟨x, hx, hxfd⟩ := h.listens
    refine ⟨x, NodeList.mem_remove.mpr ⟨hx, ?_⟩, hxfd⟩
    rintro rfl
    obtain rfl := h.formed.tcbSet_distinct.eq hmem hx
    exact hfd hxfd
  · exact fun x hx => h.kept x (NodeList.mem_remove.mp hx).1
  · intro x hx y hy
    exact h.unique x (NodeList.mem_remove.mp hx).1 y (NodeList.mem_remove.mp hy).1
  · exact (List.filter_sublist.countP_le).trans h.waiting

/-- **A stream is accepted** that waited for it: the event that told of it is
used up. -/
theorem Table.accept {n : ℕ} (h : Table listenfd epfd (listenfd :: tokens) s)
    (hmem : (p, stream) ∈ s.tcbSet) (hwaits : Unaccepted stream) (hfree : ¬ s.fdTable.Taken n)
    (htaken : ∀ m, fdTable.Taken m ↔ m = n ∨ s.fdTable.Taken m) :
    Table listenfd epfd tokens
      ({ s with fdTable := fdTable }.setStream p { stream with fd := n }) := by
  obtain ⟨hstatus, hfd, hdport⟩ := hwaits
  have hlistenfd := h.listenfd_nonneg
  have hrcvbuf : stream.rcvbuf = [] := by
    refine (h.kept _ hmem).told.resolve_right (fun ht => ?_)
    have : 0 ≤ stream.fd := ht.2.1
    omega
  -- descriptors that are taken differ from the new one
  have hne : ∀ x ∈ s.tcbSet, x.2.status ≠ .lastAck → x.2.fd ≠ n := by
    intro x hx hlast he
    refine hfree ?_
    have := (h.kept x hx).taken hlast (he ▸ Int.natCast_nonneg n)
    rwa [he] at this
  have hneListen : (n : ℤ) ≠ listenfd := by
    obtain ⟨x, hx, hxfd⟩ := h.listens
    have hlast : x.2.status ≠ .lastAck := by
      rw [((h.kept x hx).listener hxfd).1]
      decide
    exact fun he => hne x hx hlast (hxfd.trans he.symm)
  have hneEp : (n : ℤ) ≠ epfd := by
    intro he
    have := h.epfd_taken
    rw [← he, Int.toNat_natCast] at this
    exact hfree this
  refine ⟨(h.formed.setFdTable fdTable).setStream p _, h.lhost_eq, hlistenfd, h.epfd_nonneg,
    (htaken _).mpr (Or.inr h.epfd_taken), ?_, ?_, ?_, ?_⟩
  · obtain ⟨x, hx, hxfd⟩ := h.listens
    refine ⟨x, Stack.mem_setStream.mpr (Or.inl ⟨?_, hx⟩), hxfd⟩
    rintro rfl
    obtain rfl := h.formed.tcbSet_distinct.eq hmem hx
    omega
  · refine Stack.forall_setStream (fun x hx => ?_) ?_
    · have hkept := h.kept x hx
      refine ⟨hkept.fits, ?_, hkept.listener, hkept.ne_epfd, fun hlast hnonneg =>
        (htaken _).mpr (Or.inr (hkept.taken hlast hnonneg))⟩
      refine hkept.told.imp_right (fun ht => ⟨ht.1, ht.2.1, ht.2.2.1, ?_⟩)
      have hle := ht.2.2.2
      rwa [List.count_cons_of_ne ht.2.2.1.symm] at hle
    · refine ⟨?_, Or.inl hrcvbuf, fun he => absurd he hneListen, hneEp, fun _ _ => ?_⟩
      · show ∀ f ∈ stream.rcvbuf, _
        rw [hrcvbuf]
        exact List.forall_mem_nil _
      · exact (htaken _).mpr (Or.inl (Int.toNat_natCast n))
  · intro x hx y hy hxlast hylast hnonneg hxy
    rcases Stack.mem_setStream.mp hx with ⟨-, hx⟩ | ⟨-, -, rfl⟩
    · rcases Stack.mem_setStream.mp hy with ⟨-, hy⟩ | ⟨-, -, rfl⟩
      · exact h.unique x hx y hy hxlast hylast hnonneg hxy
      · exact absurd hxy (hne x hx hxlast)
    · rcases Stack.mem_setStream.mp hy with ⟨-, hy⟩ | ⟨-, -, rfl⟩
      · exact absurd hxy.symm (hne y hy hylast)
      · rfl
  · have hcount := h.countP_setStream hmem { stream with fd := n }
    have hwaiting := h.waiting
    have hnot : ¬ Unaccepted { stream with fd := n } := by
      rintro ⟨-, he, -⟩
      have hneg : (n : ℤ) = -1 := he
      omega
    rw [if_pos ⟨hstatus, hfd, hdport⟩, if_neg hnot] at hcount
    rw [List.count_cons_self] at hwaiting
    show (s.setStream p { stream with fd := n }).tcbSet.countP (fun x => Unaccepted x.2) ≤ _
    omega

/-! ## Closed streams -/

/-- **An event is looked at**, not the listener's, and what is left of its stream
is told of again. -/
theorem Table.spend (h : Table listenfd epfd (fd :: tokens) s) (hne : fd ≠ listenfd)
    (hle : ∀ x ∈ s.tcbSet, x.2.fd = fd → x.2.rcvbuf.length ≤ tokens.count fd) :
    Table listenfd epfd tokens s := by
  refine ⟨h.formed, h.lhost_eq, h.listenfd_nonneg, h.epfd_nonneg, h.epfd_taken, h.listens,
    fun x hx => ?_, h.unique, ?_⟩
  · have hkept := h.kept x hx
    refine ⟨hkept.fits, ?_, hkept.listener, hkept.ne_epfd, hkept.taken⟩
    refine hkept.told.imp_right (fun ht => ⟨ht.1, ht.2.1, ht.2.2.1, ?_⟩)
    by_cases hxfd : x.2.fd = fd
    · rw [hxfd]
      exact hle x hx hxfd
    · have hcount := ht.2.2.2
      rwa [List.count_cons_of_ne (Ne.symm hxfd)] at hcount
  · have hwaiting := h.waiting
    rwa [List.count_cons_of_ne hne] at hwaiting

/-- **A fragment is read.** -/
theorem Table.nrecv (h : Table listenfd epfd (stream.fd :: tokens) s)
    (hmem : (p, stream) ∈ s.tcbSet) {f : TcpFragment} {rcvbuf : List TcpFragment}
    (hrcvbuf : stream.rcvbuf = f :: rcvbuf) :
    stream.status ≠ .lastAck
      ∧ Table listenfd epfd tokens (s.setStream p { stream with rcvbuf := rcvbuf }) := by
  have hkept := h.kept _ hmem
  have hcons : stream.rcvbuf ≠ [] := by
    rw [hrcvbuf]
    exact List.cons_ne_nil f rcvbuf
  obtain ⟨hlast, hnonneg, hne, hlength⟩ := hkept.told.resolve_left hcons
  have hle : rcvbuf.length + 1 ≤ tokens.count stream.fd + 1 := by
    rw [List.count_cons_self] at hlength
    rw [← List.length_cons (a := f), ← hrcvbuf]
    exact hlength
  have hkept' : Kept listenfd epfd s.fdTable (stream.fd :: tokens)
      { stream with rcvbuf := rcvbuf } := by
    refine ⟨fun f' hf' => hkept.fits f' ?_, Or.inr ⟨hlast, hnonneg, hne, ?_⟩, hkept.listener,
      hkept.ne_epfd, hkept.taken⟩
    · show f' ∈ stream.rcvbuf
      rw [hrcvbuf]
      exact List.mem_cons_of_mem f hf'
    · show rcvbuf.length ≤ (stream.fd :: tokens).count stream.fd
      rw [List.count_cons_self]
      omega
  have hset := h.rewrite hmem hkept' rfl id id
  refine ⟨hlast, hset.spend hne (fun x hx hxfd => ?_)⟩
  rcases Stack.mem_setStream.mp hx with ⟨hp, hx'⟩ | ⟨-, -, rfl⟩
  · -- another stream of this descriptor was closed
    rcases (h.kept x hx').told with hnil | ht
    · rw [hnil]
      exact Nat.zero_le _
    · exact absurd (h.unique x hx' _ hmem ht.1 hlast ht.2.1 hxfd) hp
  · exact Nat.le_of_succ_le_succ hle

/-- **A stream is closed** that has nothing to read, and its descriptor is given
back. -/
theorem Table.close (h : Table listenfd epfd tokens s) (hmem : (p, stream) ∈ s.tcbSet)
    (hopen : stream.status ≠ .lastAck) (hne : stream.fd ≠ listenfd) (hfd : stream'.fd = stream.fd)
    (hstatus : stream'.status = .lastAck) (hrcvbuf : stream'.rcvbuf = []) {ret : ℤ}
    (hclear : s.fdTable.setFdFrombitmap stream.fd = .ok (ret, fdTable)) :
    Table listenfd epfd tokens { s.setStream p stream' with fdTable := fdTable } := by
  obtain ⟨hnonneg, hkeep⟩ := FdTable.taken_of_setFdFrombitmap hclear
  have hkept := h.kept _ hmem
  have hkept' : Kept listenfd epfd s.fdTable tokens stream' := by
    refine ⟨?_, Or.inl hrcvbuf, ?_, ?_, fun hlast => absurd hstatus hlast⟩
    · rw [hrcvbuf]
      exact List.forall_mem_nil _
    · rw [hfd]
      exact fun he => absurd he hne
    · rw [hfd]
      exact hkept.ne_epfd
  have hset : Table listenfd epfd tokens (s.setStream p stream') := by
    refine h.rewrite hmem hkept' hfd (fun _ => hstatus) ?_
    rintro ⟨he, -⟩
    cases hstatus.symm.trans he
  refine ⟨hset.formed.setFdTable fdTable, hset.lhost_eq, hset.listenfd_nonneg, hset.epfd_nonneg,
    hkeep _ ?_ h.epfd_taken, hset.listens, fun x hx => ?_, hset.unique, hset.waiting⟩
  · rw [Int.toNat_of_nonneg h.epfd_nonneg]
    exact hkept.ne_epfd.symm
  · have hx' := hset.kept x hx
    refine ⟨hx'.fits, hx'.told, hx'.listener, hx'.ne_epfd, fun hlast hxnonneg => ?_⟩
    refine hkeep _ (fun he => ?_) (hx'.taken hlast hxnonneg)
    rw [Int.toNat_of_nonneg hxnonneg] at he
    rcases Stack.mem_setStream.mp hx with ⟨hp, hold⟩ | ⟨-, -, rfl⟩
    · exact hp (h.unique x hold _ hmem hlast hopen hxnonneg he)
    · exact hlast hstatus

/-- No stream has the descriptor. -/
theorem NotLast.of_forall_ne (h : ∀ x ∈ s.tcbSet, x.2.fd ≠ fd) : NotLast s fd := fun x hx =>
  absurd (NodeList.holds_of_first hx).symm (h x (NodeList.mem_of_first hx))

/-- A stream is written to that was not closed. -/
theorem NotLast.setStream (h : NotLast s fd) (hformed : s.Formed) (hmem : (p, stream) ∈ s.tcbSet)
    (hfd : stream'.fd = stream.fd) (hlast : stream'.status ≠ .lastAck) :
    NotLast (s.setStream p stream') fd := by
  intro x hx
  have hupdate := NodeList.first_update (t := s.tcbSet) (p := p) (f := fun _ => stream')
    (P := fun stream => fd = stream.fd) (fun a ha => by
      obtain rfl := hformed.tcbSet_distinct.eq hmem ha
      rw [hfd])
  obtain ⟨y, hy, rfl⟩ := Option.map_eq_some_iff.mp (hupdate.symm.trans hx)
  by_cases hp : y.1 = p
  · rw [if_pos hp]
    exact hlast
  · rw [if_neg hp]
    exact h y hy

theorem NotLast.cons (h : NotLast s fd) {syn : TcpStream} (hlast : syn.status ≠ .lastAck) :
    NotLast { s with tcbSet := (s.next, syn) :: s.tcbSet, next := s.next + 1 } fd := by
  intro x hx
  unfold NodeList.first at hx
  rw [List.find?_cons] at hx
  split at hx
  · obtain rfl := Option.some.inj hx
    exact hlast
  · exact h x hx

/-- A stream is taken out that was closed. -/
theorem NotLast.remove (h : NotLast s fd) (hformed : s.Formed) (hmem : (p, stream) ∈ s.tcbSet)
    (hlast : stream.status = .lastAck) : NotLast { s with tcbSet := s.tcbSet.remove p } fd := by
  intro x hx
  cases hfirst : s.tcbSet.first (fun stream => fd = stream.fd) with
  | none =>
    have hnot := NodeList.first_eq_none.mp hfirst x
      (NodeList.mem_remove.mp (NodeList.mem_of_first hx)).1
    exact absurd (NodeList.holds_of_first hx) hnot
  | some y =>
    have hp : y.1 ≠ p := by
      rintro rfl
      obtain rfl := hformed.tcbSet_distinct.eq hmem (NodeList.mem_of_first hfirst)
      exact h y hfirst hlast
    obtain rfl := Option.some.inj (hx.symm.trans (NodeList.first_remove hfirst hp))
    exact h x hfirst

end Table

/-! ## The invariant -/

/-- **What holds where the server is.** What it is about to take out of the tree
or to close has no event to come, and is the stream it has read from. -/
def AtPc (listenfd : ℤ) (s : Stack) (ep : Eventpoll) : ServerPc → Prop
  | .add connfd _ => 0 ≤ connfd
  | .del connfd rest => connfd ≠ listenfd ∧ connfd ∉ rest ∧ NotLast s connfd
  | .close connfd rest =>
    connfd ≠ listenfd ∧ connfd ∉ rest ∧ NotLast s connfd ∧ ep.rbr.lookup connfd = none
  | _ => True

/-- **The invariant**: for each descriptor there are as many events to come, at
least, as there is to do. -/
structure Inv (srv : Server) (ep : Eventpoll) : Prop where
  ep_eq : ∃ q, srv.stack.ep = some (q, ep)
  ep_fd : ep.fd = srv.epfd
  tidy : ep.Tidy
  registered : ∀ fd, ep.rbr.lookup fd ≠ none → 0 ≤ fd
  table : Table srv.listenfd srv.epfd (srv.pc.pending ++ ep.ready) srv.stack
  nodup : srv.pc.pending.Nodup
  atPc : AtPc srv.listenfd srv.stack ep srv.pc

section Inv

variable {srv srv' : Server} {ep ep' : Eventpoll} {fd : ℤ} {s' : Stack} {p q : Ptr}
  {stream stream' : TcpStream}

theorem AtPc.mono {listenfd : ℤ} {s : Stack} {pc : ServerPc} (h : AtPc listenfd s ep pc)
    (hlast : ∀ fd, NotLast s fd → NotLast s' fd) (hrbr : ep'.rbr = ep.rbr) :
    AtPc listenfd s' ep' pc := by
  cases pc with
  | events rest => trivial
  | send connfd n rest => trivial
  | add connfd rest => exact h
  | del connfd rest => exact ⟨h.1, h.2.1, hlast _ h.2.2⟩
  | close connfd rest =>
    refine ⟨h.1, h.2.1, hlast _ h.2.2.1, ?_⟩
    rw [hrbr]
    exact h.2.2.2

/-- The invariant where the server is known to be. -/
theorem Inv.at_pc (h : Inv srv ep) {pc : ServerPc} (hpc : srv.pc = pc) :
    Table srv.listenfd srv.epfd (pc.pending ++ ep.ready) srv.stack ∧ pc.pending.Nodup
      ∧ AtPc srv.listenfd srv.stack ep pc := by
  subst hpc
  exact ⟨h.table, h.nodup, h.atPc⟩

/-- The server goes on, with the same events to come. -/
theorem Inv.goto (h : Inv srv ep) (pc : ServerPc) (hpending : pc.pending = srv.pc.pending)
    (hat : AtPc srv.listenfd srv.stack ep pc) : Inv { srv with pc := pc } ep := by
  refine ⟨h.ep_eq, h.ep_fd, h.tidy, h.registered, ?_, ?_, hat⟩
  · show Table _ _ (pc.pending ++ ep.ready) _
    rw [hpending]
    exact h.table
  · show pc.pending.Nodup
    rw [hpending]
    exact h.nodup

/-- **With nothing to come, nothing is left behind.** -/
theorem Inv.nothingLost (h : Inv srv ep) (hwaits : srv.Waits) : NothingLost srv := by
  obtain ⟨hpc, q, ep', hep', hrdnum⟩ := hwaits
  obtain ⟨q', hep⟩ := h.ep_eq
  obtain ⟨rfl, rfl⟩ := Prod.mk.inj (Option.some.inj (hep.symm.trans hep'))
  obtain ⟨htable, -⟩ := h.at_pc hpc
  rw [h.tidy.inStep.ready_eq_nil hrdnum] at htable
  have hempty : ∀ x ∈ srv.stack.tcbSet, x.2.rcvbuf = [] := by
    intro x hx
    refine (htable.kept x hx).told.elim id (fun ht => ?_)
    exact List.length_eq_zero_iff.mp (Nat.le_zero.mp ht.2.2.2)
  refine ⟨fun _ _ _ x hx _ => hempty x hx, fun x hx _ => hempty x hx, fun x hx => ?_⟩
  have hnone := List.countP_eq_zero.mp (Nat.le_zero.mp htable.waiting) x hx
  simpa using hnone

/-! ## Segments -/

/-- A descriptor that is registered and not ready. -/
theorem Inv.idle (h : Inv srv ep) (hidle : srv.Idle fd) : ep.Idle fd ∧ 0 ≤ fd := by
  obtain ⟨q, ep₀, hep₀, hidle⟩ := hidle
  obtain ⟨q', hep⟩ := h.ep_eq
  obtain ⟨rfl, rfl⟩ := Prod.mk.inj (Option.some.inj (hep.symm.trans hep₀))
  refine ⟨hidle, h.registered fd ?_⟩
  obtain ⟨epi, item, hlookup, -⟩ := hidle
  rw [hlookup]
  exact Option.some_ne_none epi

/-- **A stream is written to and epoll is told**, so that there is one more event
to come. -/
theorem Inv.tell (h : Inv srv ep) (hidle : srv.Idle fd) {ep₀ : Eventpoll} {ret : Option ℤ}
    (hep₀ : srv.stack.ep = some (q, ep₀))
    (hcallback : ep₀.epollEventCallback fd EPOLLIN = .ok (ret, ep'))
    (hmem : (p, stream) ∈ srv.stack.tcbSet) (hfd : stream'.fd = stream.fd)
    (hlast : stream'.status ≠ .lastAck)
    (htable : Table srv.listenfd srv.epfd (fd :: (srv.pc.pending ++ ep.ready))
      (srv.stack.setStream p stream')) :
    Inv { srv with stack := { srv.stack.setStream p stream' with ep := some (q, ep') } } ep' := by
  obtain ⟨hidle, hnonneg⟩ := h.idle hidle
  obtain ⟨q', hep⟩ := h.ep_eq
  obtain ⟨rfl, rfl⟩ := Prod.mk.inj (Option.some.inj (hep.symm.trans hep₀))
  obtain ⟨hfd', hrbr⟩ := Eventpoll.callback_frame hcallback
  obtain ⟨htidy, hready⟩ := h.tidy.callback hidle hcallback
  refine ⟨⟨q', rfl⟩, hfd'.trans h.ep_fd, htidy, ?_, ?_, h.nodup, ?_⟩
  · rw [hrbr]
    exact h.registered
  · refine (htable.mono (fun fd' => ?_)).setEp _
    rw [hready]
    exact (List.perm_middle.count_eq fd').ge
  · refine h.atPc.mono (fun fd' hnot => ?_) hrbr
    exact hnot.setStream h.table.formed hmem hfd hlast

/-- A stream that is open receives a fragment that is told of. -/
theorem Kept.receive {listenfd epfd : ℤ} {fdTable : FdTable} {tokens : List ℤ}
    (h : Kept listenfd epfd fdTable tokens stream) (hstatus : stream.status = .established)
    (hnonneg : 0 ≤ stream.fd) (hfd : stream'.fd = stream.fd) (hlast : stream'.status ≠ .lastAck)
    (hrcvbuf : stream'.rcvbuf = stream.rcvbuf ∨ ∃ f : TcpFragment,
      stream'.rcvbuf = stream.rcvbuf ++ [f] ∧ f.length ≤ BUFFER_SIZE) :
    Kept listenfd epfd fdTable (stream.fd :: tokens) stream' := by
  have hopen : stream.status ≠ .lastAck := by
    rw [hstatus]
    decide
  have hne : stream.fd ≠ listenfd := by
    intro he
    cases hstatus.symm.trans (h.listener he).1
  have hlength : stream.rcvbuf.length ≤ tokens.count stream.fd := by
    rcases h.told with hnil | ht
    · rw [hnil]
      exact Nat.zero_le _
    · exact ht.2.2.2
  refine ⟨?_, Or.inr ⟨hlast, ?_⟩, ?_, ?_, ?_⟩
  · intro f hf
    rcases hrcvbuf with hsame | ⟨f', happend, hfits⟩
    · rw [hsame] at hf
      exact h.fits f hf
    · rw [happend] at hf
      rcases List.mem_append.mp hf with hf | hf
      · exact h.fits f hf
      · obtain rfl := List.mem_singleton.mp hf
        exact hfits
  · rw [hfd]
    refine ⟨hnonneg, hne, ?_⟩
    rw [List.count_cons_self]
    rcases hrcvbuf with hsame | ⟨f', happend, -⟩
    · rw [hsame]
      exact hlength.trans (Nat.le_succ _)
    · rw [happend, List.length_append]
      exact Nat.succ_le_succ hlength
  · rw [hfd]
    exact fun he => absurd he hne
  · rw [hfd]
    exact h.ne_epfd
  · intro _ _
    rw [hfd]
    exact h.taken hopen hnonneg

/-- **A PSH or a FIN is received** and told on. -/
theorem Inv.receive (h : Inv srv ep) {stream₀ : TcpStream} {seg : TcpSegment} {tcplen : ℤ}
    {advance : UInt32} {malloc : ℕ → Bool} (hmem : (p, stream) ∈ srv.stack.tcbSet)
    (hstatus : stream.status = .established) (hidle : srv.Idle stream.fd)
    (hfd : stream₀.fd = stream.fd) (hlast : stream₀.status ≠ .lastAck)
    (hrcvbuf : stream₀.rcvbuf = stream.rcvbuf)
    (hfits : tcplen - seg.hdrlen * 4 ≤ BUFFER_SIZE)
    (hok : Stack.receive srv.stack p stream₀ seg tcplen advance malloc = .ok (stream', s')) :
    ∃ ep', Inv { srv with stack := s' } ep' := by
  obtain ⟨hreceived, q, ep₀, ret, ep', hep, hcallback, rfl⟩ := Stack.receive_eq_ok hok
  have hfd' : stream'.fd = stream.fd := hreceived.fd_eq.trans hfd
  have hlast' : stream'.status ≠ .lastAck := by
    rw [hreceived.status_eq]
    exact hlast
  have hnonneg := (h.idle hidle).2
  rw [hfd] at hcallback
  refine ⟨ep', h.tell hidle hep hcallback hmem hfd' hlast' ?_⟩
  refine (h.table.mono (fun fd => List.count_le_count_cons)).rewrite hmem ?_ hfd' ?_ ?_
  · refine (h.table.kept _ hmem).receive hstatus hnonneg hfd' hlast' ?_
    rw [← hrcvbuf]
    refine hreceived.rcvbuf.imp_right (fun ⟨f, happend, hlength⟩ => ⟨f, happend, ?_⟩)
    rw [hlength]
    exact Int.toNat_le.mpr hfits
  · intro hlast
    cases hstatus.symm.trans hlast
  · rintro ⟨-, hneg, -⟩
    rw [hfd'] at hneg
    omega

/-- **A handshake is completed** and told on. -/
theorem Inv.handshake (h : Inv srv ep) {listener : TcpStream}
    (hmem : (p, stream) ∈ srv.stack.tcbSet)
    (hstatus : stream.status = .synRcvd) (hlistener : listener.fd = srv.listenfd)
    (hidle : srv.Idle srv.listenfd)
    (hok : (srv.stack.setStream p { stream with status := .established }).callback listener.fd
      = .ok s') : ∃ ep', Inv { srv with stack := s' } ep' := by
  obtain ⟨q, ep₀, ret, ep', hep, hcallback, rfl⟩ := Stack.callback_eq_ok hok
  rw [hlistener] at hcallback
  have hlast : TcpStatus.established ≠ .lastAck := by decide
  have hopen : stream.status ≠ .lastAck := by
    rw [hstatus]
    decide
  refine ⟨ep', h.tell hidle hep hcallback hmem rfl hlast ?_⟩
  have htable : Table srv.listenfd srv.epfd (srv.listenfd :: (srv.pc.pending ++ ep.ready)) srv.stack :=
    h.table.mono (fun fd => List.count_le_count_cons)
  have hkept := htable.kept _ hmem
  refine htable.setStream hmem ⟨hkept.fits, ?_, ?_, hkept.ne_epfd, fun _ => hkept.taken hopen⟩ rfl ?_ ?_
  · exact hkept.told.imp_right (fun ht => ⟨hlast, ht.2⟩)
  · intro he
    cases hstatus.symm.trans (hkept.listener he).1
  · exact fun he => absurd he hopen
  · have hcount := htable.countP_setStream hmem { stream with status := .established }
    have hwaiting := h.table.waiting
    rw [List.count_cons_self]
    split at hcount
    · split at hcount
      · omega
      · omega
    · split at hcount
      · omega
      · omega

/-- **A segment that is told on.** -/
theorem Inv.segment (h : Inv srv ep) {seg : TcpSegment} (hsafe : srv.SegmentSafe seg)
    (hprocessed : Stack.Processed srv.stack seg s') : ∃ ep', Inv { srv with stack := s' } ep' := by
  cases hprocessed with
  | nothing => exact ⟨ep, h⟩
  | opened syn hfd hrcvbuf hstatus =>
    refine ⟨ep, h.ep_eq, h.ep_fd, h.tidy, h.registered, h.table.cons hfd hrcvbuf hstatus, h.nodup,
      h.atPc.mono (fun fd hnot => hnot.cons ?_) rfl⟩
    rcases hstatus with hstatus | hstatus
    · rw [hstatus]
      decide
    · rw [hstatus]
      decide
  | handshake hsearch hstatus hack hlistener hcallback =>
    obtain ⟨hfd, hidle⟩ := (hsafe _ _ hsearch).1 hstatus hack _ _ hlistener
    exact h.handshake (Stack.mem_of_search hsearch) hstatus hfd hidle hcallback
  | pushed hsearch hstatus hpsh hfin hreceive =>
    obtain ⟨-, hfits, hidle⟩ := (hsafe _ _ hsearch).2 hstatus (Or.inl hpsh)
    refine h.receive (Stack.mem_of_search hsearch) hstatus hidle rfl ?_ rfl (hfits hpsh) hreceive
    rw [hstatus]
    decide
  | finished hsearch hstatus hpsh hfin hreceive =>
    obtain ⟨-, -, hidle⟩ := (hsafe _ _ hsearch).2 hstatus (Or.inr hfin)
    refine h.receive (Stack.mem_of_search hsearch) hstatus hidle ?_ ?_ ?_ ?_ hreceive
    · rfl
    · show TcpStatus.closeWait ≠ .lastAck
      decide
    · rfl
    · omega
  | both hsearch hstatus hpsh hfin hreceive hreceive' =>
    exact absurd ⟨hpsh, hfin⟩ ((hsafe _ _ hsearch).2 hstatus (Or.inl hpsh)).1
  | removed hsearch hstatus =>
    have hmem := Stack.mem_of_search hsearch
    refine ⟨ep, h.ep_eq, h.ep_fd, h.tidy, h.registered, h.table.remove hmem ?_, h.nodup,
      h.atPc.mono (fun fd hnot => hnot.remove h.table.formed hmem hstatus) rfl⟩
    intro he
    cases hstatus.symm.trans ((h.table.kept _ hmem).listener he).1

/-! ## Calls of the server -/

variable {rest : List ℤ} {n ret : ℤ}

/-- **`nepoll_wait`** moves events on, and loses none. -/
theorem Inv.nepollWait (h : Inv srv ep) (hpc : srv.pc = .events []) {events : List EpollEvent}
    (hok : srv.stack.nepollWait srv.epfd 128 5 = .ok (n, events, s')) :
    0 ≤ n ∧ ∃ ep', Inv { srv with stack := s', pc := .events (events.map EpollEvent.fd) } ep' := by
  obtain ⟨q, hep⟩ := h.ep_eq
  unfold Stack.nepollWait at hok
  rw [h.table.getHostinfo_epfd hep h.ep_fd] at hok
  obtain ⟨⟨cnt, events', ep'⟩, hwait, hok⟩ := exists_of_bind_eq_ok hok
  obtain ⟨rfl, hpair⟩ := Prod.mk.inj (Except.ok.inj hok)
  obtain ⟨rfl, rfl⟩ := Prod.mk.inj hpair
  obtain ⟨htidy, hfd, hrbr, hnonneg, hready⟩ := h.tidy.wait (by decide) (by decide) hwait
  refine ⟨hnonneg, ep', ⟨q, rfl⟩, hfd.trans h.ep_fd, htidy, ?_, ?_, ?_, trivial⟩
  · rw [hrbr]
    exact h.registered
  · obtain ⟨htable, -⟩ := h.at_pc hpc
    show Table _ _ (events'.map EpollEvent.fd ++ ep'.ready) _
    rw [hready]
    exact htable.setEp _
  · have hnodup := h.tidy.inStep.ready_nodup
    rw [← hready] at hnodup
    exact (List.nodup_append.mp hnodup).1

/-- **`naccept`** takes a stream that was waiting. -/
theorem Inv.naccept (h : Inv srv ep) (hpc : srv.pc = .events (srv.listenfd :: rest))
    (hfree : srv.stack.HasFree)
    (hestablished : ∀ p apt, srv.stack.getAcceptTcb SERVER_PORT = some (p, apt) →
      apt.status = .established) {connfd : ℤ} {addr : Option SockaddrIn}
    (hok : srv.stack.naccept srv.listenfd = .ok (connfd, addr, s')) :
    Inv { srv with stack := s', pc := .add connfd rest } ep := by
  obtain ⟨q, listener, hlistener, hdport⟩ := h.table.getHostinfo_listenfd
  unfold Stack.naccept at hok
  rw [hlistener] at hok
  simp only [hdport] at hok
  cases happ : srv.stack.getAcceptTcb SERVER_PORT with
  | none =>
    rw [happ] at hok
    cases hok
  | some x =>
    obtain ⟨p, apt⟩ := x
    rw [happ] at hok
    obtain ⟨rfl, hpair⟩ := Prod.mk.inj (Except.ok.inj hok)
    obtain ⟨-, rfl⟩ := Prod.mk.inj hpair
    obtain ⟨hport, hneg⟩ := NodeList.holds_of_first happ
    have hwaits : Unaccepted apt := ⟨hestablished p apt happ, hneg, hport.symm⟩
    obtain ⟨htable, hnodup, -⟩ := h.at_pc hpc
    obtain ⟨n, -, -, hn, hfst, htaken⟩ | ⟨-, hfull⟩ := srv.stack.fdTable.getFdFrombitmap_cases
    · refine ⟨h.ep_eq, h.ep_fd, h.tidy, h.registered, ?_, (List.nodup_cons.mp hnodup).2, ?_⟩
      · have haccept := htable.accept (NodeList.mem_of_first happ) hwaits hn htaken
        rw [← hfst] at haccept
        exact haccept
      · exact hfst ▸ Int.natCast_nonneg n
    · obtain ⟨fd, hge, hlt, hnot⟩ := hfree
      exact absurd (hfull fd hge hlt) hnot

/-- **`nepoll_ctl`** registers a stream that was accepted. -/
theorem Inv.ctl_add (h : Inv srv ep) {connfd : ℤ} (hpc : srv.pc = .add connfd rest) {ok : Bool}
    (hok : srv.stack.nepollCtl srv.epfd .add connfd (some ⟨EPOLLIN, connfd⟩) ok = .ok (ret, s')) :
    ∃ ep', Inv { srv with stack := s', pc := .events rest } ep' := by
  obtain ⟨q, hep⟩ := h.ep_eq
  unfold Stack.nepollCtl at hok
  rw [h.table.getHostinfo_epfd hep h.ep_fd] at hok
  obtain ⟨⟨ret', ep'⟩, hctl, hok⟩ := exists_of_bind_eq_ok hok
  obtain ⟨-, rfl⟩ := Prod.mk.inj (Except.ok.inj hok)
  obtain ⟨htidy, hfd, hready, hlookup⟩ := h.tidy.add hctl
  obtain ⟨htable, hnodup, hnonneg⟩ := h.at_pc hpc
  refine ⟨ep', ⟨q, rfl⟩, hfd.trans h.ep_fd, htidy, ?_, ?_, hnodup, trivial⟩
  · intro fd hfd
    rcases hlookup fd hfd with rfl | hfd
    · exact hnonneg
    · exact h.registered fd hfd
  · rw [hready]
    exact htable.setEp _

/-- **`nepoll_ctl`** takes a descriptor out of the tree that is not ready. -/
theorem Inv.ctl_del (h : Inv srv ep) {connfd : ℤ} (hpc : srv.pc = .del connfd rest)
    (hsafe : ∀ q ep, srv.stack.ep = some (q, ep) →
      (Eventpoll.Call.ctl .del connfd none true).Safe ep)
    (hok : srv.stack.nepollCtl srv.epfd .del connfd none true = .ok (ret, s')) :
    ∃ ep', Inv { srv with stack := s', pc := .close connfd rest } ep' := by
  obtain ⟨q, hep⟩ := h.ep_eq
  unfold Stack.nepollCtl at hok
  rw [h.table.getHostinfo_epfd hep h.ep_fd] at hok
  obtain ⟨⟨ret', ep'⟩, hctl, hok⟩ := exists_of_bind_eq_ok hok
  obtain ⟨-, rfl⟩ := Prod.mk.inj (Except.ok.inj hok)
  obtain ⟨htidy, hfd, hready, hnone, hlookup⟩ := h.tidy.del (hsafe q ep hep) hctl
  obtain ⟨htable, hnodup, hne, hnot, hlast⟩ := h.at_pc hpc
  refine ⟨ep', ⟨q, rfl⟩, hfd.trans h.ep_fd, htidy, fun fd hfd => h.registered fd (hlookup fd hfd),
    ?_, hnodup, hne, hnot, hlast, hnone⟩
  rw [hready]
  exact htable.setEp _

/-- **`nsend`** does not touch what is to be read. -/
theorem Inv.nsend (h : Inv srv ep) {connfd : ℤ} {len : ℕ} (hpc : srv.pc = .send connfd len rest)
    {malloc : ℕ → Bool} (hok : srv.stack.nsend connfd srv.buff len malloc = .ok (ret, s')) :
    Inv { srv with stack := s', pc := .events rest } ep := by
  obtain ⟨htable, hnodup, -⟩ := h.at_pc hpc
  have hsame := h.goto (.events rest) (by rw [hpc]; rfl) trivial
  unfold Stack.nsend at hok
  split at hok
  · obtain ⟨-, rfl⟩ := Prod.mk.inj (Except.ok.inj hok)
    exact hsame
  · obtain ⟨-, rfl⟩ := Prod.mk.inj (Except.ok.inj hok)
    exact hsame
  · next p stream hhost =>
    split at hok
    · obtain ⟨-, rfl⟩ := Prod.mk.inj (Except.ok.inj hok)
      exact hsame
    split at hok
    · obtain ⟨-, rfl⟩ := Prod.mk.inj (Except.ok.inj hok)
      exact hsame
    split at hok
    · cases hok
    obtain ⟨-, rfl⟩ := Prod.mk.inj (Except.ok.inj hok)
    obtain ⟨hmem, -⟩ := Stack.holds_of_getHostinfo hhost
    have hkept := htable.kept _ hmem
    refine ⟨h.ep_eq, h.ep_fd, h.tidy, h.registered, htable.rewrite hmem ?_ ?_ ?_ ?_, hnodup, trivial⟩
    · exact ⟨hkept.fits, hkept.told, hkept.listener, hkept.ne_epfd, hkept.taken⟩
    · rfl
    · exact id
    · exact id
  · split at hok
    · cases hok
    · obtain ⟨-, rfl⟩ := Prod.mk.inj (Except.ok.inj hok)
      exact hsame

/-- **`nrecv`** takes a fragment off, or there is no stream to read from. -/
theorem Inv.nrecv (h : Inv srv ep) (buff : List UInt8) (hpc : srv.pc = .events (fd :: rest))
    (hne : fd ≠ srv.listenfd) {copied : List UInt8}
    (hok : srv.stack.nrecv fd BUFFER_SIZE = .ok (n, copied, s')) :
    Inv { srv with stack := s', buff := buff, pc := .del fd rest } ep := by
  obtain ⟨htable, hnodup, -⟩ := h.at_pc hpc
  obtain ⟨hnot, hrest⟩ := List.nodup_cons.mp hnodup
  -- nobody has the descriptor, and the event is for nobody
  have hnobody : (∀ x ∈ srv.stack.tcbSet, x.2.fd ≠ fd) →
      Inv { srv with buff := buff, pc := .del fd rest } ep := fun hforall =>
    ⟨h.ep_eq, h.ep_fd, h.tidy, h.registered,
      htable.spend hne (fun x hx he => absurd he (hforall x hx)), hrest, hne, hnot,
      NotLast.of_forall_ne hforall⟩
  unfold Stack.nrecv at hok
  cases hhost : srv.stack.getHostinfoFromfd fd with
  | none =>
    rw [hhost] at hok
    cases hok
    refine hnobody (fun x hx he => ?_)
    exact Stack.getHostinfo_ne_none (.tcp x.1 x.2) ⟨hx, he⟩ hhost
  | some host =>
    have hholds := Stack.holds_of_getHostinfo hhost
    rw [hhost] at hok
    cases host with
    | udp p host =>
      have hmem := hholds.1
      rw [htable.lhost_eq] at hmem
      exact absurd hmem List.not_mem_nil
    | epoll q ep₀ =>
      simp only at hok
      split at hok
      · cases hok
      · cases hok
        refine hnobody (fun x hx he => (htable.kept x hx).ne_epfd ?_)
        obtain ⟨q', hep⟩ := h.ep_eq
        obtain ⟨-, rfl⟩ := Prod.mk.inj (Option.some.inj (hep.symm.trans hholds.1))
        rw [he, ← hholds.2, h.ep_fd]
    | tcp p stream =>
      obtain ⟨hmem, rfl⟩ := hholds
      obtain ⟨⟨n', copied', stream'⟩, hrecv, hok⟩ := exists_of_bind_eq_ok hok
      cases hok
      obtain ⟨f, rcvbuf, hrcvbuf, rfl⟩ := TcpStream.nrecv_fits (htable.kept _ hmem).fits hrecv
      obtain ⟨hlast, hread⟩ := htable.nrecv hmem hrcvbuf
      have hnotLast : NotLast srv.stack stream.fd := by
        intro x hx
        obtain rfl := Option.some.inj ((first_of_getHostinfo hhost).symm.trans hx)
        exact hlast
      refine ⟨h.ep_eq, h.ep_fd, h.tidy, h.registered, hread, hrest, hne, hnot, ?_⟩
      exact hnotLast.setStream htable.formed hmem rfl hlast

/-- **`nclose`** closes a stream that has nothing to read. -/
theorem Inv.nclose (h : Inv srv ep) {connfd : ℤ} (hpc : srv.pc = .close connfd rest) {ok : Bool}
    {garbage : TcpFragment} (hok : srv.stack.nclose connfd ok garbage = .ok (ret, s')) :
    Inv { srv with stack := s', pc := .events rest } ep := by
  obtain ⟨htable, hnodup, hne, hnot, hnotLast, hlookup⟩ := h.at_pc hpc
  have hsame := h.goto (.events rest) (by rw [hpc]; rfl) trivial
  unfold Stack.nclose at hok
  cases hhost : srv.stack.getHostinfoFromfd connfd with
  | none =>
    rw [hhost] at hok
    cases hok
    exact hsame
  | some host =>
    have hholds := Stack.holds_of_getHostinfo hhost
    rw [hhost] at hok
    cases host with
    | udp p host =>
      have hmem := hholds.1
      rw [htable.lhost_eq] at hmem
      exact absurd hmem List.not_mem_nil
    | epoll q ep₀ =>
      simp only at hok
      split at hok
      · cases hok
      · cases hok
        exact hsame
    | tcp p stream =>
      obtain ⟨hmem, rfl⟩ := hholds
      simp only at hok
      split at hok
      · split at hok
        · cases hok
          exact hsame
        · obtain ⟨⟨ret', fdTable⟩, hclear, hok⟩ := exists_of_bind_eq_ok hok
          cases hok
          have hopen := hnotLast _ (first_of_getHostinfo hhost)
          have hrcvbuf : stream.rcvbuf = [] := by
            refine (htable.kept _ hmem).told.elim id (fun ht => ?_)
            have hready : stream.fd ∉ ep.ready := fun hr =>
              h.tidy.inStep.lookup_of_mem_ready hr hlookup
            have hzero : (rest ++ ep.ready).count stream.fd = 0 :=
              List.count_eq_zero.mpr (fun hmem => (List.mem_append.mp hmem).elim hnot hready)
            exact List.length_eq_zero_iff.mp (Nat.le_zero.mp (hzero ▸ ht.2.2.2))
          refine ⟨h.ep_eq, h.ep_fd, h.tidy, h.registered, ?_, hnodup, trivial⟩
          exact htable.close hmem hopen hne rfl rfl hrcvbuf hclear
      · cases hok
        exact ⟨h.ep_eq, h.ep_fd, h.tidy, h.registered, htable.remove hmem hne, hnodup, trivial⟩

/-- **A call of the server** that loses nothing. -/
theorem Inv.serve (h : Inv srv ep) {malloc : ℕ → Bool} {garbage : TcpFragment}
    {out : List (ℤ × List UInt8)} (hsafe : (Input.serve malloc garbage).Safe srv)
    (hok : srv.serve malloc garbage = .ok (out, srv')) : ∃ ep', Inv srv' ep' := by
  unfold Server.serve at hok
  simp only [Input.Safe] at hsafe
  cases hpc : srv.pc with
  | events events =>
    rw [hpc] at hok hsafe
    cases events with
    | nil =>
      obtain ⟨⟨n, events, s'⟩, hwait, hok⟩ := exists_of_bind_eq_ok hok
      obtain ⟨hnonneg, ep', h'⟩ := h.nepollWait hpc hwait
      simp only [if_neg hnonneg.not_gt] at hok
      obtain ⟨-, rfl⟩ := Prod.mk.inj (Except.ok.inj hok)
      exact ⟨ep', h'⟩
    | cons fd rest =>
      by_cases hfd : srv.listenfd = fd
      · subst hfd
        simp only [if_true] at hok
        obtain ⟨⟨connfd, addr, s'⟩, haccept, hok⟩ := exists_of_bind_eq_ok hok
        obtain ⟨-, rfl⟩ := Prod.mk.inj (Except.ok.inj hok)
        obtain ⟨hfree, hestablished⟩ := hsafe rfl
        exact ⟨ep, h.naccept hpc hfree hestablished haccept⟩
      · simp only [if_neg hfd] at hok
        obtain ⟨⟨n, copied, s'⟩, hrecv, hok⟩ := exists_of_bind_eq_ok hok
        have hdel := h.nrecv (copied ++ srv.buff.drop copied.length) hpc (Ne.symm hfd) hrecv
        simp only at hok
        split at hok
        · obtain ⟨-, rfl⟩ := Prod.mk.inj (Except.ok.inj hok)
          exact ⟨ep, hdel.goto (.send fd n.toNat rest) rfl trivial⟩
        · obtain ⟨-, rfl⟩ := Prod.mk.inj (Except.ok.inj hok)
          exact ⟨ep, hdel⟩
  | add connfd rest =>
    rw [hpc] at hok
    obtain ⟨⟨ret, s'⟩, hctl, hok⟩ := exists_of_bind_eq_ok hok
    obtain ⟨-, rfl⟩ := Prod.mk.inj (Except.ok.inj hok)
    exact h.ctl_add hpc hctl
  | send connfd n rest =>
    rw [hpc] at hok
    obtain ⟨⟨ret, s'⟩, hsend, hok⟩ := exists_of_bind_eq_ok hok
    obtain ⟨-, rfl⟩ := Prod.mk.inj (Except.ok.inj hok)
    exact ⟨ep, h.nsend hpc hsend⟩
  | del connfd rest =>
    rw [hpc] at hok hsafe
    obtain ⟨⟨ret, s'⟩, hctl, hok⟩ := exists_of_bind_eq_ok hok
    obtain ⟨-, rfl⟩ := Prod.mk.inj (Except.ok.inj hok)
    exact h.ctl_del hpc hsafe hctl
  | close connfd rest =>
    rw [hpc] at hok
    obtain ⟨⟨ret, s'⟩, hclose, hok⟩ := exists_of_bind_eq_ok hok
    obtain ⟨-, rfl⟩ := Prod.mk.inj (Except.ok.inj hok)
    exact ⟨ep, h.nclose hpc hclose⟩

/-- **A step that loses nothing** keeps the invariant. -/
theorem Inv.step (h : Inv srv ep) {input : Input} {out : List (ℤ × List UInt8)}
    (hsafe : input.Safe srv) (hok : Server.step srv input = .ok (out, srv')) :
    ∃ ep', Inv srv' ep' := by
  cases input with
  | serve malloc garbage => exact h.serve hsafe hok
  | segment seg env =>
    obtain ⟨⟨ret, s'⟩, hprocess, hok⟩ := exists_of_bind_eq_ok hok
    obtain ⟨-, rfl⟩ := Prod.mk.inj (Except.ok.inj hok)
    by_cases hcksum : seg.cksumOk = true
    · exact h.segment (hsafe hcksum) (Stack.ngTcpProcess_processed hprocess)
    · unfold Stack.ngTcpProcess at hprocess
      rw [if_pos hcksum] at hprocess
      obtain ⟨-, rfl⟩ := Prod.mk.inj (Except.ok.inj hprocess)
      exact ⟨ep, h⟩

end Inv

/-! ## Runs -/

/-- **The server as it enters its loop.** -/
def started : Server :=
  { stack :=
      { fdTable := FdTable.zero.getFdFrombitmap.2.getFdFrombitmap.2
        lhost := []
        tcbSet := [(1, { Stack.newStream 3 with dport := SERVER_PORT, status := .listen })]
        ep := some (2,
          { Eventpoll.create 4 with
            items := Heap.empty.alloc ⟨0, 3, ⟨EPOLLIN, 3⟩⟩
            rbr := (∅ : AList (fun _ : ℤ => Ptr)).insert 3 (Heap.empty : Heap Epitem).next
            rbcnt := 1 })
        next := 3 }
    listenfd := 3
    epfd := 4
    buff := List.replicate BUFFER_SIZE 0
    pc := .events [] }

set_option maxRecDepth 8000 in
theorem start_init : start Stack.init = .ok (some started) := rfl

set_option maxRecDepth 8000 in
/-- The two descriptors given out so far. -/
theorem started_taken (m : ℕ) : started.stack.fdTable.Taken m ↔ m = 4 ∨ m = 3 := by
  obtain ⟨n, -, -, -, hfst, htaken⟩ | ⟨hnone, -⟩ := FdTable.zero.getFdFrombitmap_cases
  · obtain ⟨n', -, -, -, hfst', htaken'⟩ | ⟨hnone, -⟩ :=
      FdTable.zero.getFdFrombitmap.2.getFdFrombitmap_cases
    · have hn : (3 : ℤ) = n := hfst
      have hn' : (4 : ℤ) = n' := hfst'
      show FdTable.Taken FdTable.zero.getFdFrombitmap.2.getFdFrombitmap.2 m ↔ _
      rw [htaken', htaken, or_iff_left FdTable.not_taken_zero]
      omega
    · have hneg : (4 : ℤ) = -1 := congrArg Prod.fst hnone
      exact absurd hneg (by decide)
  · have hneg : (3 : ℤ) = -1 := congrArg Prod.fst hnone
    exact absurd hneg (by decide)

/-- **The invariant holds to begin with.** -/
theorem started_inv : ∃ ep, Inv started ep := by
  refine ⟨_, ⟨2, rfl⟩, rfl, ?_, ?_, ?_, List.nodup_nil, trivial⟩
  · have hadd : (Eventpoll.create 4).nepollCtl .add 3 (some ⟨EPOLLIN, 3⟩) true = .ok (0, _) := rfl
    exact ((Eventpoll.create_tidy 4).add hadd).1
  · intro fd hfd
    by_cases hthree : fd = 3
    · subst hthree
      decide
    · refine absurd ?_ hfd
      show ((∅ : AList (fun _ : ℤ => Ptr)).insert 3 _).lookup fd = none
      rw [AList.lookup_insert_ne hthree, AList.lookup_empty]
  · refine ⟨⟨List.nodup_nil, List.nodup_singleton _, List.forall_mem_nil _, ?_⟩, rfl, by decide,
      by decide, (started_taken 4).mpr (Or.inl rfl), ⟨_, List.mem_singleton_self _, rfl⟩, ?_, ?_,
      Nat.zero_le _⟩
    · exact List.forall_mem_singleton.mpr (by decide)
    · refine List.forall_mem_singleton.mpr ⟨List.forall_mem_nil _, Or.inl rfl, fun _ => ⟨rfl, rfl⟩,
        by decide, fun _ _ => (started_taken 3).mpr (Or.inr rfl)⟩
    · intro x hx y hy _ _ _ _
      rw [List.mem_singleton.mp hx, List.mem_singleton.mp hy]

/-- **Nothing is lost** in a run whose steps all meet the condition: whenever the
server is about to wait with nothing ready, no stream that is registered or
accepted has something to read, and no established stream waits to be
accepted. -/
theorem nothing_lost {srv srv' : Server} {log : List (ℤ × List UInt8)}
    (hstart : start Stack.init = .ok (some srv)) (h : machine.Reach Input.Safe srv log srv')
    (hwaits : srv'.Waits) : NothingLost srv' := by
  obtain rfl := Option.some.inj (Except.ok.inj (start_init.symm.trans hstart))
  have hinv : ∃ ep, Inv srv' ep := by
    refine Machine.Reach.invariant (I := fun _ srv => ∃ ep, Inv srv ep) started_inv ?_ h
    rintro log srv input out srv' ⟨ep, hinv⟩ hsafe hstep
    exact hinv.step hsafe (eq_ok_of_toOption hstep)
  obtain ⟨ep, hinv⟩ := hinv
  exact hinv.nothingLost hwaits

/-- A segment without payload from a client. -/
def segmentFrom (srcAddr : UInt32) (tcpFlags : UInt8) : TcpSegment :=
  { srcAddr := srcAddr
    dstAddr := 1
    totalLength := 40
    srcPort := ntohs 8000
    dstPort := SERVER_PORT
    sentSeq := 0
    recvAck := 0
    dataOff := 0x50
    tcpFlags := tcpFlags
    mem := List.replicate 20 0
    cksumOk := true }

set_option maxRecDepth 8000 in
/-- A client connects while the server waits for it; the server accepts it and
waits again. -/
theorem nothing_lost_accept :
    ∃ log srv, machine.Reach Input.Safe started log srv ∧ srv.Waits ∧ NothingLost srv
      ∧ ∃ x ∈ srv.stack.tcbSet, x.2.status = .established ∧ x.2.fd = 5 := by
  have hsyn : (Input.segment (segmentFrom 2 RTE_TCP_SYN_FLAG) ⟨fun _ => true, 0, 0⟩).Safe started := by
    intro _ p stream hsearch
    obtain ⟨rfl, rfl⟩ := Prod.mk.inj (Option.some.inj hsearch)
    exact ⟨fun hstatus => (nomatch hstatus), fun hstatus => (nomatch hstatus)⟩
  have hopened := (Machine.Reach.refl (M := machine)).step hsyn rfl
  have hconnected := hopened.step
    (i := .segment (segmentFrom 2 RTE_TCP_ACK_FLAG) ⟨fun _ => true, 0, 0⟩) (by
      intro _ p stream hsearch
      obtain ⟨rfl, rfl⟩ := Prod.mk.inj (Option.some.inj hsearch)
      refine ⟨fun _ _ q listener hlistener => ?_, fun hstatus => (nomatch hstatus)⟩
      obtain ⟨rfl, rfl⟩ := Prod.mk.inj (Option.some.inj hlistener)
      exact ⟨rfl, 2, _, rfl, _, _, rfl, rfl, rfl⟩) rfl
  have hwoken := hconnected.step (i := .serve (fun _ => true) TcpFragment.zero)
    (by simp only [Input.Safe, started]) rfl
  have haccepted := hwoken.step (i := .serve (fun _ => true) TcpFragment.zero) (by
      intro _
      refine ⟨⟨5, by decide, by decide, fun htaken => ?_⟩, fun p apt happ => ?_⟩
      · exact absurd ((started_taken 5).mp htaken) (by decide)
      · obtain ⟨rfl, rfl⟩ := Prod.mk.inj (Option.some.inj happ)
        rfl) rfl
  have hadded := haccepted.step (i := .serve (fun _ => true) TcpFragment.zero)
    (by simp only [Input.Safe]) rfl
  refine ⟨_, _, hadded, ⟨rfl, 2, _, rfl, rfl⟩, ?_, _, List.mem_cons_self, rfl, rfl⟩
  exact nothing_lost start_init hadded ⟨rfl, 2, _, rfl, rfl⟩

set_option maxRecDepth 8000 in
/-- Two clients connect before the server looks; it accepts one of them and waits
with nothing ready, while the other is not accepted. -/
theorem not_nothing_lost :
    ¬ ∀ (srv srv' : Server) (log : List (ℤ × List UInt8)), start Stack.init = .ok (some srv) →
      machine.Reach (fun _ _ => True) srv log srv' → srv'.Waits →
      ∀ x ∈ srv'.stack.tcbSet, ¬ Unaccepted x.2 := by
  intro h
  have hopened := (Machine.Reach.refl (M := machine) (P := fun _ _ => True) (s := started)).step
    (i := .segment (segmentFrom 2 RTE_TCP_SYN_FLAG) ⟨fun _ => true, 0, 0⟩) trivial rfl
  have hconnected := hopened.step
    (i := .segment (segmentFrom 2 RTE_TCP_ACK_FLAG) ⟨fun _ => true, 0, 0⟩) trivial rfl
  have hopened' := hconnected.step
    (i := .segment (segmentFrom 3 RTE_TCP_SYN_FLAG) ⟨fun _ => true, 0, 0⟩) trivial rfl
  have hconnected' := hopened'.step
    (i := .segment (segmentFrom 3 RTE_TCP_ACK_FLAG) ⟨fun _ => true, 0, 0⟩) trivial rfl
  have hwoken := hconnected'.step (i := .serve (fun _ => true) TcpFragment.zero) trivial rfl
  have haccepted := hwoken.step (i := .serve (fun _ => true) TcpFragment.zero) trivial rfl
  have hadded := haccepted.step (i := .serve (fun _ => true) TcpFragment.zero) trivial rfl
  exact h _ _ _ start_init hadded ⟨rfl, 2, _, rfl, rfl⟩ _
    (List.mem_cons_of_mem _ List.mem_cons_self) ⟨rfl, rfl, rfl⟩

end Server

end Ustack
