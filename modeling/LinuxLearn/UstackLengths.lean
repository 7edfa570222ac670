import LinuxLearn.UstackBurst
import LinuxLearn.UstackFailure

/-!
# Lengths in headers

A packet says three times how long it is: the IP header has the length of all
of it, the UDP header that of the datagram, and the TCP header where the
payload starts. None of them is compared with the length of the frame.

Two of them are at least looked at. `ng_tcp_enqueue_recvbuffer` copies
something only where the payload comes out positive; but
`ng_tcp_handle_established` subtracts once more, and moves `rcv_nxt` by what
comes out, also backwards. `udp_process` subtracts the length of the header
from that of the datagram without a look, and a size cannot be negative.

So lengths are right where they are right in the packet, and the payload finds
a place (`lengths_checked_iff`).
-/

namespace Ustack

/-! ## Telling epoll -/

/-- A pointer that cannot be followed is dangling. -/
theorem eq_dangling_of_deref {α : Type} {o : Option α} {e : Stop} (h : deref o = .error e) :
    e = .dangling := by
  cases o with
  | none => exact (Except.error.inj h).symm
  | some a => cases h

namespace Eventpoll

variable {ep ep' : Eventpoll} {sockid : ℤ} {event : UInt32} {e : Stop}

theorem eq_dangling_of_touchFirst {items : Heap Epitem} {rdlist : List Ptr}
    (h : touchFirst items rdlist = .error e) : e = .dangling := by
  cases rdlist with
  | nil => cases h
  | cons epi rest =>
    have h' : (deref (items.load epi)).map (fun _ => ()) = .error e := h
    cases hload : deref (items.load epi) with
    | ok item =>
      rw [hload] at h'
      cases h'
    | error e' =>
      rw [hload] at h'
      cases h'
      exact eq_dangling_of_deref hload

/-- **What can go wrong in a callback** is that an item was freed. -/
theorem eq_dangling_of_callback (h : epollEventCallback ep sockid event = .error e) :
    e = .dangling := by
  unfold epollEventCallback at h
  split at h
  · cases h
  · obtain h | ⟨item, -, h⟩ := of_bind_eq_error h
    · exact eq_dangling_of_deref h
    split at h
    · cases h
    · obtain h | ⟨rdlist, -, h⟩ := of_bind_eq_error h
      · obtain h | ⟨-, -, h⟩ := of_bind_eq_error h
        · exact eq_dangling_of_touchFirst h
        · cases h
      · cases h

/-- **A callback that returned returns again**: its item is ready then. -/
theorem callback_again {ret : Option ℤ} (h : epollEventCallback ep sockid event = .ok (ret, ep')) :
    ∃ r, epollEventCallback ep' sockid event = .ok r := by
  unfold epollEventCallback at h
  split at h
  · next hlookup =>
    cases h
    unfold epollEventCallback
    rw [hlookup]
    exact ⟨_, rfl⟩
  · next epi hlookup =>
    obtain ⟨item, hitem, h⟩ := exists_of_bind_eq_ok h
    have hload : ep.items.load epi = some item := by
      cases hload : ep.items.load epi with
      | none =>
        rw [hload] at hitem
        cases hitem
      | some item' =>
        rw [hload] at hitem
        cases hitem
        rfl
    have hready : ∀ f : Epitem → Epitem, (f item).rdy ≠ 0 → ∀ rdlist rdnum, ∃ r,
        epollEventCallback
          { ep with items := ep.items.update epi f, rdlist := rdlist, rdnum := rdnum } sockid event
          = .ok r := by
      intro f hrdy rdlist rdnum
      have hload' : (ep.items.update epi f).load epi = some (f item) := by
        rw [Heap.load_update, if_pos rfl, hload]
        rfl
      unfold epollEventCallback
      simp only [hlookup, hload']
      exact ⟨_, bind_ok rfl (if_pos hrdy)⟩
    split at h
    · next hrdy =>
      cases h
      exact hready _ hrdy _ _
    · obtain ⟨rdlist, -, h⟩ := exists_of_bind_eq_ok h
      cases h
      exact hready _ one_ne_zero _ _

end Eventpoll

namespace Stack

variable {s s' : Stack} {fd : ℤ}

/-- **Epoll can be told** of a descriptor: it is there, and its items are. -/
def Tells (s : Stack) (fd : ℤ) : Prop := ∃ s', s.callback fd = .ok s'

/-- That depends on the epoll object only. -/
theorem tells_congr (hep : s'.ep = s.ep) : s'.Tells fd ↔ s.Tells fd := by
  have himp : ∀ {s s' : Stack}, s'.ep = s.ep → s.Tells fd → s'.Tells fd := by
    rintro s s' hep ⟨s₁, hcallback⟩
    obtain ⟨q, ep, ret, ep', hsome, hret, -⟩ := callback_eq_ok hcallback
    refine ⟨{ s' with ep := some (q, ep') }, ?_⟩
    unfold callback
    rw [hep, hsome]
    exact bind_ok hret rfl
  exact ⟨himp hep.symm, himp hep⟩

theorem tells_setStream {p : Ptr} {y : TcpStream} : (s.setStream p y).Tells fd ↔ s.Tells fd :=
  tells_congr rfl

/-- Epoll can be told again. -/
theorem Tells.again (h : s.callback fd = .ok s') : s'.Tells fd := by
  obtain ⟨q, ep, ret, ep', -, hret, rfl⟩ := callback_eq_ok h
  obtain ⟨r, hr⟩ := Eventpoll.callback_again hret
  exact ⟨_, bind_ok hr rfl⟩

/-- Telling it reads nothing past an end. -/
theorem callback_ne_overread : s.callback fd ≠ .error .overread := by
  intro h
  unfold callback at h
  split at h
  · cases h
  · obtain h | ⟨r, -, h⟩ := of_bind_eq_error h
    · cases Eventpoll.eq_dangling_of_callback h
    · cases h

/-! ## Segments -/

section Established

variable {p : Ptr} {x : TcpStream} {seg : TcpSegment} {malloc : ℕ → Bool}

/-- **Receiving returns** exactly where queueing does and epoll can be told. -/
theorem receive_returns_iff {tcplen : ℤ} {advance : UInt32} :
    (∃ r, receive s p x seg tcplen advance malloc = .ok r) ↔
      (∃ r, ngTcpEnqueueRecvbuffer x seg tcplen malloc = .ok r) ∧ s.Tells x.fd := by
  unfold receive
  constructor
  · rintro ⟨r, hok⟩
    obtain ⟨⟨ret, y⟩, henqueue, hok⟩ := exists_of_bind_eq_ok hok
    obtain ⟨s₁, hcallback, -⟩ := exists_of_bind_eq_ok hok
    obtain ⟨rcvbuf, rfl, -⟩ := enqueueRecvbuffer_eq_ok henqueue
    have htells : (s.setStream p { x with rcvbuf := rcvbuf }).Tells x.fd := ⟨s₁, hcallback⟩
    exact ⟨⟨_, henqueue⟩, tells_setStream.mp htells⟩
  · rintro ⟨⟨⟨ret, y⟩, henqueue⟩, htells⟩
    obtain ⟨rcvbuf, rfl, -⟩ := enqueueRecvbuffer_eq_ok henqueue
    have htells' : (s.setStream p { x with rcvbuf := rcvbuf }).Tells x.fd :=
      tells_setStream.mpr htells
    obtain ⟨s₁, hcallback⟩ := htells'
    exact ⟨_, bind_ok henqueue (bind_ok hcallback rfl)⟩

/-- Where receiving returns, epoll can be told again. -/
theorem receive_tells {tcplen : ℤ} {advance : UInt32} {y : TcpStream}
    (hok : receive s p x seg tcplen advance malloc = .ok (y, s')) :
    y.fd = x.fd ∧ s'.Tells x.fd := by
  obtain ⟨hreceived, -⟩ := receive_eq_ok hok
  refine ⟨hreceived.fd_eq, ?_⟩
  unfold receive at hok
  obtain ⟨⟨ret, y₁⟩, henqueue, hok⟩ := exists_of_bind_eq_ok hok
  obtain ⟨s₁, hcallback, hok⟩ := exists_of_bind_eq_ok hok
  obtain ⟨rcvbuf, rfl, -⟩ := enqueueRecvbuffer_eq_ok henqueue
  obtain ⟨-, hs'⟩ := Prod.mk.inj (Except.ok.inj hok)
  rw [← hs']
  exact tells_setStream.mpr (Tells.again hcallback)

/-- **What is past the end** when receiving is the payload. -/
theorem receive_overread_iff {tcplen : ℤ} {advance : UInt32} :
    receive s p x seg tcplen advance malloc = .error .overread ↔
      ¬ ∃ r, ngTcpEnqueueRecvbuffer x seg tcplen malloc = .ok r := by
  unfold receive
  constructor
  · rintro h ⟨r, henqueue⟩
    obtain h | ⟨r, -, h⟩ := of_bind_eq_error h
    · cases henqueue.symm.trans h
    · obtain h | ⟨s₁, -, h⟩ := of_bind_eq_error h
      · exact callback_ne_overread h
      · cases h
  · intro h
    rw [enqueue_overread h]
    rfl

/-- A FIN brings nothing to copy. -/
theorem enqueue_fin_returns (x : TcpStream) (seg : TcpSegment) (malloc : ℕ → Bool) :
    ∃ r, ngTcpEnqueueRecvbuffer x seg seg.hdrlen malloc = .ok r :=
  enqueue_returns_iff.mpr (fun hpos => absurd hpos (by omega))

/-- **The handler returns** exactly where a payload it copies is in memory and epoll can be
told. -/
theorem handleEstablished_returns_iff :
    (∃ r, ngTcpHandleEstablished s p x seg seg.tcplen malloc = .ok r) ↔
      (seg.Has RTE_TCP_PSH_FLAG → ∃ r, ngTcpEnqueueRecvbuffer x seg seg.tcplen malloc = .ok r)
      ∧ (seg.Moves → s.Tells x.fd) := by
  unfold ngTcpHandleEstablished
  constructor
  · rintro ⟨r, hok⟩
    obtain ⟨⟨x₁, s₁⟩, hpush, hok⟩ := exists_of_bind_eq_ok hok
    obtain ⟨⟨x₂, s₂⟩, hfinish, -⟩ := exists_of_bind_eq_ok hok
    by_cases hpsh : seg.Has RTE_TCP_PSH_FLAG
    · rw [if_pos hpsh] at hpush
      obtain ⟨hreturns, htells⟩ := receive_returns_iff.mp ⟨_, hpush⟩
      exact ⟨fun _ => hreturns, fun _ => htells⟩
    · refine ⟨fun h => absurd h hpsh, fun hmoves => ?_⟩
      have hfin := hmoves.resolve_left hpsh
      rw [if_neg hpsh] at hpush
      cases hpush
      rw [if_pos hfin] at hfinish
      exact (receive_returns_iff.mp ⟨_, hfinish⟩).2
  · rintro ⟨henqueue, htells⟩
    have hpush : ∃ x₁ s₁, (if seg.Has RTE_TCP_PSH_FLAG then
          receive s p x seg seg.tcplen (UInt32.ofInt (seg.tcplen - seg.hdrlen * 4)) malloc
        else .ok (x, s)) = .ok (x₁, s₁) ∧ x₁.fd = x.fd ∧ (seg.Moves → s₁.Tells x.fd) := by
      by_cases hpsh : seg.Has RTE_TCP_PSH_FLAG
      · rw [if_pos hpsh]
        obtain ⟨⟨x₁, s₁⟩, hreceive⟩ := receive_returns_iff.mpr ⟨henqueue hpsh, htells (Or.inl hpsh)⟩
        exact ⟨x₁, s₁, hreceive, (receive_tells hreceive).1, fun _ => (receive_tells hreceive).2⟩
      · exact ⟨x, s, if_neg hpsh, rfl, htells⟩
    obtain ⟨x₁, s₁, hpush, hfd, htells₁⟩ := hpush
    by_cases hfin : seg.Has RTE_TCP_FIN_FLAG
    · obtain ⟨r, hfinish⟩ := receive_returns_iff.mpr
        ⟨enqueue_fin_returns { x₁ with status := .closeWait } seg (fun i => malloc (i + 3)),
          show s₁.Tells x₁.fd from hfd ▸ htells₁ (Or.inr hfin)⟩
      exact ⟨_, bind_ok hpush (bind_ok ((if_pos hfin).trans hfinish) rfl)⟩
    · exact ⟨_, bind_ok hpush (bind_ok (if_neg hfin) rfl)⟩

/-- **What is past the end** when a segment is handled is the payload of a PSH. -/
theorem handleEstablished_overread_iff :
    ngTcpHandleEstablished s p x seg seg.tcplen malloc = .error .overread ↔
      seg.Has RTE_TCP_PSH_FLAG ∧ ¬ ∃ r, ngTcpEnqueueRecvbuffer x seg seg.tcplen malloc = .ok r := by
  unfold ngTcpHandleEstablished
  constructor
  · intro h
    obtain h | ⟨⟨x₁, s₁⟩, -, h⟩ := of_bind_eq_error h
    · split at h
      · next hpsh => exact ⟨hpsh, receive_overread_iff.mp h⟩
      · cases h
    · obtain h | ⟨r, -, h⟩ := of_bind_eq_error h
      · split at h
        · exact absurd (enqueue_fin_returns _ seg _) (receive_overread_iff.mp h)
        · cases h
      · cases h
  · rintro ⟨hpsh, h⟩
    rw [if_pos hpsh, receive_overread_iff.mpr h]
    rfl

/-- Neither a PSH nor a FIN, and nothing happens. -/
theorem handleEstablished_ignore (hmoves : ¬ seg.Moves) :
    ngTcpHandleEstablished s p x seg seg.tcplen malloc = .ok (0, s) := by
  unfold ngTcpHandleEstablished
  exact bind_ok (if_neg (fun h => hmoves (Or.inl h)))
    (bind_ok (if_neg (fun h => hmoves (Or.inr h))) rfl)

end Established

end Stack

/-! ## Counting -/

/-- **How many bytes of payload** were put into the ring. -/
def TcpStream.queuedBytes (x y : TcpStream) : ℕ :=
  ((y.rcvbuf.drop x.rcvbuf.length).map TcpFragment.length).sum

/-- **`rcv_nxt` counts what is in the ring**, and a FIN. -/
def TcpSegment.Counted (seg : TcpSegment) (x y : TcpStream) : Prop :=
  y.rcvNxt = x.rcvNxt + UInt32.ofNat (x.queuedBytes y) + (if seg.Has RTE_TCP_FIN_FLAG then 1 else 0)

section Counting

variable {x y : TcpStream} {seg : TcpSegment} {malloc : ℕ → Bool}

theorem queuedBytes_eq {more : List TcpFragment} (h : y.rcvbuf = x.rcvbuf ++ more) :
    x.queuedBytes y = (more.map TcpFragment.length).sum := by
  unfold TcpStream.queuedBytes
  rw [h, List.drop_left]

/-- Fragments without data. -/
theorem sum_length_eq_zero {fs : List TcpFragment} (h : ∀ f ∈ fs, f.length = 0) :
    (fs.map TcpFragment.length).sum = 0 := by
  rw [List.sum_eq_zero_iff]
  intro n hn
  obtain ⟨f, hf, rfl⟩ := List.mem_map.mp hn
  exact h f hf

/-- **A PSH puts its payload into the ring** if it has one and there is room. -/
theorem queuedBytes_handled (hpsh : seg.Has RTE_TCP_PSH_FLAG) :
    x.queuedBytes (x.handled seg malloc)
      = if 0 < seg.payloadlen ∧ TcpSegment.HasRoom x malloc then seg.payloadlen.toNat else 0 := by
  obtain ⟨rest, hrcvbuf, hrest, -⟩ := TcpStream.handled_rcvbuf x malloc hpsh 0
  have hpush : (x.advance seg seg.tcplen 0 malloc).rcvbuf
      = if malloc 0 ∧ (0 < seg.payloadlen → malloc 1) then
          ringEnqueue x.rcvbuf (receivedFragment seg seg.tcplen)
        else x.rcvbuf := rfl
  have hlength : (receivedFragment seg seg.tcplen).length = seg.payloadlen.toNat := rfl
  -- what is not a payload adds nothing
  have hnothing : (x.advance seg seg.tcplen 0 malloc).rcvbuf = x.rcvbuf →
      x.queuedBytes (x.handled seg malloc) = 0 := fun hsame =>
    (queuedBytes_eq (hrcvbuf.trans (by rw [hsame]))).trans (sum_length_eq_zero hrest)
  have hsomething : (x.advance seg seg.tcplen 0 malloc).rcvbuf
        = x.rcvbuf ++ [receivedFragment seg seg.tcplen] →
      x.queuedBytes (x.handled seg malloc) = seg.payloadlen.toNat := by
    intro hsome
    rw [hsome, List.append_assoc] at hrcvbuf
    rw [queuedBytes_eq hrcvbuf, List.map_append, List.sum_append, sum_length_eq_zero hrest]
    exact hlength
  by_cases hmalloc : malloc 0 ∧ (0 < seg.payloadlen → malloc 1)
  · rw [if_pos hmalloc] at hpush
    by_cases hlt : x.rcvbuf.length < RING_SIZE - 1
    · rw [hsomething (hpush.trans (ringEnqueue_of_lt hlt _))]
      by_cases hpos : 0 < seg.payloadlen
      · rw [if_pos ⟨hpos, hmalloc.1, hmalloc.2 hpos, hlt⟩]
      · rw [if_neg (fun h => hpos h.1), Int.toNat_of_nonpos (not_lt.mp hpos)]
    · rw [hnothing (hpush.trans (if_neg hlt)), if_neg (fun h => hlt h.2.2.2)]
  · rw [if_neg hmalloc] at hpush
    rw [hnothing hpush, if_neg (fun h => hmalloc ⟨h.2.1, fun _ => h.2.2.1⟩)]

/-- **`rcv_nxt` counts what a PSH has brought** exactly if that is not negative and has
found a place. -/
theorem counted_handled_iff (hpsh : seg.Has RTE_TCP_PSH_FLAG) :
    seg.Counted x (x.handled seg malloc) ↔
      0 ≤ seg.payloadlen ∧ (0 < seg.payloadlen → TcpSegment.HasRoom x malloc) := by
  have hlt := seg.payloadlen_lt
  have hge : -2 ^ 16 < seg.payloadlen := by
    have hdrlen : seg.hdrlen < 2 ^ 8 := (seg.dataOff >>> 4).toNat_lt
    unfold TcpSegment.payloadlen TcpSegment.tcplen
    omega
  unfold TcpSegment.Counted
  rw [TcpStream.handled_rcvNxt hpsh, queuedBytes_handled hpsh, UInt32.add_left_inj,
    UInt32.add_right_inj, ← UInt32.toNat_inj, toNat_ofInt, UInt32.toNat_ofNat']
  by_cases hroom : 0 < seg.payloadlen ∧ TcpSegment.HasRoom x malloc
  · rw [if_pos hroom]
    refine iff_of_true ?_ ⟨hroom.1.le, fun _ => hroom.2⟩
    omega
  · rw [if_neg hroom]
    have hzero : (seg.payloadlen % 2 ^ 32).toNat = 0 % 2 ^ 32 ↔ seg.payloadlen = 0 := by omega
    rw [hzero]
    constructor
    · intro h
      exact ⟨h.ge, fun hpos => absurd h hpos.ne'⟩
    · rintro ⟨hnonneg, hplace⟩
      by_contra hne
      have hpos := lt_of_le_of_ne hnonneg (Ne.symm hne)
      exact hroom ⟨hpos, hplace hpos⟩

/-- A FIN alone counts one. -/
theorem counted_handled_fin (hpsh : ¬ seg.Has RTE_TCP_PSH_FLAG) (hfin : seg.Has RTE_TCP_FIN_FLAG) :
    seg.Counted x (x.handled seg malloc) := by
  obtain ⟨rest, hrcvbuf, hrest, -⟩ := TcpStream.advance_fin_rcvbuf
    { x with status := .closeWait } seg (fun i => malloc (i + 3))
  have hhandled : x.handled seg malloc = TcpStream.advance { x with status := .closeWait } seg
      seg.hdrlen 1 (fun i => malloc (i + 3)) := by
    unfold TcpStream.handled
    simp only [if_neg hpsh, if_pos hfin]
  have hring : (x.handled seg malloc).rcvbuf = x.rcvbuf ++ rest := by
    rw [hhandled]
    exact hrcvbuf
  have hrcvNxt : (x.handled seg malloc).rcvNxt = x.rcvNxt + 0 + 1 := by
    rw [hhandled, UInt32.add_zero]
    rfl
  unfold TcpSegment.Counted
  rw [if_pos hfin, queuedBytes_eq hring, sum_length_eq_zero hrest, hrcvNxt]
  rfl

/-- Without a FIN, nothing put into the ring counts nothing. -/
theorem counted_self (hfin : ¬ seg.Has RTE_TCP_FIN_FLAG) : seg.Counted x x := by
  have hzero : x.queuedBytes x = 0 := queuedBytes_eq (List.append_nil _).symm
  unfold TcpSegment.Counted
  rw [hzero, if_neg hfin]
  exact ((UInt32.add_zero _).trans (UInt32.add_zero _)).symm

end Counting

/-! ## Checked lengths -/

/-- A payload ends where the segment does. -/
theorem TcpSegment.inside_iff {seg : TcpSegment} (hpos : 0 < seg.payloadlen) :
    seg.hdrlen * 4 + seg.payloadlen.toNat ≤ seg.mem.length ↔ seg.tcplen ≤ seg.mem.length := by
  unfold TcpSegment.payloadlen at hpos ⊢
  omega

namespace Stack

section Process

variable {s s' : Stack} {p : Ptr} {x : TcpStream} {seg : TcpSegment} {env : SegmentEnv}

/-- A segment for an established stream is for `ng_tcp_handle_established`. -/
theorem ngTcpProcess_established (hcksum : seg.cksumOk = true) (hdispatch : s.Dispatches seg p x)
    (hstatus : x.status = .established) :
    s.ngTcpProcess seg env
      = (ngTcpHandleEstablished s p x seg seg.tcplen env.malloc >>= fun r => .ok (0, r.2)) := by
  unfold ngTcpProcess
  rw [if_neg (not_not.mpr hcksum), hdispatch]
  simp only [hstatus]
  rfl

/-- A SYN brings nothing to copy. -/
theorem handleListen_ne_overread : ngTcpHandleListen s x seg env ≠ .error .overread := by
  intro h
  unfold ngTcpHandleListen at h
  split at h
  · split at h
    · cases h
    · simp only at h
      split at h
      · cases h
      · cases h
  · cases h

/-- Neither does the ACK of a handshake. -/
theorem handleSynRcvd_ne_overread : ngTcpHandleSynRcvd s p x seg ≠ .error .overread := by
  intro h
  unfold ngTcpHandleSynRcvd at h
  simp only at h
  split at h
  · split at h
    · cases h
    · obtain h | ⟨s₁, -, h⟩ := of_bind_eq_error h
      · exact callback_ne_overread h
      · cases h
  · cases h

/-- **What is past the end** when a segment is processed is the payload of an established
stream. -/
theorem ngTcpProcess_overread (h : s.ngTcpProcess seg env = .error .overread) :
    ∃ p x, s.Dispatches seg p x ∧ x.status = .established
      ∧ ngTcpHandleEstablished s p x seg seg.tcplen env.malloc = .error .overread := by
  unfold ngTcpProcess at h
  split at h
  · cases h
  cases hdispatch : s.ngTcpStreamSearch seg.srcAddr seg.dstAddr seg.srcPort seg.dstPort with
  | none =>
    rw [hdispatch] at h
    cases h
  | some y =>
    obtain ⟨p, x⟩ := y
    rw [hdispatch] at h
    obtain h | ⟨r, -, h⟩ := of_bind_eq_error h
    · cases hstatus : x.status with
      | listen =>
        rw [hstatus] at h
        exact absurd h handleListen_ne_overread
      | synRcvd =>
        rw [hstatus] at h
        exact absurd h handleSynRcvd_ne_overread
      | established =>
        rw [hstatus] at h
        exact ⟨p, x, hdispatch, hstatus, h⟩
      | _ =>
        rw [hstatus] at h
        cases h
    · cases h

/-- **The lengths of a segment are checked**: no byte is copied from behind the frame, and
`rcv_nxt` moves by what is put into the ring, and for a FIN. -/
structure TcpChecked (s : Stack) (seg : TcpSegment) (env : SegmentEnv) : Prop where
  inside : s.ngTcpProcess seg env ≠ .error .overread
  counted : ∀ {ret s' p x}, s.ngTcpProcess seg env = .ok (ret, s') → s.Dispatches seg p x →
    x.status = .established → ∃ y, (p, y) ∈ s'.tcbSet ∧ seg.Counted x y

/-- **The lengths of a segment are right**, if it has a PSH for an established stream: what
would be copied is there, and where epoll lets the handler go on, the payload is not negative and
finds a place. -/
def TcpFits (s : Stack) (seg : TcpSegment) (env : SegmentEnv) : Prop :=
  ∀ p x, s.Dispatches seg p x → x.status = .established → seg.Has RTE_TCP_PSH_FLAG →
    (0 < seg.payloadlen → env.malloc 0 = true → env.malloc 1 = true →
      seg.tcplen ≤ seg.mem.length)
    ∧ (s.Tells x.fd → 0 ≤ seg.payloadlen ∧ (0 < seg.payloadlen → TcpSegment.HasRoom x env.malloc))

/-- **The lengths of a segment** are checked exactly if they are right. -/
theorem tcpChecked_iff (hcksum : seg.cksumOk = true) :
    s.TcpChecked seg env ↔ s.TcpFits seg env := by
  constructor
  · intro h p x hdispatch hstatus hpsh
    have hprocess : s.ngTcpProcess seg env = _ := ngTcpProcess_established hcksum hdispatch hstatus
    have hreturns : ∃ r, ngTcpEnqueueRecvbuffer x seg seg.tcplen env.malloc = .ok r := by
      by_contra hnot
      refine h.inside ?_
      rw [hprocess, handleEstablished_overread_iff.mpr ⟨hpsh, hnot⟩]
      rfl
    refine ⟨fun hpos h0 h1 => ?_, fun htells => ?_⟩
    · exact (TcpSegment.inside_iff hpos).mp (enqueue_returns_iff.mp hreturns hpos h0 h1)
    obtain ⟨⟨ret, s'⟩, hhandle⟩ :=
      handleEstablished_returns_iff.mpr ⟨fun _ => hreturns, fun _ => htells⟩
    obtain ⟨y, hy, hcounted⟩ := h.counted (hprocess.trans (bind_ok hhandle rfl)) hdispatch hstatus
    rw [mem_handleEstablished (mem_of_search hdispatch) (Or.inl hpsh) hhandle] at hy
    rw [hy] at hcounted
    exact (counted_handled_iff hpsh).mp hcounted
  · intro h
    refine ⟨fun hoverread => ?_, fun {ret s' p x} hok hdispatch hstatus => ?_⟩
    · obtain ⟨p, x, hdispatch, hstatus, hhandle⟩ := ngTcpProcess_overread hoverread
      obtain ⟨hpsh, hnot⟩ := handleEstablished_overread_iff.mp hhandle
      refine hnot (enqueue_returns_iff.mpr (fun hpos h0 h1 => ?_))
      exact (TcpSegment.inside_iff hpos).mpr ((h p x hdispatch hstatus hpsh).1 hpos h0 h1)
    · have hmem := mem_of_search hdispatch
      rw [ngTcpProcess_established hcksum hdispatch hstatus] at hok
      obtain ⟨⟨ret', s₁⟩, hhandle, hs'⟩ := exists_of_bind_eq_ok hok
      obtain ⟨-, rfl⟩ := Prod.mk.inj (Except.ok.inj hs')
      by_cases hmoves : seg.Moves
      · refine ⟨x.handled seg env.malloc, (mem_handleEstablished hmem hmoves hhandle).mpr rfl, ?_⟩
        by_cases hpsh : seg.Has RTE_TCP_PSH_FLAG
        · have htells := (handleEstablished_returns_iff.mp ⟨_, hhandle⟩).2 hmoves
          exact (counted_handled_iff hpsh).mpr ((h p x hdispatch hstatus hpsh).2 htells)
        · exact counted_handled_fin hpsh (hmoves.resolve_left hpsh)
      · cases (handleEstablished_ignore hmoves).symm.trans hhandle
        exact ⟨x, hmem, counted_self (fun h => hmoves (Or.inr h))⟩

end Process

end Stack

namespace Sockets

variable {w : Sockets} {frame : Frame} {malloc : ℕ → Bool}

/-- A datagram is for a socket. -/
def Bound (w : Sockets) (frame : Frame) : Prop :=
  w.stack.getHostinfoFromipPort frame.dstAddr frame.dstPort frame.nextProtoId ≠ none

/-- **What is past the end** when a datagram is processed is its payload. -/
theorem udpProcess_overread_iff :
    w.udpProcess frame malloc = .error .overread ↔
      w.Bound frame ∧ malloc 0 = true ∧ malloc 1 = true
        ∧ frame.length < 42 + frame.dataLen.toNat := by
  unfold udpProcess Bound
  cases w.stack.getHostinfoFromipPort frame.dstAddr frame.dstPort frame.nextProtoId with
  | none => exact iff_of_false (fun h => by cases h) (fun h => h.1 rfl)
  | some host =>
    by_cases h0 : malloc 0 = true
    · by_cases h1 : malloc 1 = true
      · by_cases hlt : frame.length < 42 + frame.dataLen.toNat
        · refine iff_of_true ?_ ⟨Option.some_ne_none host, h0, h1, hlt⟩
          simp only [h0, h1, hlt, not_true_eq_false, if_false, if_true]
        · refine iff_of_false (fun h => ?_) (fun h => hlt h.2.2.2)
          simp only [h0, h1, hlt, not_true_eq_false, if_false] at h
          cases h
      · refine iff_of_false (fun h => ?_) (fun h => h1 h.2.2.1)
        simp only [h0, not_true_eq_false, if_false, if_pos h1] at h
        cases h
    · refine iff_of_false (fun h => ?_) (fun h => h0 h.2.1)
      simp only [if_pos h0] at h
      cases h

/-- **The length of a datagram is checked**: where that of its payload is computed, it is not
negative, and no byte is copied from behind the frame. -/
structure UdpChecked (w : Sockets) (frame : Frame) (malloc : ℕ → Bool) : Prop where
  noWrap : w.Bound frame → malloc 0 = true → (frame.dataLen.toNat : ℤ) = frame.dgramLen.toNat - 8
  inside : w.udpProcess frame malloc ≠ .error .overread

/-- **The length of a datagram is right**, if it is for a socket: it has that of the header in
it, and what would be copied is in the frame. -/
def UdpFits (w : Sockets) (frame : Frame) (malloc : ℕ → Bool) : Prop :=
  w.Bound frame → malloc 0 = true →
    8 ≤ frame.dgramLen.toNat ∧ (malloc 1 = true → 34 + frame.dgramLen.toNat ≤ frame.length)

/-- **The length of a datagram** is checked exactly if it is right. -/
theorem udpChecked_iff : w.UdpChecked frame malloc ↔ w.UdpFits frame malloc := by
  constructor
  · intro h hbound h0
    have hnoWrap := h.noWrap hbound h0
    have hle : 8 ≤ frame.dgramLen.toNat := by omega
    refine ⟨hle, fun h1 => ?_⟩
    by_contra hlt
    refine h.inside (udpProcess_overread_iff.mpr ⟨hbound, h0, h1, ?_⟩)
    omega
  · intro h
    refine ⟨fun hbound h0 => ?_, fun hoverread => ?_⟩
    · have hle := (h hbound h0).1
      rw [Frame.toNat_dataLen_of_le hle]
      exact Int.ofNat_sub hle
    · obtain ⟨hbound, h0, h1, hlt⟩ := udpProcess_overread_iff.mp hoverread
      obtain ⟨hle, hin⟩ := h hbound h0
      have hin' := hin h1
      rw [Frame.toNat_dataLen_of_le hle] at hlt
      omega

/-- **The lengths in a frame are checked**, where it is UDP, or TCP with the right checksum. -/
structure LengthsChecked (dpdk : Dpdk) (w : Sockets) (frame : Frame) (env : PacketEnv) : Prop where
  udp : frame.nextProtoId = UDP → w.UdpChecked frame env.udp
  tcp : frame.nextProtoId = TCP → (frame.segment dpdk).cksumOk = true →
    w.stack.TcpChecked (frame.segment dpdk) env.tcp

/-- **The lengths in a frame are right.** -/
structure LengthsFit (dpdk : Dpdk) (w : Sockets) (frame : Frame) (env : PacketEnv) : Prop where
  udp : frame.nextProtoId = UDP → w.UdpFits frame env.udp
  tcp : frame.nextProtoId = TCP → (frame.segment dpdk).cksumOk = true →
    w.stack.TcpFits (frame.segment dpdk) env.tcp

/-- **Lengths are checked exactly if they are right**, for every frame, checksum function
and state of the stack, whatever is allocated. -/
theorem lengths_checked_iff (dpdk : Dpdk) (w : Sockets) (frame : Frame) (env : PacketEnv) :
    w.LengthsChecked dpdk frame env ↔ w.LengthsFit dpdk frame env := by
  constructor
  · intro h
    exact ⟨fun hudp => udpChecked_iff.mp (h.udp hudp),
      fun htcp hcksum => (Stack.tcpChecked_iff hcksum).mp (h.tcp htcp hcksum)⟩
  · intro h
    exact ⟨fun hudp => udpChecked_iff.mpr (h.udp hudp),
      fun htcp hcksum => (Stack.tcpChecked_iff hcksum).mpr (h.tcp htcp hcksum)⟩

/-- A PSH of 54 bytes from the peer, with a TCP header that ends four bytes behind it. -/
def shortFrame : Frame :=
  List.replicate 12 0 ++ [8, 0, 0x45, 0, 0, 40, 0, 0, 0, 0, 64, TCP, 0, 0, 1, 0, 0, 0, 2, 0, 0, 0]
    ++ [3, 0, 4, 0, 0, 0, 1, 245, 0, 0, 3, 233, 0x60, RTE_TCP_PSH_FLAG ||| RTE_TCP_ACK_FLAG]
    ++ List.replicate 6 0

set_option maxRecDepth 8000 in
/-- `rcv_nxt` goes back by four. -/
theorem not_lengths_checked :
    ¬ ∀ (dpdk : Dpdk) (w : Sockets) (frame : Frame) (env : PacketEnv),
      (∃ log, Stack.tcpMachine.Reach (fun _ _ => True) Stack.init log w.stack) →
      frame.etherType = RTE_ETHER_TYPE_IPV4 → 54 ≤ frame.length →
      w.LengthsChecked dpdk frame env := by
  intro h
  obtain ⟨outs, s, x, hrun, hdispatch, hstatus, htells⟩ :
      ∃ outs s x, Stack.tcpMachine.run Stack.init Stack.connects = some (outs, s)
      ∧ s.Dispatches (shortFrame.segment noCksum) 3 x ∧ x.status = .established ∧ s.Tells x.fd :=
    ⟨_, _, _, rfl, rfl, rfl, _, rfl⟩
  have hchecked := h noCksum ⟨s, fun _ => [], fun _ => []⟩ shortFrame packetEnv
    ⟨_, Machine.Reach.of_run hrun⟩ (by decide) (by decide)
  have hfits := (Stack.tcpChecked_iff rfl).mp (hchecked.tcp (by decide) rfl)
  have hnonneg := ((hfits 3 x hdispatch hstatus (by decide)).2 htells).1
  exact absurd hnonneg (by decide)

end Sockets

end Ustack
