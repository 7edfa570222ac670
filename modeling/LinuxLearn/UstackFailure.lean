import LinuxLearn.UstackConnection
import LinuxLearn.UstackSequence

/-!
# Segments there is no room for

A segment needs memory. Its payload is copied into a fragment, which needs
a place in the ring of its stream; its acknowledgement is another fragment;
and a SYN needs a stream of its own. Each of these may fail, and each
function that allocates tells its caller.

The callers do not listen. `ng_tcp_handle_established` moves `rcv_nxt` on
and acknowledges the payload, whether it is in the ring or not
(`acked_kept_iff`). And `ng_tcp_handle_listen` links the new stream into the
table before it has all it needs: with nothing to link it follows a null
pointer, and with no memory for the SYN-ACK it leaves half a stream there,
which then is the first one that `get_accept_tcb` finds (`failed_open`).
-/

namespace Ustack

/-- **What an established stream is after a segment**, where its handler returns. -/
def TcpStream.handled (x : TcpStream) (seg : TcpSegment) (malloc : ℕ → Bool) : TcpStream :=
  let pushed := if seg.Has RTE_TCP_PSH_FLAG then
      x.advance seg seg.tcplen (UInt32.ofInt seg.payloadlen) malloc
    else x
  if seg.Has RTE_TCP_FIN_FLAG then
    TcpStream.advance { pushed with status := .closeWait } seg seg.hdrlen 1
      (fun i => malloc (i + 3))
  else pushed

namespace Stack

section Established

variable {s s' : Stack} {p : Ptr} {x y : TcpStream} {seg : TcpSegment} {malloc : ℕ → Bool} {ret : ℤ}

/-- **A stream that was written to** is the only one at its address. -/
theorem mem_setStream_self (hmem : (p, x) ∈ s.tcbSet) (y z : TcpStream) :
    (p, z) ∈ (s.setStream p y).tcbSet ↔ z = y := by
  rw [mem_setStream]
  constructor
  · rintro (⟨hp, -⟩ | ⟨-, -, hz⟩)
    · exact absurd rfl hp
    · exact (Prod.mk.inj hz).2
  · rintro rfl
    exact Or.inr ⟨x, hmem, rfl⟩

/-- **What a PSH or a FIN leaves at the address of the stream.** -/
theorem mem_handleEstablished (hmem : (p, x) ∈ s.tcbSet) (hmoves : seg.Moves)
    (hok : ngTcpHandleEstablished s p x seg seg.tcplen malloc = .ok (ret, s')) :
    (p, y) ∈ s'.tcbSet ↔ y = x.handled seg malloc := by
  unfold ngTcpHandleEstablished at hok
  obtain ⟨⟨x₁, s₁⟩, hpush, hok⟩ := exists_of_bind_eq_ok hok
  obtain ⟨⟨x₂, s₂⟩, hfinish, hok⟩ := exists_of_bind_eq_ok hok
  obtain ⟨-, rfl⟩ := Prod.mk.inj (Except.ok.inj hok)
  unfold TcpStream.handled
  by_cases hpsh : seg.Has RTE_TCP_PSH_FLAG
  · rw [if_pos hpsh] at hpush
    obtain ⟨rfl, ep, rfl⟩ := receive_advance hpush
    have hmem₁ := (mem_setStream_self hmem _ _).mpr
      (rfl : x.advance seg seg.tcplen (UInt32.ofInt seg.payloadlen) malloc = _)
    simp only [if_pos hpsh]
    by_cases hfin : seg.Has RTE_TCP_FIN_FLAG
    · rw [if_pos hfin] at hfinish
      obtain ⟨rfl, ep', rfl⟩ := receive_advance hfinish
      rw [if_pos hfin]
      exact mem_setStream_self (s := { s.setStream p _ with ep := ep }) hmem₁ _ y
    · rw [if_neg hfin] at hfinish
      obtain ⟨rfl, rfl⟩ := Prod.mk.inj (Except.ok.inj hfinish)
      rw [if_neg hfin]
      exact mem_setStream_self hmem _ y
  · have hfin : seg.Has RTE_TCP_FIN_FLAG := hmoves.resolve_left hpsh
    rw [if_neg hpsh] at hpush
    obtain ⟨rfl, rfl⟩ := Prod.mk.inj (Except.ok.inj hpush)
    rw [if_pos hfin] at hfinish
    obtain ⟨rfl, ep, rfl⟩ := receive_advance hfinish
    simp only [if_neg hpsh, if_pos hfin]
    exact mem_setStream_self hmem _ y

/-- **Queueing returns** exactly where the payload that is to be copied is in memory. -/
theorem enqueue_returns_iff {tcplen : ℤ} :
    (∃ r, ngTcpEnqueueRecvbuffer x seg tcplen malloc = .ok r) ↔
      (0 < tcplen - seg.hdrlen * 4 → malloc 0 = true → malloc 1 = true →
        seg.hdrlen * 4 + (tcplen - seg.hdrlen * 4).toNat ≤ seg.mem.length) := by
  unfold ngTcpEnqueueRecvbuffer
  by_cases h0 : malloc 0 = true
  · rw [if_neg (not_not.mpr h0)]
    simp only
    by_cases hpos : 0 < tcplen - seg.hdrlen * 4
    · rw [if_pos hpos]
      by_cases h1 : malloc 1 = true
      · rw [if_neg (not_not.mpr h1)]
        by_cases hle : seg.mem.length < seg.hdrlen * 4 + (tcplen - seg.hdrlen * 4).toNat
        · rw [if_pos hle]
          refine iff_of_false (fun ⟨r, hr⟩ => ?_) (fun h => (h hpos h0 h1).not_gt hle)
          cases hr
        · rw [if_neg hle]
          exact iff_of_true ⟨_, rfl⟩ (fun _ _ _ => not_lt.mp hle)
      · rw [if_pos h1]
        exact iff_of_true ⟨_, rfl⟩ (fun _ _ h => absurd h h1)
    · rw [if_neg hpos]
      exact iff_of_true ⟨_, rfl⟩ (fun h => absurd h hpos)
  · rw [if_pos h0]
    exact iff_of_true ⟨_, rfl⟩ (fun _ h => absurd h h0)

/-- What goes wrong otherwise is that memory is read past its end. -/
theorem enqueue_overread {tcplen : ℤ}
    (h : ¬ ∃ r, ngTcpEnqueueRecvbuffer x seg tcplen malloc = .ok r) :
    ngTcpEnqueueRecvbuffer x seg tcplen malloc = .error .overread := by
  rw [enqueue_returns_iff] at h
  push Not at h
  obtain ⟨hpos, h0, h1, hlt⟩ := h
  unfold ngTcpEnqueueRecvbuffer
  rw [if_neg (not_not.mpr h0)]
  simp only
  rw [if_pos hpos, if_neg (not_not.mpr h1), if_pos hlt]

/-- The payload that a PSH has brought is in memory. -/
theorem handleEstablished_inside (hpsh : seg.Has RTE_TCP_PSH_FLAG)
    (hok : ngTcpHandleEstablished s p x seg seg.tcplen malloc = .ok (ret, s'))
    (hpos : 0 < seg.payloadlen) (h0 : malloc 0 = true) (h1 : malloc 1 = true) :
    seg.hdrlen * 4 + seg.payloadlen.toNat ≤ seg.mem.length := by
  unfold ngTcpHandleEstablished at hok
  obtain ⟨r, hpush, -⟩ := exists_of_bind_eq_ok hok
  rw [if_pos hpsh] at hpush
  unfold receive at hpush
  obtain ⟨r', henqueue, -⟩ := exists_of_bind_eq_ok hpush
  exact enqueue_returns_iff.mp ⟨r', henqueue⟩ hpos h0 h1

end Established

end Stack

namespace TcpStream

section Handled

variable {x : TcpStream} {seg : TcpSegment} {malloc : ℕ → Bool}

/-- **What a FIN puts into the ring** is no data. -/
theorem advance_fin_rcvbuf (x : TcpStream) (seg : TcpSegment) (malloc : ℕ → Bool) :
    ∃ rest, (x.advance seg seg.hdrlen 1 malloc).rcvbuf = x.rcvbuf ++ rest
      ∧ (∀ f ∈ rest, TcpFragment.length f = 0) ∧ (rest ≠ [] → x.rcvbuf.length < RING_SIZE - 1) := by
  have hnil : ∃ rest, x.rcvbuf = x.rcvbuf ++ rest ∧ (∀ f ∈ rest, TcpFragment.length f = 0)
      ∧ (rest ≠ [] → x.rcvbuf.length < RING_SIZE - 1) :=
    ⟨[], (List.append_nil _).symm, fun _ hf => absurd hf List.not_mem_nil, fun h => absurd rfl h⟩
  unfold advance ringEnqueue
  simp only
  split
  · split
    · next hroom =>
      refine ⟨_, rfl, fun f hf => ?_, fun _ => hroom⟩
      rw [List.mem_singleton.mp hf]
      exact Int.toNat_of_nonpos (by omega)
    · exact hnil
  · exact hnil

/-- **The ring after a PSH**: what the PSH has left there, and perhaps a FIN. -/
theorem handled_rcvbuf (x : TcpStream) (malloc : ℕ → Bool) (hpsh : seg.Has RTE_TCP_PSH_FLAG)
    (advance : UInt32) :
    ∃ rest, (x.handled seg malloc).rcvbuf = (x.advance seg seg.tcplen advance malloc).rcvbuf ++ rest
      ∧ (∀ f ∈ rest, f.length = 0)
      ∧ (rest ≠ [] → (x.advance seg seg.tcplen advance malloc).rcvbuf.length < RING_SIZE - 1) := by
  unfold handled
  simp only [if_pos hpsh]
  split
  · exact advance_fin_rcvbuf _ seg _
  · exact ⟨[], (List.append_nil _).symm, fun f hf => absurd hf List.not_mem_nil,
      fun h => absurd rfl h⟩

/-- **`rcv_nxt` after a PSH.** -/
theorem handled_rcvNxt (hpsh : seg.Has RTE_TCP_PSH_FLAG) :
    (x.handled seg malloc).rcvNxt = x.rcvNxt + UInt32.ofInt seg.payloadlen
      + (if seg.Has RTE_TCP_FIN_FLAG then 1 else 0) := by
  unfold handled
  simp only [if_pos hpsh]
  split
  · rfl
  · exact (UInt32.add_zero _).symm

end Handled

end TcpStream

/-! ## Payloads -/

namespace TcpSegment

/-- **The payload is in the ring**, behind what was there. -/
def Queued (seg : TcpSegment) (x y : TcpStream) : Prop :=
  ∃ f rest, y.rcvbuf = x.rcvbuf ++ f :: rest ∧ f.length = seg.payloadlen.toNat
    ∧ f.payload = seg.payload

/-- **A fragment acknowledges the payload**: its number is ahead of what the stream
expected by the payload at least. -/
def AckedBy (seg : TcpSegment) (x : TcpStream) (ack : TcpFragment) : Prop :=
  seg.payloadlen ≤ (ack.acknum - x.rcvNxt).toNat ∧ (ack.acknum - x.rcvNxt).toNat < 2 ^ 31

instance (seg : TcpSegment) (x : TcpStream) (ack : TcpFragment) : Decidable (seg.AckedBy x ack) :=
  inferInstanceAs (Decidable (_ ∧ _))

/-- **What is acknowledged is kept**: an ACK that is sent for the payload has it in
the ring, and a payload that is not in the ring is not counted. -/
structure AckedKept (seg : TcpSegment) (x y : TcpStream) : Prop where
  acked : ∀ sent, y.sndbuf = x.sndbuf ++ sent → ∀ ack ∈ sent, seg.AckedBy x ack → seg.Queued x y
  unqueued : ¬ seg.Queued x y → y.rcvNxt = x.rcvNxt
    ∧ ∀ sent, y.sndbuf = x.sndbuf ++ sent → ∀ ack ∈ sent, ¬ seg.AckedBy x ack

/-- There is memory and a place in the ring. -/
def HasRoom (x : TcpStream) (malloc : ℕ → Bool) : Prop :=
  malloc 0 = true ∧ malloc 1 = true ∧ x.rcvbuf.length < RING_SIZE - 1

instance (x : TcpStream) (malloc : ℕ → Bool) : Decidable (HasRoom x malloc) :=
  inferInstanceAs (Decidable (_ ∧ _))

theorem payloadlen_lt (seg : TcpSegment) : seg.payloadlen < 2 ^ 16 := by
  have h := seg.totalLength.toNat_lt
  unfold payloadlen tcplen
  omega

variable {seg : TcpSegment} {x y : TcpStream} {malloc : ℕ → Bool}

/-- The bytes of the fragment that a payload is put into. -/
theorem payload_receivedFragment (hpos : 0 < seg.payloadlen)
    (hinside : seg.hdrlen * 4 + seg.payloadlen.toNat ≤ seg.mem.length) :
    (receivedFragment seg seg.tcplen).payload = seg.payload := by
  have hlength : seg.payload.length = seg.payloadlen.toNat := by
    unfold payload
    rw [List.length_take, List.length_drop]
    omega
  have hdata : (receivedFragment seg seg.tcplen).data = some (seg.payload ++ [0]) := if_pos hpos
  unfold TcpFragment.payload
  rw [hdata, Option.getD_some]
  exact List.take_left' hlength

/-- **A payload comes into the ring** exactly if there is room for it. -/
theorem queued_handled_iff (x : TcpStream) (hpsh : seg.Has RTE_TCP_PSH_FLAG)
    (hpos : 0 < seg.payloadlen) (hinside : malloc 0 = true → malloc 1 = true →
      seg.hdrlen * 4 + seg.payloadlen.toNat ≤ seg.mem.length) :
    seg.Queued x (x.handled seg malloc) ↔ HasRoom x malloc := by
  obtain ⟨rest, hrcvbuf, hrest, hroom⟩ := TcpStream.handled_rcvbuf x malloc hpsh 0
  have hlength : (receivedFragment seg seg.tcplen).length = seg.payloadlen.toNat := rfl
  -- where the payload is dropped, there is at most the FIN behind what was there
  have hdropped : (x.advance seg seg.tcplen 0 malloc).rcvbuf = x.rcvbuf →
      ¬ seg.Queued x (x.handled seg malloc) := by
    rintro hsame ⟨f, rest', hrcvbuf', hf, -⟩
    rw [hrcvbuf, hsame] at hrcvbuf'
    have hnil : f.length = 0 := hrest f (by
      rw [List.append_cancel_left hrcvbuf']
      exact List.mem_cons_self)
    omega
  have hpush : (x.advance seg seg.tcplen 0 malloc).rcvbuf
      = if malloc 0 ∧ (0 < seg.payloadlen → malloc 1) then
          ringEnqueue x.rcvbuf (receivedFragment seg seg.tcplen)
        else x.rcvbuf := rfl
  by_cases hmalloc : malloc 0 = true ∧ malloc 1 = true
  · rw [if_pos ⟨hmalloc.1, fun _ => hmalloc.2⟩] at hpush
    by_cases hlt : x.rcvbuf.length < RING_SIZE - 1
    · refine iff_of_true ⟨_, rest, ?_, hlength, ?_⟩ ⟨hmalloc.1, hmalloc.2, hlt⟩
      · rw [hrcvbuf, hpush, ringEnqueue_of_lt hlt, List.append_assoc]
        rfl
      · exact payload_receivedFragment hpos (hinside hmalloc.1 hmalloc.2)
    · exact iff_of_false (hdropped (hpush.trans (if_neg hlt))) (fun h => hlt h.2.2)
  · rw [if_neg (fun h => hmalloc ⟨h.1, h.2 hpos⟩)] at hpush
    exact iff_of_false (hdropped hpush) (fun h => hmalloc ⟨h.1, h.2.1⟩)

/-- **A payload is always counted.** -/
theorem rcvNxt_handled_ne (hpsh : seg.Has RTE_TCP_PSH_FLAG) (hpos : 0 < seg.payloadlen) :
    (x.handled seg malloc).rcvNxt ≠ x.rcvNxt := by
  have hlt := seg.payloadlen_lt
  have hadvance := toNat_ofInt seg.payloadlen
  have hx := x.rcvNxt.toNat_lt
  rw [TcpStream.handled_rcvNxt hpsh]
  intro heq
  have htoNat := congrArg UInt32.toNat heq
  simp only [UInt32.toNat_add] at htoNat
  split at htoNat
  · simp only [UInt32.toNat_one] at htoNat
    omega
  · simp only [UInt32.toNat_zero] at htoNat
    omega

end TcpSegment

namespace Stack

section AckedKept

variable {s s' : Stack} {p : Ptr} {x : TcpStream} {seg : TcpSegment} {malloc : ℕ → Bool} {ret : ℤ}

/-- **Acknowledged data is kept exactly if there is room for it.** Whatever the stack
and the stream, where the handler returns from a PSH with a payload. -/
theorem acked_kept_iff (hmem : (p, x) ∈ s.tcbSet) (hpsh : seg.Has RTE_TCP_PSH_FLAG)
    (hpayload : 0 < seg.payloadlen)
    (hok : ngTcpHandleEstablished s p x seg seg.tcplen malloc = .ok (ret, s')) :
    (∀ y, (p, y) ∈ s'.tcbSet → seg.AckedKept x y) ↔ TcpSegment.HasRoom x malloc := by
  have hqueued := TcpSegment.queued_handled_iff x hpsh hpayload
    (handleEstablished_inside hpsh hok hpayload)
  have hy : ∀ y, (p, y) ∈ s'.tcbSet ↔ y = x.handled seg malloc :=
    fun y => mem_handleEstablished hmem (Or.inl hpsh) hok
  constructor
  · intro h
    by_contra hroom
    have hkept := h _ ((hy _).mpr rfl)
    exact TcpSegment.rcvNxt_handled_ne hpsh hpayload
      (hkept.unqueued (fun hq => hroom (hqueued.mp hq))).1
  · intro hroom y hmem'
    rw [(hy y).mp hmem']
    have hq := hqueued.mpr hroom
    exact ⟨fun _ _ _ _ _ => hq, fun hnot => absurd hq hnot⟩

set_option maxRecDepth 8000 in
/-- Where there is memory, the payload is kept. -/
theorem acked_kept_iff_connected :
    ∃ outs s x s', tcpMachine.run init connects = some (outs, s) ∧ (3, x) ∈ s.tcbSet
      ∧ ngTcpHandleEstablished s 3 x (peerSegment RTE_TCP_PSH_FLAG 501 1001 [104])
        (peerSegment RTE_TCP_PSH_FLAG 501 1001 [104]).tcplen (fun _ => true) = .ok (0, s')
      ∧ ∀ y, (3, y) ∈ s'.tcbSet → (peerSegment RTE_TCP_PSH_FLAG 501 1001 [104]).AckedKept x y := by
  obtain ⟨outs, s, x, s', hrun, hmem, hok, hroom⟩ :
      ∃ outs s x s', tcpMachine.run init connects = some (outs, s) ∧ (3, x) ∈ s.tcbSet
      ∧ ngTcpHandleEstablished s 3 x (peerSegment RTE_TCP_PSH_FLAG 501 1001 [104])
        (peerSegment RTE_TCP_PSH_FLAG 501 1001 [104]).tcplen (fun _ => true) = .ok (0, s')
      ∧ TcpSegment.HasRoom x (fun _ => true) :=
    ⟨_, _, _, _, rfl, List.mem_cons_self, rfl, rfl, rfl, by decide⟩
  exact ⟨outs, s, x, s', hrun, hmem, hok,
    (acked_kept_iff hmem (by decide) (by decide) hok).mpr hroom⟩

set_option maxRecDepth 8000 in
/-- Without memory for the fragment, the payload is acknowledged and nothing is in the ring. -/
theorem not_acked_kept :
    ¬ ∀ log s, tcpMachine.Reach (fun _ _ => True) init log s → ∀ p x, (p, x) ∈ s.tcbSet →
      x.status = .established → ∀ seg : TcpSegment, seg.Has RTE_TCP_PSH_FLAG → 0 < seg.payloadlen →
      ∀ malloc ret s', ngTcpHandleEstablished s p x seg seg.tcplen malloc = .ok (ret, s') →
        ∀ y, (p, y) ∈ s'.tcbSet → seg.AckedKept x y := by
  intro h
  obtain ⟨outs, s, x, s', y, ack, hrun, hmem, hstatus, hok, hmem', hx, hy, hsndbuf, hacked⟩ :
      ∃ outs s x s' y ack, tcpMachine.run init connects = some (outs, s) ∧ (3, x) ∈ s.tcbSet
      ∧ x.status = .established
      ∧ ngTcpHandleEstablished s 3 x (peerSegment RTE_TCP_PSH_FLAG 501 1001 [104])
        (peerSegment RTE_TCP_PSH_FLAG 501 1001 [104]).tcplen (fun i => i ≠ 0) = .ok (0, s')
      ∧ (3, y) ∈ s'.tcbSet ∧ x.rcvbuf = [] ∧ y.rcvbuf = [] ∧ y.sndbuf = x.sndbuf ++ [ack]
      ∧ (peerSegment RTE_TCP_PSH_FLAG 501 1001 [104]).AckedBy x ack :=
    ⟨_, _, _, _, _, _, rfl, List.mem_cons_self, rfl, rfl, List.mem_cons_self, rfl, rfl, rfl,
      by decide⟩
  have hkept := h _ _ (Machine.Reach.of_run hrun) 3 x hmem hstatus _ (by decide) (by decide) _ _ _
    hok y hmem'
  obtain ⟨f, rest, hrcvbuf, -⟩ := hkept.acked [ack] hsndbuf ack List.mem_cons_self hacked
  rw [hx, hy] at hrcvbuf
  cases hrcvbuf

end AckedKept

/-! ## Streams -/

section Open

variable {s : Stack} {p : Ptr} {x : TcpStream} {seg : TcpSegment} {env : SegmentEnv}

/-- **A segment leaves the table alone**: it is processed, and the table has the streams
it had, as they were. -/
def LeavesTable (s : Stack) (seg : TcpSegment) (env : SegmentEnv) : Prop :=
  ∃ ret s', s.ngTcpProcess seg env = .ok (ret, s') ∧ s'.tcbSet.Perm s.tcbSet

/-- A SYN to a listener is for `ng_tcp_handle_listen`. -/
theorem ngTcpProcess_listen (hcksum : seg.cksumOk = true) (hdispatch : s.Dispatches seg p x)
    (hstatus : x.status = .listen) :
    s.ngTcpProcess seg env = (ngTcpHandleListen s x seg env >>= fun r => .ok (0, r.2)) := by
  unfold ngTcpProcess
  rw [if_neg (not_not.mpr hcksum), hdispatch]
  simp only [hstatus]
  rfl

/-- **Without memory for the stream**, a null pointer is linked. -/
theorem ngTcpProcess_null (hcksum : seg.cksumOk = true) (hdispatch : s.Dispatches seg p x)
    (hstatus : x.status = .listen) (hsyn : seg.Has RTE_TCP_SYN_FLAG)
    (hmalloc : env.malloc 0 = false) :
    s.ngTcpProcess seg env = .error .null := by
  rw [ngTcpProcess_listen hcksum hdispatch hstatus]
  unfold ngTcpHandleListen
  rw [if_pos ⟨hsyn, hstatus⟩, if_pos (by rw [hmalloc]; exact Bool.false_ne_true)]
  rfl

/-- **Without memory for the SYN-ACK**, half a stream is linked. -/
theorem ngTcpProcess_half (hcksum : seg.cksumOk = true) (hdispatch : s.Dispatches seg p x)
    (hstatus : x.status = .listen) (hsyn : seg.Has RTE_TCP_SYN_FLAG) (h0 : env.malloc 0 = true)
    (h1 : env.malloc 1 = false) :
    s.ngTcpProcess seg env = .ok (0, { s with
      tcbSet := (s.next, halfOpenedStream seg env.iss env.garbage) :: s.tcbSet
      next := s.next + 1 }) := by
  rw [ngTcpProcess_listen hcksum hdispatch hstatus]
  unfold ngTcpHandleListen
  rw [if_pos ⟨hsyn, hstatus⟩, if_neg (not_not.mpr h0)]
  simp only
  rw [if_pos (by rw [h1]; exact Bool.false_ne_true)]
  rfl

/-- **A listener that is the first in the table** is what is found for its port, where no
other stream has the four-tuple. -/
theorem search_of_first {t : NodeList TcpStream} {sip dip : UInt32} {sport dport : UInt16}
    (htcbSet : s.tcbSet = (p, x) :: t) (hdport : x.dport = dport) (hstatus : x.status = .listen)
    (hnone : ∀ y ∈ t, ¬ (y.2.sip = sip ∧ y.2.dip = dip ∧ y.2.sport = sport ∧ y.2.dport = dport)) :
    s.ngTcpStreamSearch sip dip sport dport = some (p, x) := by
  have hlisten :
      NodeList.first ((p, x) :: t) (fun iter => iter.dport = dport ∧ iter.status = .listen)
        = some (p, x) := NodeList.first_cons_of_pos ⟨hdport, hstatus⟩
  unfold ngTcpStreamSearch
  rw [htcbSet, hlisten]
  by_cases hself : x.sip = sip ∧ x.dip = dip ∧ x.sport = sport ∧ x.dport = dport
  · rw [NodeList.first_cons_of_pos (P := fun iter : TcpStream => iter.sip = sip ∧ iter.dip = dip
      ∧ iter.sport = sport ∧ iter.dport = dport) hself]
    rfl
  · rw [NodeList.first_cons_of_neg (P := fun iter : TcpStream => iter.sip = sip ∧ iter.dip = dip
      ∧ iter.sport = sport ∧ iter.dport = dport) hself, NodeList.first_eq_none.mpr hnone]
    rfl

/-- A table with one stream more is another. -/
theorem not_perm_cons (q : Ptr) (y : TcpStream) (t : NodeList TcpStream) :
    ¬ List.Perm ((q, y) :: t) t := fun hperm => (Nat.succ_ne_self _) hperm.length_eq

/-- **A failed open never leaves the table alone.** Without memory for the stream the
program stops. Without memory for the SYN-ACK, half a stream is the first in the table; it
is what is accepted next on the port, and what every segment to the port goes to that
does not belong to another stream. -/
theorem failed_open (hcksum : seg.cksumOk = true) (hdispatch : s.Dispatches seg p x)
    (hstatus : x.status = .listen) (hsyn : seg.Has RTE_TCP_SYN_FLAG)
    (hfail : env.malloc 0 = false ∨ env.malloc 1 = false) :
    ¬ s.LeavesTable seg env
    ∧ (env.malloc 0 = false → s.ngTcpProcess seg env = .error .null)
    ∧ (env.malloc 0 = true → ∃ s' half, s.ngTcpProcess seg env = .ok (0, s')
      ∧ half = halfOpenedStream seg env.iss env.garbage ∧ s'.tcbSet = (s.next, half) :: s.tcbSet
      ∧ s'.getAcceptTcb seg.dstPort = some (s.next, half)
      ∧ ∀ sip dip sport, (∀ y ∈ s.tcbSet, ¬ (y.2.sip = sip ∧ y.2.dip = dip ∧ y.2.sport = sport
          ∧ y.2.dport = seg.dstPort)) →
        s'.ngTcpStreamSearch sip dip sport seg.dstPort = some (s.next, half)) := by
  have hhalf : env.malloc 0 = true → s.ngTcpProcess seg env = .ok (0, { s with
      tcbSet := (s.next, halfOpenedStream seg env.iss env.garbage) :: s.tcbSet
      next := s.next + 1 }) :=
    fun h0 => ngTcpProcess_half hcksum hdispatch hstatus hsyn h0
      (hfail.resolve_left (by rw [h0]; decide))
  refine ⟨?_, ngTcpProcess_null hcksum hdispatch hstatus hsyn, fun h0 => ?_⟩
  · rintro ⟨ret, s', hok, hperm⟩
    cases h0 : env.malloc 0 with
    | false => cases (ngTcpProcess_null hcksum hdispatch hstatus hsyn h0).symm.trans hok
    | true =>
      obtain ⟨-, rfl⟩ := Prod.mk.inj (Except.ok.inj ((hhalf h0).symm.trans hok))
      exact not_perm_cons _ _ _ hperm
  · refine ⟨_, _, hhalf h0, rfl, rfl, NodeList.first_cons_of_pos ⟨rfl, rfl⟩, ?_⟩
    exact fun sip dip sport hnone => search_of_first rfl rfl rfl hnone

set_option maxRecDepth 8000 in
/-- A listener, and a SYN that there is no memory to answer. -/
theorem failed_open_listens :
    ∃ outs s, tcpMachine.run init listens = some (outs, s)
      ∧ ¬ s.LeavesTable (peerSegment RTE_TCP_SYN_FLAG 500 0 []) ⟨fun i => i ≠ 1, 1000, 0⟩ := by
  obtain ⟨outs, s, x, hrun, hdispatch, hstatus⟩ :
      ∃ outs s x, tcpMachine.run init listens = some (outs, s)
      ∧ s.Dispatches (peerSegment RTE_TCP_SYN_FLAG 500 0 []) 1 x ∧ x.status = .listen :=
    ⟨_, _, _, rfl, rfl, rfl⟩
  exact ⟨outs, s, hrun, (failed_open rfl hdispatch hstatus (by decide) (Or.inr rfl)).1⟩

set_option maxRecDepth 8000 in
/-- There is half a stream in the table that was not there before. -/
theorem not_failed_open :
    ¬ ∀ log s, tcpMachine.Reach (fun _ _ => True) init log s →
      ∀ (seg : TcpSegment) (env : SegmentEnv) p x, seg.cksumOk = true → s.Dispatches seg p x →
        x.status = .listen → seg.Has RTE_TCP_SYN_FLAG →
        env.malloc 0 = false ∨ env.malloc 1 = false → s.LeavesTable seg env := by
  intro h
  obtain ⟨outs, s, x, s', y, hrun, hdispatch, hstatus, hok, htcbSet⟩ :
      ∃ outs s x s' y, tcpMachine.run init listens = some (outs, s)
      ∧ s.Dispatches (peerSegment RTE_TCP_SYN_FLAG 500 0 []) 1 x ∧ x.status = .listen
      ∧ s.ngTcpProcess (peerSegment RTE_TCP_SYN_FLAG 500 0 []) ⟨fun i => i ≠ 1, 1000, 0⟩
        = .ok (0, s')
      ∧ s'.tcbSet = (s.next, y) :: s.tcbSet :=
    ⟨_, _, _, _, _, rfl, rfl, rfl, rfl, rfl⟩
  obtain ⟨ret, s'', hok', hperm⟩ := h _ s (Machine.Reach.of_run hrun) _
    ⟨fun i => i ≠ 1, 1000, 0⟩ 1 x rfl hdispatch hstatus (by decide) (Or.inr rfl)
  obtain ⟨-, rfl⟩ := Prod.mk.inj (Except.ok.inj (hok.symm.trans hok'))
  rw [htcbSet] at hperm
  exact not_perm_cons _ _ _ hperm

end Open

end Stack

end Ustack
