import LinuxLearn.UstackSequence

/-!
# What a stream has received

The other number of a stream, `rcv_nxt`, starts behind the peer's SYN and
is advanced by the length of every payload that is put into the ring – but
only a segment with PSH has its payload put there. The payload of another
is neither acknowledged nor delivered, while the peer has sent it
(`acknowledged_iff`). The number of a segment is not looked at.
-/

namespace Ustack

/-- **What the peer has sent** while the stream was established. -/
def arrivedIn (h : List StreamNote) : List UInt8 :=
  h.flatMap (fun n => match n with
    | .taken seg => seg.payload
    | _ => [])

/-- What it has sent with PSH. -/
def pushedIn (h : List StreamNote) : List UInt8 :=
  h.flatMap (fun n => match n with
    | .taken seg => if seg.Has RTE_TCP_PSH_FLAG then seg.payload else []
    | _ => [])

/-- **What was put into the ring that is received from.** -/
def filledIn (h : List StreamNote) : List UInt8 :=
  h.flatMap (fun n => match n with
    | .filled f => f.payload
    | _ => [])

/-- **All that has arrived is acknowledged and delivered**: the number is behind
all of it, an ACK with this number was put into the ring, and the other ring got
all of it. -/
structure Acknowledged (isn : UInt32) (h : List StreamNote) (x : TcpStream) : Prop where
  rcvNxt : x.rcvNxt = isn + 1 + UInt32.ofNat (arrivedIn h).length
  ack : ∃ f ∈ queuedIn h, f.Has RTE_TCP_ACK_FLAG
    ∧ f.acknum = isn + 1 + UInt32.ofNat (arrivedIn h).length
  delivered : filledIn h = arrivedIn h

/-- **Segments come in order**, without gaps. -/
def InOrder : UInt32 → List StreamNote → Prop
  | _, [] => True
  | next, .taken seg :: h =>
    seg.sentSeq = next ∧ InOrder (next + UInt32.ofNat seg.payload.length) h
  | next, _ :: h => InOrder next h

/-- What was received with PSH, and what came of it. -/
structure Pushed (isn : UInt32) (h : List StreamNote) (x : TcpStream) : Prop where
  rcvNxt : x.rcvNxt = isn + 1 + UInt32.ofNat (pushedIn h).length
  ack : ∃ f ∈ queuedIn h, f.Has RTE_TCP_ACK_FLAG ∧ f.acknum = x.rcvNxt
  delivered : filledIn h = pushedIn h

section History

variable {h h' : List StreamNote}

theorem pushedIn_append (h h' : List StreamNote) : pushedIn (h ++ h') = pushedIn h ++ pushedIn h' :=
  List.flatMap_append

theorem filledIn_append (h h' : List StreamNote) : filledIn (h ++ h') = filledIn h ++ filledIn h' :=
  List.flatMap_append

/-- A segment with a payload has PSH. -/
def AllPushed (h : List StreamNote) : Prop :=
  ∀ seg, .taken seg ∈ h → seg.payload ≠ [] → seg.Has RTE_TCP_PSH_FLAG

theorem allPushed_cons {n : StreamNote} :
    AllPushed (n :: h) ↔ (∀ seg, n = .taken seg → seg.payload ≠ [] → seg.Has RTE_TCP_PSH_FLAG)
      ∧ AllPushed h := by
  unfold AllPushed
  simp only [List.mem_cons]
  constructor
  · exact fun hall => ⟨fun seg hn => hall seg (Or.inl hn.symm), fun seg hmem => hall seg (Or.inr hmem)⟩
  · rintro ⟨hn, hall⟩ seg (heq | hmem)
    · exact hn seg heq.symm
    · exact hall seg hmem

/-- At most what has arrived has PSH. -/
theorem length_pushedIn_le (h : List StreamNote) : (pushedIn h).length ≤ (arrivedIn h).length := by
  induction h with
  | nil => exact le_rfl
  | cons n h ih =>
    cases n with
    | taken seg =>
      show ((if seg.Has RTE_TCP_PSH_FLAG then seg.payload else []) ++ pushedIn h).length
        ≤ (seg.payload ++ arrivedIn h).length
      rw [List.length_append, List.length_append]
      split
      · exact Nat.add_le_add_left ih _
      · exact Nat.add_le_add (Nat.zero_le _) ih
    | _ => exact ih

/-- **All of it has, if all segments have.** -/
theorem pushedIn_eq_iff : pushedIn h = arrivedIn h ↔ AllPushed h := by
  induction h with
  | nil =>
    refine ⟨fun _ seg hmem => absurd hmem List.not_mem_nil, fun _ => rfl⟩
  | cons n h ih =>
    rw [allPushed_cons, ← ih]
    cases n with
    | taken seg =>
      show (if seg.Has RTE_TCP_PSH_FLAG then seg.payload else []) ++ pushedIn h
        = seg.payload ++ arrivedIn h ↔ _
      constructor
      · intro heq
        split at heq
        · next hpsh =>
          refine ⟨?_, List.append_cancel_left heq⟩
          rintro _ ⟨⟩ -
          exact hpsh
        · have hlength := congrArg List.length heq
          rw [List.length_append, List.length_append, List.length_nil] at hlength
          have hle := length_pushedIn_le h
          have hnil : seg.payload = [] := List.eq_nil_of_length_eq_zero (by omega)
          refine ⟨?_, ?_⟩
          · rintro _ ⟨⟩ hne
            exact absurd hnil hne
          · rwa [hnil] at heq
      · rintro ⟨hpsh, heq⟩
        rw [heq]
        split
        · rfl
        · next hnot =>
          rw [not_not.mp (fun hne => hnot (hpsh seg rfl hne))]
    | _ =>
      refine (and_iff_right ?_).symm
      rintro _ ⟨⟩

/-- **All is acknowledged and delivered, if all segments have PSH.** -/
theorem Pushed.acknowledged_iff_allPushed {isn : UInt32} {x : TcpStream} (hpushed : Pushed isn h x) :
    Acknowledged isn h x ↔ AllPushed h := by
  rw [← pushedIn_eq_iff]
  constructor
  · exact fun hacked => hpushed.delivered.symm.trans hacked.delivered
  · intro heq
    obtain ⟨hrcvNxt, hack, hdelivered⟩ := hpushed
    rw [hrcvNxt] at hack
    rw [heq] at hrcvNxt hack hdelivered
    exact ⟨hrcvNxt, hack, hdelivered⟩

end History

/-! ## What one event does -/

section Grown

variable {x : TcpStream} {rings : List TcpFragment × List TcpFragment}

theorem pushedIn_grown (x : TcpStream) (rings : List TcpFragment × List TcpFragment) :
    pushedIn (x.grown rings) = [] := by
  unfold pushedIn TcpStream.grown
  rw [List.flatMap_append, List.flatMap_map, List.flatMap_map]
  simp

theorem filledIn_grown (x : TcpStream) (rings : List TcpFragment × List TcpFragment) :
    filledIn (x.grown rings) = (x.rcvbuf.drop rings.1.length).flatMap TcpFragment.payload := by
  unfold filledIn TcpStream.grown
  rw [List.flatMap_append, List.flatMap_map, List.flatMap_map]
  simp

/-- Nothing is put into a ring that is no longer than it was. -/
theorem filledIn_grown_of_le (h : x.rcvbuf.length ≤ rings.1.length) :
    filledIn (x.grown rings) = [] := by
  rw [filledIn_grown, List.drop_of_length_le h]
  rfl

end Grown

/-- **A well-formed segment**, as far as its lengths go. -/
structure TcpSegment.Fits (seg : TcpSegment) : Prop where
  five_le : 5 ≤ seg.hdrlen
  hdrlen_le : seg.hdrlen * 4 ≤ seg.tcplen
  tcplen_le : seg.tcplen ≤ seg.mem.length

namespace TcpSegment

variable {seg : TcpSegment}

instance (seg : TcpSegment) : Decidable seg.Fits :=
  decidable_of_iff (5 ≤ seg.hdrlen ∧ (seg.hdrlen * 4 : ℤ) ≤ seg.tcplen ∧ seg.tcplen ≤ seg.mem.length)
    ⟨fun h => ⟨h.1, h.2.1, h.2.2⟩, fun h => ⟨h.five_le, h.hdrlen_le, h.tcplen_le⟩⟩

theorem Fits.length_payload (h : seg.Fits) : (seg.payload.length : ℤ) = seg.payloadlen := by
  have hle := h.hdrlen_le
  have hmem := h.tcplen_le
  unfold payload payloadlen
  rw [List.length_take, List.length_drop]
  omega

/-- What is put into the ring is the payload. -/
theorem Fits.payload_received (h : seg.Fits) :
    (receivedFragment seg seg.tcplen).payload = seg.payload := by
  have hlength := h.length_payload
  unfold receivedFragment TcpFragment.payload
  simp only
  show (Option.getD (if 0 < seg.payloadlen then some (seg.payload ++ [0]) else none) []).take
    seg.payloadlen.toNat = seg.payload
  split
  · exact List.take_left' (by omega)
  · have hnil : seg.payload = [] := List.eq_nil_of_length_eq_zero (by omega)
    rw [hnil]
    exact List.take_nil

end TcpSegment

namespace Stack

section Delivery

variable {s s' : Stack} {e : Event} {p : Ptr} {x x' : TcpStream} {notes : List StreamNote}

/-- **What is assumed of the segments that a stream takes in**: they are data
segments, well formed, and there is memory and room for what they bring. -/
def Feeds (p : Ptr) (s : Stack) : Event → Prop
  | .segment seg env =>
    match s.ngTcpStreamSearch seg.srcAddr seg.dstAddr seg.srcPort seg.dstPort with
    | some (q, x) => q = p → seg.cksumOk = true → x.status = .established →
      seg.Has RTE_TCP_ACK_FLAG ∧ ¬ seg.Has RTE_TCP_SYN_FLAG ∧ ¬ seg.Has RTE_TCP_FIN_FLAG ∧ seg.Fits
        ∧ (env.malloc 0 = true ∧ env.malloc 1 = true ∧ env.malloc 2 = true)
        ∧ x.rcvbuf.length < RING_SIZE - 1 ∧ x.sndbuf.length < RING_SIZE - 1
    | none => True
  | _ => True

instance (p : Ptr) (s : Stack) (e : Event) : Decidable (Feeds p s e) := by
  unfold Feeds
  split
  · split <;> infer_instance
  · infer_instance

theorem Feeds.of_dispatches {seg : TcpSegment} {env : SegmentEnv} (h : Feeds p s (.segment seg env))
    (hcksum : seg.cksumOk = true) (hdispatch : s.Dispatches seg p x)
    (hstatus : x.status = .established) :
    ¬ seg.Has RTE_TCP_FIN_FLAG ∧ seg.Fits
      ∧ (env.malloc 0 = true ∧ env.malloc 1 = true ∧ env.malloc 2 = true)
      ∧ x.rcvbuf.length < RING_SIZE - 1 ∧ x.sndbuf.length < RING_SIZE - 1 := by
  unfold Feeds at h
  simp only at h
  rw [hdispatch] at h
  exact (h rfl hcksum hstatus).2.2

/-- **What an event does to a stream that is fed**: it advances by what had PSH,
which is put into its ring, and an ACK says so. -/
structure Advances (x : TcpStream) (out : List StreamNote) (x' : TcpStream) : Prop where
  rcvNxt : x'.rcvNxt = x.rcvNxt + UInt32.ofNat (pushedIn out).length
  delivered : filledIn out = pushedIn out
  ack : x'.rcvNxt = x.rcvNxt
    ∨ ∃ f ∈ queuedIn out, f.Has RTE_TCP_ACK_FLAG ∧ f.acknum = x'.rcvNxt

/-- An event that puts nothing into the ring. -/
theorem Advances.still (hrcvNxt : x'.rcvNxt = x.rcvNxt) (hrcvbuf : x'.rcvbuf.length ≤ x.rcvbuf.length)
    (hpushed : pushedIn notes = []) (hfilled : filledIn notes = []) :
    Advances x (notes ++ x'.grown (x.rcvbuf, x.sndbuf)) x' := by
  have hpushed' : pushedIn (notes ++ x'.grown (x.rcvbuf, x.sndbuf)) = [] := by
    rw [pushedIn_append, hpushed, pushedIn_grown, List.append_nil]
  have hfilled' : filledIn (notes ++ x'.grown (x.rcvbuf, x.sndbuf)) = [] := by
    rw [filledIn_append, hfilled, filledIn_grown_of_le hrcvbuf, List.append_nil]
  refine ⟨?_, hfilled'.trans hpushed'.symm, Or.inl hrcvNxt⟩
  rw [hpushed', hrcvNxt]
  exact (UInt32.add_zero _).symm

theorem ackFragment_has_ack (seg : TcpSegment) (seqnum acknum : UInt32) :
    (ackFragment seg seqnum acknum).Has RTE_TCP_ACK_FLAG := by
  show RTE_TCP_ACK_FLAG &&& RTE_TCP_ACK_FLAG ≠ 0
  decide

/-- **A PSH.** -/
theorem Advances.push {seg : TcpSegment} {malloc : ℕ → Bool} (hpsh : seg.Has RTE_TCP_PSH_FLAG)
    (hfits : seg.Fits) (hmalloc : malloc 0 = true ∧ malloc 1 = true ∧ malloc 2 = true)
    (hrcvbuf : x.rcvbuf.length < RING_SIZE - 1)
    (hsndbuf : x.sndbuf.length < RING_SIZE - 1) :
    Advances x ([.taken seg]
        ++ (x.advance seg seg.tcplen (UInt32.ofInt seg.payloadlen) malloc).grown (x.rcvbuf, x.sndbuf))
      (x.advance seg seg.tcplen (UInt32.ofInt seg.payloadlen) malloc) := by
  have hadvance : x.advance seg seg.tcplen (UInt32.ofInt seg.payloadlen) malloc
      = { x with
        rcvbuf := x.rcvbuf ++ [receivedFragment seg seg.tcplen]
        sndbuf := x.sndbuf
          ++ [ackFragment seg seg.recvAck (x.rcvNxt + UInt32.ofInt seg.payloadlen)]
        rcvNxt := x.rcvNxt + UInt32.ofInt seg.payloadlen
        sndNxt := seg.recvAck } := by
    unfold TcpStream.advance
    rw [if_pos hmalloc.2.2, if_pos ⟨hmalloc.1, fun _ => hmalloc.2.1⟩, ringEnqueue_of_lt hrcvbuf,
      ringEnqueue_of_lt hsndbuf]
  have hpushed : pushedIn ([.taken seg]
      ++ (x.advance seg seg.tcplen (UInt32.ofInt seg.payloadlen) malloc).grown (x.rcvbuf, x.sndbuf))
      = seg.payload := by
    rw [pushedIn_append, pushedIn_grown, List.append_nil]
    show (if seg.Has RTE_TCP_PSH_FLAG then seg.payload else []) ++ [] = _
    rw [if_pos hpsh, List.append_nil]
  refine ⟨?_, ?_, Or.inr ⟨ackFragment seg seg.recvAck (x.rcvNxt + UInt32.ofInt seg.payloadlen), ?_,
    ackFragment_has_ack _ _ _, ?_⟩⟩
  · rw [hpushed, hadvance, ← ofInt_natCast, hfits.length_payload]
  · rw [hpushed, hadvance]
    rw [filledIn_append, filledIn_grown]
    show [] ++ ((x.rcvbuf ++ [receivedFragment seg seg.tcplen]).drop x.rcvbuf.length).flatMap
      TcpFragment.payload = _
    rw [List.drop_left, List.nil_append, List.flatMap_singleton, hfits.payload_received]
  · rw [hadvance, queuedIn_append, queuedIn_grown]
    refine List.mem_append_right _ ?_
    show _ ∈ (x.sndbuf ++ [_]).drop x.sndbuf.length
    rw [List.drop_left]
    exact List.mem_singleton_self _
  · rw [hadvance]
    rfl

/-- **Every event does so.** -/
theorem Evolves.advances (hevolves : Evolves s p x e notes x') (hfeeds : Feeds p s e) :
    Advances x (notes ++ x'.grown (x.rcvbuf, x.sndbuf)) x' := by
  cases hevolves with
  | bind hhost => exact .still rfl le_rfl rfl rfl
  | listen hhost => exact .still rfl le_rfl rfl rfl
  | accept hhost htarget => exact .still rfl le_rfl rfl rfl
  | send hhost hle => exact .still rfl le_rfl rfl rfl
  | recv hhost hlength => exact .still rfl hlength rfl rfl
  | close hhost hnonneg hstatus => exact .still rfl le_rfl rfl rfl
  | handshake hcksum hdispatch hstatus hack => exact .still rfl le_rfl rfl rfl
  | @ignore seg env hcksum hdispatch hstatus hpsh hfin =>
    refine .still rfl le_rfl ?_ rfl
    show (if seg.Has RTE_TCP_PSH_FLAG then seg.payload else []) ++ [] = _
    rw [if_neg hpsh, List.append_nil]
  | push hcksum hdispatch hstatus hpsh hfin =>
    obtain ⟨-, hfits, hmalloc, hrcvbuf, hsndbuf⟩ := hfeeds.of_dispatches hcksum hdispatch hstatus
    exact .push hpsh hfits hmalloc hrcvbuf hsndbuf
  | fin hcksum hdispatch hstatus hpsh hfin =>
    exact absurd hfin (hfeeds.of_dispatches hcksum hdispatch hstatus).1
  | pushFin hcksum hdispatch hstatus hpsh hfin =>
    exact absurd hfin (hfeeds.of_dispatches hcksum hdispatch hstatus).1

/-! ## Runs -/

theorem Advances.pushed {isn : UInt32} {h out : List StreamNote} (hadvances : Advances x out x')
    (hpushed : Pushed isn h x) : Pushed isn (h ++ out) x' := by
  refine ⟨?_, ?_, ?_⟩
  · rw [hadvances.rcvNxt, hpushed.rcvNxt, pushedIn_append, List.length_append, UInt32.ofNat_add,
      UInt32.add_assoc]
  · rw [queuedIn_append]
    rcases hadvances.ack with hsame | ⟨f, hf, hack⟩
    · obtain ⟨f, hf, hack⟩ := hpushed.ack
      exact ⟨f, List.mem_append_left _ hf, hsame ▸ hack⟩
    · exact ⟨f, List.mem_append_right _ hf, hack⟩
  · rw [filledIn_append, pushedIn_append, hpushed.delivered, hadvances.delivered]

/-- Sending changes nothing of what was received. -/
theorem out_advances (x : TcpStream) (macaddr : UInt32 → Option Mac) (p : Ptr) :
    Advances x (((x.out macaddr p).1.filterMap OutPacket.sent?).map Prod.snd)
      (x.out macaddr p).2 := by
  unfold TcpStream.out
  split
  · exact ⟨(UInt32.add_zero _).symm, rfl, Or.inl rfl⟩
  · split
    · exact ⟨(UInt32.add_zero _).symm, rfl, Or.inl rfl⟩
    · exact ⟨(UInt32.add_zero _).symm, rfl, Or.inl rfl⟩

/-- **What a stream opened by a SYN has received** is what had PSH. -/
def Fed (h : List StreamNote) (o : Option TcpStream) : Prop :=
  ∀ syn iss rest x, queuedIn h = synAckFragment syn iss :: rest → o = some x →
    Pushed syn.sentSeq h x

/-- More is noted of a stream, but no SYN-ACK. -/
theorem Fed.append {h out : List StreamNote} (hfed : Fed h (some x)) (hadvances : Advances x out x')
    (hsyn : ∀ f ∈ queuedIn out, ¬ f.Has RTE_TCP_SYN_FLAG) : Fed (h ++ out) (some x') := by
  rintro syn iss rest _ hfirst ⟨⟩
  rw [queuedIn_append] at hfirst
  cases hqueued : queuedIn h with
  | nil =>
    rw [hqueued, List.nil_append] at hfirst
    have hmem : synAckFragment syn iss ∈ queuedIn out := by
      rw [hfirst]
      exact List.mem_cons_self
    exact absurd (synAckFragment_has syn iss).1 (hsyn _ hmem)
  | cons f fs =>
    rw [hqueued] at hfirst
    obtain ⟨rfl, -⟩ := List.cons.inj hfirst
    exact hadvances.pushed (hfed syn iss fs x hqueued rfl)

/-- **Whatever becomes of a stream**, it stays so. -/
theorem Becomes.fed {o o' : Option TcpStream} {h out : List StreamNote}
    (hbecomes : Becomes s e p o out o') (hnew : s.next ≤ p → h = []) (hfeeds : Feeds p s e)
    (hfed : Fed h o) : Fed (h ++ out) o' := by
  cases hbecomes with
  | absent => exact fun _ _ _ _ _ hx => nomatch hx
  | stays x =>
    rw [List.append_nil]
    exact hfed
  | evolves hevolves =>
    exact hfed.append (hevolves.advances hfeeds) hevolves.not_syn
  | born hp hborn =>
    obtain rfl := hnew hp.ge
    cases hborn with
    | made => exact fun _ _ _ _ hfirst _ => nomatch hfirst
    | halfOpened hcksum hdispatch hstatus hsyn hmalloc => exact fun _ _ _ _ hfirst _ => nomatch hfirst
    | @opened seg env q listener hcksum hdispatch hstatus hsyn hmalloc =>
      rintro syn iss rest _ hfirst ⟨⟩
      have hfirst : [synAckFragment seg env.iss] = synAckFragment syn iss :: rest := hfirst
      have hacknum : seg.sentSeq + 1 = syn.sentSeq + 1 :=
        congrArg TcpFragment.acknum (List.cons.inj hfirst).1
      have hrcvNxt : (openedStream seg env.iss).rcvNxt = syn.sentSeq + 1 := hacknum
      refine ⟨hrcvNxt.trans (UInt32.add_zero _).symm, ?_, rfl⟩
      exact ⟨_, List.mem_singleton_self _, (synAckFragment_has seg env.iss).2, rfl⟩
  | removed hstatus => exact fun _ _ _ _ _ hx => nomatch hx
  | @out x macaddr he =>
    refine hfed.append (out_advances x macaddr p) (fun f hf => ?_)
    rw [(sent_carries x macaddr p 0).2.2] at hf
    exact absurd hf List.not_mem_nil

/-- **What has arrived is acknowledged and delivered exactly if all payloads came
with PSH**, in every run, for every stream opened by a SYN that takes in data
segments only. -/
theorem acknowledged_iff {log : List TcpNote} (hreach : tcpMachine.Reach (Feeds p) init log s)
    {syn : TcpSegment} {iss : UInt32} {rest : List TcpFragment}
    (hfirst : queuedIn (history p log) = synAckFragment syn iss :: rest)
    (hx : s.stream? p = some x) :
    Acknowledged syn.sentSeq (history p log) x ↔ AllPushed (history p log) := by
  have hfed : ∀ q, q = p → Fed (history q log) (s.stream? q) := by
    refine reach_stream (I := fun q log o => q = p → Fed (history q log) o) ?_ ?_ hreach
    · exact fun _ _ _ _ _ _ hfirst _ => nomatch hfirst
    · rintro log s e s' q hallotted hnew hfeeds hbecomes hfed rfl
      rw [history_append]
      exact hbecomes.fed hnew hfeeds (hfed rfl)
  exact (hfed p rfl syn iss rest x hfirst hx).acknowledged_iff_allPushed

set_option maxRecDepth 8000 in
/-- Two segments with PSH, of which the stream has received all. -/
theorem acknowledged_iff_pushed :
    ∃ log s x, tcpMachine.Reach (Feeds 3) init log s ∧ s.stream? 3 = some x
      ∧ arrivedIn (history 3 log) = [104, 105, 33] ∧ Acknowledged 500 (history 3 log) x := by
  obtain ⟨outs, s, hrun, x, hx, rest, hfirst, harrived, htaken⟩ :
      ∃ outs s, (tcpMachine.guard (Feeds 3)).run init (connects ++
        [.segment (peerSegment (RTE_TCP_PSH_FLAG ||| RTE_TCP_ACK_FLAG) 501 1001 [104, 105]) peerEnv,
          .segment (peerSegment (RTE_TCP_PSH_FLAG ||| RTE_TCP_ACK_FLAG) 503 1001 [33]) peerEnv])
        = some (outs, s)
      ∧ ∃ x, s.stream? 3 = some x ∧ ∃ rest, queuedIn (history 3 outs.flatten)
        = synAckFragment (peerSegment RTE_TCP_SYN_FLAG 500 0 []) 1000 :: rest
      ∧ arrivedIn (history 3 outs.flatten) = [104, 105, 33]
      ∧ pushedIn (history 3 outs.flatten) = [104, 105, 33] :=
    ⟨_, _, rfl, _, rfl, _, rfl, rfl, rfl⟩
  have hreach := Machine.Reach.of_run_guard hrun
  refine ⟨outs.flatten, s, x, hreach, hx, harrived, ?_⟩
  exact (acknowledged_iff hreach hfirst hx).mpr (pushedIn_eq_iff.mp (htaken.trans harrived.symm))

set_option maxRecDepth 8000 in
/-- A payload without PSH is neither acknowledged nor delivered. -/
theorem not_acknowledged :
    ¬ ∀ p log s, tcpMachine.Reach (Feeds p) init log s → ∀ syn iss rest x,
      queuedIn (history p log) = synAckFragment syn iss :: rest → s.stream? p = some x →
      x.status = .established → InOrder (syn.sentSeq + 1) (history p log) →
      Acknowledged syn.sentSeq (history p log) x := by
  intro h
  obtain ⟨outs, s, hrun, x, hx, rest, hfirst, hstatus, hinOrder, harrived, hfilled⟩ :
      ∃ outs s, (tcpMachine.guard (Feeds 3)).run init (connects ++
        [.segment (peerSegment RTE_TCP_ACK_FLAG 501 1001 [104, 105]) peerEnv]) = some (outs, s)
      ∧ ∃ x, s.stream? 3 = some x ∧ ∃ rest, queuedIn (history 3 outs.flatten)
        = synAckFragment (peerSegment RTE_TCP_SYN_FLAG 500 0 []) 1000 :: rest
      ∧ x.status = .established ∧ InOrder 501 (history 3 outs.flatten)
      ∧ arrivedIn (history 3 outs.flatten) = [104, 105] ∧ filledIn (history 3 outs.flatten) = [] :=
    ⟨_, _, rfl, _, rfl, _, rfl, rfl, by exact And.intro rfl trivial, rfl, rfl⟩
  have hacked := h 3 outs.flatten s (Machine.Reach.of_run_guard hrun) _ _ rest x hfirst hx hstatus
    hinOrder
  have hdelivered := hacked.delivered
  rw [harrived, hfilled] at hdelivered
  cases hdelivered

end Delivery

end Stack

end Ustack
