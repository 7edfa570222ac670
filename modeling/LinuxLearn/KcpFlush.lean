import LinuxLearn.KcpCalls

/-!
# What is sent and read back

`ikcp_flush` packs segments into datagrams: acknowledgements, probes, and segments of the
send buffer. Whatever putting one of them into the buffer keeps, the whole flush keeps
(`flushing_box`). So the datagrams are these segments, whole and in their order
(`ikcpFlush_sends`), and on the other side `ikcp_input` takes in exactly these
(`ikcpInput_datagram`).
-/

namespace Kcp

variable {kcp : Ikcpcb} {seg : Ikcpseg} {mtu : UInt32} {box : Outbox}

/-! ## What a flush puts into the buffer -/

/-- **A segment that a flush sends.** -/
inductive Ikcpcb.Puts (kcp : Ikcpcb) : Ikcpseg → Prop
  | ack {sn ts : UInt32} (h : (sn, ts) ∈ kcp.acklist) : Puts kcp { flushSeg kcp with sn := sn, ts := ts }
  | probe {cmd sn ts : UInt32} (h : cmd = IKCP_CMD_WASK ∨ cmd = IKCP_CMD_WINS) :
    Puts kcp { flushSeg kcp with cmd := cmd, sn := sn, ts := ts }
  | push {seg seg' : Ikcpseg} (h : seg ∈ kcp.admitted.sndBuf) (hcore : seg'.core = seg.core)
    (huna : seg'.una = kcp.rcvNxt) : Puts kcp seg'

/-- **Filling the window** changes the queue and the buffer of the sender. -/
theorem admitted_eq (kcp : Ikcpcb) : ∃ wait ts nQue nBuf nxt queue buf, kcp.admitted
    = { kcp with
        acklist := []
        probe := 0
        probeWait := wait
        tsProbe := ts
        nsndQue := nQue
        nsndBuf := nBuf
        sndNxt := nxt
        sndQueue := queue
        sndBuf := buf } := by
  refine admitSegments_invariant (P := fun k => ∃ wait ts nQue nBuf nxt queue buf, k = { kcp with
      acklist := [], probe := 0, probeWait := wait, tsProbe := ts, nsndQue := nQue,
      nsndBuf := nBuf, sndNxt := nxt, sndQueue := queue, sndBuf := buf }) ?_ ?_
  · rintro k seg queue - - ⟨wait, ts, nQue, nBuf, nxt, _, buf, rfl⟩
    exact ⟨_, _, _, _, _, _, _, rfl⟩
  · obtain ⟨wait, ts, probe, heq⟩ := probeWindow_eq { kcp with acklist := [] }
    unfold Ikcpcb.started
    rw [heq]
    exact ⟨_, _, _, _, _, _, _, rfl⟩

theorem started_mtu (kcp : Ikcpcb) : (probeWindow { kcp with acklist := [] }).mtu = kcp.mtu := by
  obtain ⟨wait, ts, probe, heq⟩ := probeWindow_eq { kcp with acklist := [] }
  rw [heq]

/-- The acknowledgements that are due, in their order. -/
def Ikcpcb.ackSegs (kcp : Ikcpcb) : List Ikcpseg :=
  kcp.acklist.map (fun ack => { flushSeg kcp with sn := ack.1, ts := ack.2 })

/-- The probes that are asked for: for the window of the other side, and with the one of this. -/
def Ikcpcb.probeSegs (kcp : Ikcpcb) : List Ikcpseg :=
  let asking := probeWindow { kcp with acklist := [] }
  (if asking.probe &&& IKCP_ASK_SEND ≠ 0 then [{ kcp.ackSeg with cmd := IKCP_CMD_WASK }] else [])
    ++ if asking.probe &&& IKCP_ASK_TELL ≠ 0 then [{ kcp.ackSeg with cmd := IKCP_CMD_WINS }] else []

/-- A segment of the send buffer as it is sent, if it is due. -/
def Ikcpcb.dueSeg (kcp : Ikcpcb) (seg : Ikcpseg) : Option Ikcpseg :=
  (seg.due kcp.admitted kcp.admitted.resent kcp.admitted.rtomin).map (fun p =>
    { p.2 with ts := kcp.admitted.current, wnd := kcp.ackSeg.wnd, una := kcp.admitted.rcvNxt })

/-- **All the segments that a flush sends**, in their order. -/
def Ikcpcb.sends (kcp : Ikcpcb) : List Ikcpseg :=
  kcp.ackSegs ++ kcp.probeSegs ++ kcp.admitted.sndBuf.filterMap kcp.dueSeg

section

variable {R : Outbox → List Ikcpseg → Prop} {segs : List Ikcpseg}

/-- The acknowledgements are put one after another. -/
theorem flushAcks_invariant :
    ∀ (acks : List (UInt32 × UInt32)) {box : Outbox} {seg : Ikcpseg} {segs : List Ikcpseg},
      (∀ box segs sn ts, (sn, ts) ∈ acks → R box segs →
        R (box.put mtu { seg with sn := sn, ts := ts }) (segs ++ [{ seg with sn := sn, ts := ts }])) →
      R box segs → R (flushAcks mtu acks box seg).1
        (segs ++ acks.map (fun ack => { seg with sn := ack.1, ts := ack.2 })) := by
  intro acks
  induction acks with
  | nil =>
    intro box seg segs _ h
    show R box (segs ++ [])
    rwa [List.append_nil]
  | cons ack acks ih =>
    intro box seg segs hput h
    have hone := hput box segs ack.1 ack.2 List.mem_cons_self h
    have hrest := @ih _ { seg with sn := ack.1, ts := ack.2 } _
      (fun box' segs' sn ts hmem => hput box' segs' sn ts (List.mem_cons_of_mem _ hmem)) hone
    rw [List.append_assoc] at hrest
    exact hrest

/-- **What every segment that a flush sends keeps**, the flush keeps; the segments are those of
`sends`. -/
theorem flushing_box (hinit : R ⟨[], []⟩ [])
    (hput : ∀ box segs seg, kcp.Puts seg → R box segs → R (box.put kcp.mtu seg) (segs ++ [seg])) :
    R kcp.flushing.box kcp.sends := by
  have hacks : R (flushAcks kcp.mtu kcp.acklist ⟨[], []⟩ (flushSeg kcp)).1 kcp.ackSegs :=
    flushAcks_invariant kcp.acklist (fun box segs sn ts hmem => hput box segs _ (.ack hmem)) hinit
  have hprobe : ∀ (probe ask cmd : UInt32) (box : Outbox) (segs : List Ikcpseg),
      cmd = IKCP_CMD_WASK ∨ cmd = IKCP_CMD_WINS → R box segs →
      R (putProbe kcp.mtu probe ask cmd box kcp.ackSeg)
        (segs ++ if probe &&& ask ≠ 0 then [{ kcp.ackSeg with cmd := cmd }] else []) := by
    intro probe ask cmd box segs hcmd h
    obtain ⟨sn, ts, hseg⟩ := flushAcks_seg kcp.mtu kcp.acklist ⟨[], []⟩ (flushSeg kcp)
    unfold putProbe
    split
    · have hackSeg : kcp.ackSeg = { flushSeg kcp with sn := sn, ts := ts } := hseg
      rw [hackSeg]
      exact hput box segs _ (.probe hcmd) h
    · rwa [List.append_nil]
  have hhead : R kcp.flushHead (kcp.ackSegs ++ kcp.probeSegs) := by
    unfold Ikcpcb.flushHead Ikcpcb.probeSegs
    dsimp only
    rw [started_mtu, ← List.append_assoc]
    exact hprobe _ _ _ _ _ (Or.inr rfl) (hprobe _ _ _ _ _ (Or.inl rfl) hacks)
  -- the loop over the send buffer, from any segments on
  have hadmitted : kcp.admitted.mtu = kcp.mtu ∧ kcp.admitted.rcvNxt = kcp.rcvNxt := by
    obtain ⟨_, _, _, _, _, _, _, heq⟩ := admitted_eq kcp
    rw [heq]
    exact ⟨rfl, rfl⟩
  have hloop : ∀ (buf : List Ikcpseg) (f : Flushing) (segs : List Ikcpseg),
      (∀ seg ∈ buf, seg ∈ kcp.admitted.sndBuf) → R f.box segs →
      R (buf.foldl (Flushing.segment kcp.admitted kcp.ackSeg.wnd kcp.admitted.resent kcp.admitted.rtomin)
        f).box (segs ++ buf.filterMap kcp.dueSeg) := by
    intro buf
    induction buf with
    | nil =>
      intro f segs _ h
      show R f.box (segs ++ [])
      rwa [List.append_nil]
    | cons seg buf ih =>
      intro f segs hmem h
      have hmem' : ∀ seg' ∈ buf, seg' ∈ kcp.admitted.sndBuf :=
        fun seg' hseg' => hmem seg' (List.mem_cons_of_mem _ hseg')
      rw [List.foldl_cons]
      cases hdue : seg.due kcp.admitted kcp.admitted.resent kcp.admitted.rtomin with
      | none =>
        have hnone : kcp.dueSeg seg = none := by
          unfold Ikcpcb.dueSeg
          rw [hdue]
          rfl
        rw [List.filterMap_cons_none hnone]
        refine ih _ segs hmem' ?_
        unfold Flushing.segment
        rw [hdue]
        exact h
      | some p =>
        obtain ⟨cause, seg'⟩ := p
        have hcore : seg'.core = seg.core := core_of_due hdue
        have hsome : kcp.dueSeg seg = some { seg' with
            ts := kcp.admitted.current, wnd := kcp.ackSeg.wnd, una := kcp.admitted.rcvNxt } := by
          unfold Ikcpcb.dueSeg
          rw [hdue]
          rfl
        rw [List.filterMap_cons_some hsome, ← List.singleton_append, ← List.append_assoc]
        refine ih _ _ hmem' ?_
        unfold Flushing.segment
        rw [hdue]
        show R (f.box.put kcp.admitted.mtu _) _
        rw [hadmitted.1]
        exact hput _ _ _ (.push (hmem seg List.mem_cons_self) hcore hadmitted.2) h
  exact hloop kcp.admitted.sndBuf _ _ (fun _ hseg => hseg) hhead

end

/-! ## Datagrams -/

/-- **The buffer holds some segments**, and so does every datagram that was sent; together they
are the given ones. -/
def Outbox.IsOf (segs : List Ikcpseg) (box : Outbox) : Prop :=
  ∃ (outs : List (List Ikcpseg)) (buf : List Ikcpseg), box.out = outs.map datagram
    ∧ box.buffer = datagram buf ∧ (∀ out ∈ outs, out ≠ []) ∧ outs.flatten ++ buf = segs

variable {segs : List Ikcpseg}

theorem Outbox.IsOf.output (h : box.IsOf segs) : ∃ outs : List (List Ikcpseg),
    box.output = ⟨outs.map datagram, []⟩ ∧ (∀ out ∈ outs, out ≠ []) ∧ outs.flatten = segs := by
  obtain ⟨outs, buf, hout, hbuf, hne, hsegs⟩ := h
  unfold Outbox.output
  rw [hbuf, hout]
  cases buf with
  | nil => exact ⟨outs, rfl, hne, by rw [← hsegs, List.append_nil]⟩
  | cons seg buf =>
    have hlong : ¬ (datagram (seg :: buf)).isEmpty := by
      rw [List.isEmpty_iff_length_eq_zero, datagram_cons, List.length_append, length_bytes]
      omega
    rw [if_neg hlong]
    refine ⟨outs ++ [seg :: buf], ?_, fun out hmem => ?_, ?_⟩
    · rw [List.map_append]
      rfl
    · rcases List.mem_append.mp hmem with hmem | hmem
      · exact hne out hmem
      · rw [List.mem_singleton.mp hmem]
        exact List.cons_ne_nil _ _
    · rw [List.flatten_append, List.flatten_singleton]
      exact hsegs

theorem Outbox.IsOf.put (h : box.IsOf segs) (mtu : UInt32) (seg : Ikcpseg) :
    (box.put mtu seg).IsOf (segs ++ [seg]) := by
  unfold Outbox.put
  dsimp only
  split
  · obtain ⟨outs, heq, hne, hsegs⟩ := h.output
    rw [heq]
    refine ⟨outs, [seg], rfl, ?_, hne, by rw [hsegs]⟩
    rw [datagram_cons, datagram_nil, List.append_nil]
    rfl
  · obtain ⟨outs, buf, hout, hbuf, hne, hsegs⟩ := h
    refine ⟨outs, buf ++ [seg], hout, ?_, hne, by rw [← hsegs, List.append_assoc]⟩
    show box.buffer ++ seg.bytes = _
    rw [hbuf, datagram_append, datagram_cons, datagram_nil, List.append_nil]

/-- **The datagrams of a flush are the segments that it sends**, in their order. -/
theorem ikcpFlush_sends (h : kcp.updated ≠ 0) : ∃ outs : List (List Ikcpseg),
    (ikcpFlush kcp).1 = outs.map datagram ∧ (∀ out ∈ outs, out ≠ []) ∧ outs.flatten = kcp.sends := by
  have hbox : kcp.flushing.box.IsOf kcp.sends := by
    refine flushing_box (R := fun box segs => box.IsOf segs) ?_ (fun box segs seg _ h => h.put _ seg)
    exact ⟨[], [], rfl, rfl, fun _ hout => absurd hout List.not_mem_nil, rfl⟩
  obtain ⟨outs, hout, hne, hsegs⟩ := hbox.output
  obtain ⟨_, _, _, heq⟩ := ikcpFlush_eq h
  rw [heq]
  exact ⟨outs, congrArg Outbox.out hout, hne, hsegs⟩

/-- What a flush sends is put into the buffer. -/
theorem puts_of_mem_sends (hseg : seg ∈ kcp.sends) : kcp.Puts seg :=
  flushing_box (R := fun _ segs => ∀ seg ∈ segs, kcp.Puts seg)
    (fun _ hseg => absurd hseg List.not_mem_nil)
    (fun _ _ _ hputs h seg hseg => (List.mem_append.mp hseg).elim (h seg)
      (fun hseg => List.mem_singleton.mp hseg ▸ hputs)) seg hseg

/-- **Every datagram is some segments**, one after another, that the flush sends. -/
theorem mem_flush {d : List UInt8} (hd : d ∈ (ikcpFlush kcp).1) :
    ∃ segs, d = datagram segs ∧ segs ≠ [] ∧ ∀ seg ∈ segs, kcp.Puts seg := by
  by_cases hupdated : kcp.updated = 0
  · unfold ikcpFlush at hd
    rw [if_pos hupdated] at hd
    exact absurd hd List.not_mem_nil
  · obtain ⟨outs, heq, hne, hsends⟩ := ikcpFlush_sends hupdated
    rw [heq] at hd
    obtain ⟨segs, hmem, rfl⟩ := List.mem_map.mp hd
    refine ⟨segs, rfl, hne segs hmem, fun seg hseg => puts_of_mem_sends ?_⟩
    rw [← hsends]
    exact List.mem_flatten.mpr ⟨segs, hmem, hseg⟩

/-! ## Reading it back -/

/-- The commands that there are. -/
def IsCommand (cmd : UInt32) : Prop :=
  cmd = IKCP_CMD_PUSH ∨ cmd = IKCP_CMD_ACK ∨ cmd = IKCP_CMD_WASK ∨ cmd = IKCP_CMD_WINS

/-- **A segment that the other side can read**: it is of its conversation, its command is one of
those that there are, and its length is one. -/
structure Ikcpseg.Readable (conv : UInt32) (seg : Ikcpseg) : Prop where
  conv : seg.conv = conv
  cmd : IsCommand seg.cmd
  len : seg.data.length < 2 ^ 31

theorem IsCommand.toUInt8 {cmd : UInt32} (h : IsCommand cmd) : cmd.toUInt8.toUInt32 = cmd := by
  rcases h with rfl | rfl | rfl | rfl
  · rfl
  · rfl
  · rfl
  · rfl

/-- A segment never changes which conversation it is. -/
theorem inputSegment_conv (kcp : Ikcpcb) (maxack : Option UInt32) (seg : Ikcpseg) :
    (inputSegment kcp maxack seg).1.conv = kcp.conv :=
  congrArg Settings.conv (settings_inputSegment kcp maxack seg)

/-- Segments, one after another. -/
def inputSegments (kcp : Ikcpcb) (maxack : Option UInt32) (segs : List Ikcpseg) :
    Ikcpcb × Option UInt32 :=
  segs.foldl (fun p seg => inputSegment p.1 p.2 seg) (kcp, maxack)

/-- **A datagram of segments is taken in segment by segment.** -/
theorem inputLoop_datagram : ∀ (segs : List Ikcpseg) (fuel : ℕ) {kcp : Ikcpcb} (maxack : Option UInt32),
    (∀ seg ∈ segs, seg.Readable kcp.conv) → segs.length < fuel →
    inputLoop fuel kcp maxack (datagram segs)
      = (0, inputSegments kcp maxack (segs.map Ikcpseg.received)) := by
  intro segs
  induction segs with
  | nil =>
    intro fuel kcp maxack _ hfuel
    obtain ⟨fuel, rfl⟩ := Nat.exists_eq_add_one_of_ne_zero (Nat.ne_of_gt hfuel)
    rfl
  | cons seg segs ih =>
    intro fuel kcp maxack hread hfuel
    obtain ⟨fuel, rfl⟩ := Nat.exists_eq_add_one_of_ne_zero (Nat.ne_of_gt (Nat.zero_lt_of_lt hfuel))
    obtain ⟨hconv, hcmd, hlen⟩ := hread seg List.mem_cons_self
    have hbytes : datagram (seg :: segs) = ikcpEncodeSeg seg ++ (seg.data ++ datagram segs) := by
      rw [datagram_cons, Ikcpseg.bytes, List.append_assoc]
    have hlong : ¬ (datagram (seg :: segs)).length < IKCP_OVERHEAD.toNat := by
      rw [hbytes, List.length_append, length_ikcpEncodeSeg]
      show ¬ 24 + _ < 24
      omega
    have hlenNat : seg.len.toNat = seg.data.length := UInt32.toNat_ofNat_of_lt' (by show _ < 2 ^ 32; omega)
    have hcmd' : IsCommand seg.received.cmd := by
      show IsCommand seg.cmd.toUInt8.toUInt32
      rwa [hcmd.toUInt8]
    unfold inputLoop
    rw [if_neg hlong, hbytes, decodeSeg_encodeSeg]
    dsimp only
    rw [if_neg (not_not.mpr (show seg.received.conv = kcp.conv from hconv)), if_neg, if_neg]
    · rw [hlenNat, List.take_left' rfl, List.drop_left' rfl]
      have hconv' : (inputSegment kcp maxack seg.received).1.conv = kcp.conv := inputSegment_conv _ _ _
      exact ih fuel (inputSegment kcp maxack seg.received).2
        (fun seg' hseg' => hconv' ▸ hread seg' (List.mem_cons_of_mem _ hseg')) (Nat.lt_of_succ_lt_succ hfuel)
    · rintro ⟨hpush, hack, hask, htell⟩
      rcases hcmd' with h | h | h | h
      · exact hpush h
      · exact hack h
      · exact hask h
      · exact htell h
    · rw [not_or, toInt_of_lt (by rw [hlenNat]; exact hlen), hlenNat, List.length_append]
      omega

theorem length_le_datagram (segs : List Ikcpseg) : 24 * segs.length ≤ (datagram segs).length := by
  induction segs with
  | nil => exact le_rfl
  | cons seg segs ih =>
    rw [datagram_cons, List.length_append, length_bytes, List.length_cons]
    omega

/-- **`ikcp_input` takes in a datagram of segments**, and says that it did. -/
theorem ikcpInput_datagram {segs : List Ikcpseg} (hne : segs ≠ [])
    (hread : ∀ seg ∈ segs, seg.Readable kcp.conv) : ∃ maxack cwnd incr,
    ikcpInput kcp (datagram segs) = (0,
      { parseMaxack (inputSegments kcp none (segs.map Ikcpseg.received)).1 maxack with
        cwnd := cwnd, incr := incr }) := by
  have hle := length_le_datagram segs
  have hpos := List.length_pos_iff.mpr hne
  have hloop := inputLoop_datagram segs ((datagram segs).length + 1) none hread (by omega)
  rcases ikcpInput_cases kcp (datagram segs) with ⟨hlt, -⟩ | ⟨ret, read, maxack, -, hloop', hcases⟩
  · omega
  · rw [hloop] at hloop'
    obtain ⟨rfl, hread'⟩ := Prod.mk.inj hloop'
    rcases hcases with ⟨h, -⟩ | ⟨cwnd, incr, -, heq⟩
    · exact absurd rfl h
    · refine ⟨maxack, cwnd, incr, ?_⟩
      rw [heq, hread']

end Kcp
