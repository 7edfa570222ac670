import LinuxLearn.KcpWindow

/-!
# Calls

Every function of the library keeps the windows of a control block in order, whatever it
is given: any data to send, any bytes as a datagram, any time, any setting. So they are in
order after any calls (`ok_after`), and stay so for as long as the connection lasts, when
the numbers have long wrapped around.

The loops are looked at one round at a time. What a round keeps, the loop keeps
(`moveAvailable_invariant`, `admitSegments_invariant`, `inputLoop_invariant`).
-/

namespace Kcp

/-- **The windows are in order.** -/
structure Ikcpcb.Ok (kcp : Ikcpcb) : Prop where
  sender : kcp.sender.Ok
  receiver : kcp.receiver.Ok

/-- **A control block as it is created.** -/
theorem Ikcpcb.Ok.create (conv : UInt32) : (ikcpCreate conv).Ok where
  sender := ⟨rfl, .nil, fun _ hseg => (List.not_mem_nil hseg).elim,
    show dist 0 0 < 2 ^ 16 by decide, show 128 < 2 ^ 16 by decide, rfl, rfl⟩
  receiver := ⟨.nil, fun _ hseg => (List.not_mem_nil hseg).elim, show 128 ≤ 128 from le_rfl,
    show 128 < 2 ^ 31 by decide, rfl, rfl, show 0 < 2 ^ 31 by decide, fun _ => Nat.zero_le _⟩

section

variable {kcp : Ikcpcb} {P : Ikcpcb → Prop}

/-! ## Reading -/

/-- The segment at the front of the receive buffer is moved to the queue. -/
def Ikcpcb.moveFirst (kcp : Ikcpcb) (seg : Ikcpseg) (buf : List Ikcpseg) : Ikcpcb :=
  { kcp with
    nrcvBuf := kcp.nrcvBuf - 1
    rcvQueue := kcp.rcvQueue ++ [seg]
    nrcvQue := kcp.nrcvQue + 1
    rcvNxt := kcp.rcvNxt + 1
    rcvBuf := buf }

/-- **What moving one segment keeps**, moving what is available keeps. -/
theorem moveAvailable_invariant
    (hstep : ∀ (kcp : Ikcpcb) (seg : Ikcpseg) (buf : List Ikcpseg), kcp.rcvBuf = seg :: buf →
      seg.sn = kcp.rcvNxt → kcp.nrcvQue < kcp.rcvWnd → P kcp → P (kcp.moveFirst seg buf))
    (h : P kcp) : P (moveAvailable kcp.rcvBuf kcp) := by
  have hfrom : ∀ (buf : List Ikcpseg) (kcp : Ikcpcb), P { kcp with rcvBuf := buf } →
      P (moveAvailable buf kcp) := by
    intro buf
    induction buf with
    | nil => exact fun _ h => h
    | cons seg buf ih =>
      intro kcp h
      unfold moveAvailable
      split
      · next hnext => exact ih _ (hstep { kcp with rcvBuf := seg :: buf } seg buf rfl hnext.1 hnext.2 h)
      · exact h
  exact hfrom kcp.rcvBuf kcp h

theorem Ikcpcb.Ok.moveFirst {seg : Ikcpseg} {buf : List Ikcpseg} (h : kcp.Ok)
    (hbuf : kcp.rcvBuf = seg :: buf) (hsn : seg.sn = kcp.rcvNxt) (hroom : kcp.nrcvQue < kcp.rcvWnd) :
    (kcp.moveFirst seg buf).Ok :=
  ⟨h.sender, h.receiver.move hbuf hsn hroom⟩

/-- **Moving what is available** keeps the windows in order. -/
theorem Ikcpcb.Ok.moveAvailable (h : kcp.Ok) : (moveAvailable kcp.rcvBuf kcp).Ok :=
  moveAvailable_invariant (fun _ _ _ hbuf hsn hroom h => h.moveFirst hbuf hsn hroom) h

/-- A message and what is left are the queue. -/
theorem mergeFragment_append (queue : List Ikcpseg) :
    (mergeFragment queue).1 ++ (mergeFragment queue).2 = queue := by
  induction queue with
  | nil => rfl
  | cons seg queue ih =>
    unfold mergeFragment
    split
    · rfl
    · exact congrArg (seg :: ·) ih

/-- `ikcp_recv` once it is known that a message is there and fits. -/
def Ikcpcb.takeMessage (kcp : Ikcpcb) (len : ℤ) : Ikcpcb :=
  if len < 0 then kcp else { kcp with
    rcvQueue := (mergeFragment kcp.rcvQueue).2
    nrcvQue := kcp.nrcvQue - UInt32.ofNat (mergeFragment kcp.rcvQueue).1.length }

/-- **What `ikcp_recv` does**: it fails and changes nothing, or takes a message, if it is to be
taken, moves what is available, and may have to tell that there is room again. -/
theorem ikcpRecv_cases (kcp : Ikcpcb) (len : ℤ) :
    (ikcpRecv kcp len = (-1, [], kcp) ∧ kcp.rcvQueue = [])
    ∨ (ikcpRecv kcp len = (-2, [], kcp) ∧ kcp.rcvQueue ≠ [] ∧ ikcpPeeksize kcp < 0)
    ∨ (ikcpRecv kcp len = (-3, [], kcp) ∧ kcp.rcvQueue ≠ [] ∧ |len| < ikcpPeeksize kcp)
    ∨ ∃ probe, kcp.rcvQueue ≠ [] ∧ 0 ≤ ikcpPeeksize kcp ∧ ikcpPeeksize kcp ≤ |len|
      ∧ ikcpRecv kcp len = (totalLen (mergeFragment kcp.rcvQueue).1,
        (mergeFragment kcp.rcvQueue).1.flatMap Ikcpseg.data,
        { moveAvailable (kcp.takeMessage len).rcvBuf (kcp.takeMessage len) with probe := probe }) := by
  unfold ikcpRecv
  by_cases hempty : kcp.rcvQueue.isEmpty
  · rw [if_pos hempty]
    exact Or.inl ⟨rfl, List.isEmpty_iff.mp hempty⟩
  · rw [if_neg hempty]
    have hne : kcp.rcvQueue ≠ [] := fun h => hempty (List.isEmpty_iff.mpr h)
    dsimp only
    by_cases hnone : ikcpPeeksize kcp < 0
    · rw [if_pos hnone]
      exact Or.inr (Or.inl ⟨rfl, hne, hnone⟩)
    · rw [if_neg hnone]
      by_cases hlong : ikcpPeeksize kcp > |len|
      · rw [if_pos hlong]
        exact Or.inr (Or.inr (Or.inl ⟨rfl, hne, hlong⟩))
      · rw [if_neg hlong]
        let moved := moveAvailable (kcp.takeMessage len).rcvBuf (kcp.takeMessage len)
        have htold : ∃ probe, (if kcp.nrcvQue ≥ kcp.rcvWnd ∧ moved.nrcvQue < moved.rcvWnd then
            { moved with probe := moved.probe ||| IKCP_ASK_TELL } else moved)
              = { moved with probe := probe } := by
          split
          · exact ⟨moved.probe ||| IKCP_ASK_TELL, rfl⟩
          · exact ⟨moved.probe, rfl⟩
        obtain ⟨probe, hprobe⟩ := htold
        exact Or.inr (Or.inr (Or.inr ⟨probe, hne, not_lt.mp hnone, not_lt.mp hlong,
          congrArg (fun k => (_, _, k)) hprobe⟩))

theorem Ikcpcb.Ok.takeMessage (h : kcp.Ok) (len : ℤ) : (kcp.takeMessage len).Ok := by
  unfold Ikcpcb.takeMessage
  split
  · exact h
  · exact ⟨h.sender, h.receiver.take (mergeFragment_append kcp.rcvQueue).symm⟩

theorem Ikcpcb.Ok.recv (h : kcp.Ok) (len : ℤ) : (ikcpRecv kcp len).2.2.Ok := by
  rcases ikcpRecv_cases kcp len with ⟨heq, -⟩ | ⟨heq, -⟩ | ⟨heq, -⟩ | ⟨probe, -, -, -, heq⟩
  · rw [heq]
    exact h
  · rw [heq]
    exact h
  · rw [heq]
    exact h
  · rw [heq]
    have hmoved := (h.takeMessage len).moveAvailable
    exact ⟨hmoved.sender, hmoved.receiver⟩

/-! ## Sending -/

/-- **What putting one segment into the queue keeps**, making the segments keeps. -/
theorem sendFragments_invariant
    (hstep : ∀ (kcp : Ikcpcb) (seg : Ikcpseg), P kcp → P { kcp with
      sndQueue := kcp.sndQueue ++ [seg], nsndQue := kcp.nsndQue + 1 }) :
    ∀ (n : ℕ) (buffer : List UInt8) {kcp : Ikcpcb}, P kcp → P (sendFragments n buffer kcp) := by
  intro n
  induction n with
  | zero => exact fun _ _ h => h
  | succ n ih => exact fun _ _ h => ih _ (hstep _ _ h)

theorem Ikcpcb.Ok.sendFragments (h : kcp.Ok) (n : ℕ) (buffer : List UInt8) :
    (sendFragments n buffer kcp).Ok := by
  refine sendFragments_invariant (fun kcp seg h => ⟨?_, h.receiver⟩) n buffer h
  obtain ⟨huna, hsorted, hbelow, hwindow, hrmt, hnBuf, hnQue⟩ := h.sender
  refine ⟨huna, hsorted, hbelow, hwindow, hrmt, hnBuf, ?_⟩
  show kcp.nsndQue + 1 = UInt32.ofNat (kcp.sndQueue ++ [seg]).length
  rw [show kcp.nsndQue = _ from hnQue, List.length_append, UInt32.ofNat_add]
  rfl

/-- The last segment is replaced, so there are as many. -/
theorem Ikcpcb.Ok.appendStream (h : kcp.Ok) (buffer : List UInt8) : (appendStream kcp buffer).2.Ok := by
  unfold Kcp.appendStream
  cases hlast : kcp.sndQueue.getLast? with
  | none => exact h
  | some old =>
    dsimp only
    split
    · refine ⟨?_, h.receiver⟩
      obtain ⟨huna, hsorted, hbelow, hwindow, hrmt, hnBuf, hnQue⟩ := h.sender
      refine ⟨huna, hsorted, hbelow, hwindow, hrmt, hnBuf, ?_⟩
      have hpos : 0 < kcp.sndQueue.length :=
        List.length_pos_iff.mpr (fun hnil => by rw [hnil] at hlast; cases hlast)
      refine (show kcp.nsndQue = _ from hnQue).trans (congrArg UInt32.ofNat ?_)
      show kcp.sndQueue.length = (kcp.sndQueue.dropLast ++ [_]).length
      rw [List.length_append, List.length_dropLast]
      exact (Nat.sub_add_cancel hpos).symm
    · exact h

theorem Ikcpcb.Ok.send (h : kcp.Ok) (buffer : List UInt8) : (ikcpSend kcp buffer).2.Ok := by
  have hfilled : (if kcp.stream ≠ 0 then Kcp.appendStream kcp buffer else (buffer, kcp)).2.Ok := by
    split
    · exact h.appendStream buffer
    · exact h
  unfold ikcpSend
  generalize (if kcp.stream ≠ 0 then Kcp.appendStream kcp buffer else (buffer, kcp)) = filled at *
  dsimp only
  split
  · exact hfilled
  · split
    · exact hfilled
    · exact hfilled.sendFragments _ _

/-- Nothing leaves the queue when something is sent. -/
theorem length_le_send (kcp : Ikcpcb) (buffer : List UInt8) :
    kcp.sndQueue.length ≤ (ikcpSend kcp buffer).2.sndQueue.length := by
  have hfilled : kcp.sndQueue.length
      ≤ (if kcp.stream ≠ 0 then appendStream kcp buffer else (buffer, kcp)).2.sndQueue.length := by
    split
    · unfold appendStream
      cases kcp.sndQueue.getLast? with
      | none => exact le_rfl
      | some old =>
        dsimp only
        split
        · show kcp.sndQueue.length ≤ (kcp.sndQueue.dropLast ++ [_]).length
          rw [List.length_append, List.length_dropLast, List.length_singleton]
          omega
        · exact le_rfl
    · exact le_rfl
  unfold ikcpSend
  generalize (if kcp.stream ≠ 0 then appendStream kcp buffer else (buffer, kcp)) = filled at *
  dsimp only
  split
  · exact hfilled
  · split
    · exact hfilled
    · refine sendFragments_invariant (P := fun k => kcp.sndQueue.length ≤ k.sndQueue.length)
        (fun k seg hk => ?_) _ _ hfilled
      show kcp.sndQueue.length ≤ (k.sndQueue ++ [seg]).length
      rw [List.length_append]
      omega

/-! ## Acknowledgements -/

/-- What is acknowledged is taken out of the buffer, and nothing else. -/
theorem removeAcked_cases (sn : UInt32) (buf : List Ikcpseg) :
    removeAcked sn buf = buf
    ∨ ∃ before seg after, buf = before ++ seg :: after ∧ seg.sn = sn
      ∧ removeAcked sn buf = before ++ after := by
  induction buf with
  | nil => exact Or.inl rfl
  | cons seg buf ih =>
    unfold removeAcked
    split
    · next heq => exact Or.inr ⟨[], seg, buf, rfl, heq.symm, rfl⟩
    · split
      · exact Or.inl rfl
      · rcases ih with heq | ⟨before, seg', after, hbuf, hsn, heq⟩
        · exact Or.inl (congrArg (seg :: ·) heq)
        · exact Or.inr ⟨seg :: before, seg', after, congrArg (seg :: ·) hbuf, hsn,
            congrArg (seg :: ·) heq⟩

theorem removeAcked_sublist (sn : UInt32) (buf : List Ikcpseg) : (removeAcked sn buf).Sublist buf := by
  rcases removeAcked_cases sn buf with heq | ⟨before, seg, after, hbuf, -, heq⟩
  · rw [heq]
  · rw [heq, hbuf]
    exact (List.sublist_cons_self seg after).append_left before

/-- **What is left of the buffer**, and the first number found again, in terms of the sender. -/
theorem sender_shrinkBuf {buf : List Ikcpseg} (h : kcp.sender.Ok) (hsub : buf.Sublist kcp.sndBuf) :
    (ikcpShrinkBuf { kcp with
      sndBuf := buf
      nsndBuf := kcp.nsndBuf - UInt32.ofNat (kcp.sndBuf.length - buf.length) }).sender
      = kcp.sender.keep buf := by
  have hcount : kcp.nsndBuf - UInt32.ofNat (kcp.sndBuf.length - buf.length) = UInt32.ofNat buf.length := by
    rw [show kcp.nsndBuf = UInt32.ofNat kcp.sndBuf.length from h.nBuf]
    exact ofNat_sub_ofNat hsub.length_le
  cases buf with
  | nil => simp only [ikcpShrinkBuf, Ikcpcb.sender, Sender.keep, hcount]; rfl
  | cons seg buf => simp only [ikcpShrinkBuf, Ikcpcb.sender, Sender.keep, hcount]; rfl

/-- What is not acknowledged up to a number. -/
def notBefore (una : UInt32) (buf : List Ikcpseg) : List Ikcpseg :=
  buf.dropWhile (fun seg => itimediff una seg.sn > 0)

theorem notBefore_sublist (una : UInt32) (buf : List Ikcpseg) : (notBefore una buf).Sublist buf :=
  (List.dropWhile_suffix _).sublist

theorem Ikcpcb.Ok.parseUna (h : kcp.Ok) (una : UInt32) :
    (ikcpShrinkBuf (ikcpParseUna kcp una)).Ok := by
  refine ⟨?_, h.receiver⟩
  have hsub := notBefore_sublist una kcp.sndBuf
  have hkeep : (kcp.sender.keep (notBefore una kcp.sndBuf)).Ok := h.sender.keep hsub
  rwa [← sender_shrinkBuf h.sender hsub] at hkeep

theorem Ikcpcb.Ok.parseAck (h : kcp.Ok) (sn : UInt32) : (ikcpShrinkBuf (ikcpParseAck kcp sn)).Ok := by
  unfold ikcpParseAck
  split
  · -- the first number is the one that it was
    refine ⟨?_, h.receiver⟩
    have hkeep : (kcp.sender.keep kcp.sndBuf).Ok := h.sender.keep (List.Sublist.refl _)
    have heq : (ikcpShrinkBuf kcp).sender = kcp.sender.keep kcp.sndBuf := by
      have hnBuf : kcp.nsndBuf = UInt32.ofNat kcp.sndBuf.length := h.sender.nBuf
      cases hbuf : kcp.sndBuf with
      | nil => simp only [ikcpShrinkBuf, Ikcpcb.sender, Sender.keep, hnBuf, hbuf]; rfl
      | cons seg buf => simp only [ikcpShrinkBuf, Ikcpcb.sender, Sender.keep, hnBuf, hbuf]; rfl
    rwa [← heq] at hkeep
  · refine ⟨?_, h.receiver⟩
    have hsub := removeAcked_sublist sn kcp.sndBuf
    have hkeep : (kcp.sender.keep (removeAcked sn kcp.sndBuf)).Ok := h.sender.keep hsub
    rwa [← sender_shrinkBuf h.sender hsub] at hkeep

/-- Skipping changes only how often. -/
theorem map_skipBefore {β : Type} (f : Ikcpseg → β)
    (hf : ∀ seg n, f { seg with fastack := n } = f seg) (sn : UInt32) (buf : List Ikcpseg) :
    (skipBefore sn buf).map f = buf.map f := by
  induction buf with
  | nil => rfl
  | cons seg buf ih =>
    unfold skipBefore
    split
    · rfl
    · rw [List.map_cons, List.map_cons, ih]
      split
      · rw [hf]
      · rfl

theorem Ikcpcb.Ok.parseFastack (h : kcp.Ok) (sn : UInt32) : (ikcpParseFastack kcp sn).Ok := by
  unfold ikcpParseFastack
  split
  · exact h
  · exact ⟨h.sender.congr (map_skipBefore Ikcpseg.sn (fun _ _ => rfl) sn kcp.sndBuf), h.receiver⟩

/-- The capacity is enough for as many acknowledgements as a size can count. -/
theorem le_growBlock {newsize : UInt32} : ∀ (fuel : ℕ) {block : UInt32},
    newsize.toNat ≤ block.toNat * 2 ^ fuel → block.toNat * 2 ^ fuel < 2 ^ 32 →
      newsize.toNat ≤ (growBlock newsize fuel block).toNat := by
  intro fuel
  induction fuel with
  | zero => exact fun h _ => by rwa [pow_zero, Nat.mul_one] at h
  | succ fuel ih =>
    intro block h hlt
    unfold growBlock
    split
    · have hpow : 0 < 2 ^ fuel := Nat.two_pow_pos fuel
      have hdouble : (block <<< 1).toNat = block.toNat * 2 := by
        have hle : block.toNat * 2 ≤ block.toNat * 2 ^ (fuel + 1) :=
          Nat.mul_le_mul_left _ (by rw [pow_succ]; omega)
        have hone : (1 : UInt32).toNat = 1 := rfl
        rw [UInt32.toNat_shiftLeft, hone, Nat.shiftLeft_eq, show 2 ^ (1 % 32) = 2 from rfl]
        exact Nat.mod_eq_of_lt (by omega)
      have hassoc : block.toNat * 2 * 2 ^ fuel = block.toNat * 2 ^ (fuel + 1) := by ring
      exact ih (by rwa [hdouble, hassoc]) (by rwa [hdouble, hassoc])
    · next hge => exact UInt32.le_iff_toNat_le.mp (UInt32.not_lt.mp hge)

/-- **There is room for one more acknowledgement.** -/
theorem Ikcpcb.Ok.ackPush (h : kcp.Ok) (sn ts : UInt32) : (ikcpAckPush kcp sn ts).Ok := by
  obtain ⟨hsorted, hbelow, hge, hlt, hnBuf, hnQue, hfull, hblock⟩ := h.receiver
  refine ⟨h.sender, hsorted, hbelow, hge, hlt, hnBuf, hnQue, hfull, fun hacks => ?_⟩
  have hlen : (kcp.acklist ++ [(sn, ts)]).length = kcp.acklist.length + 1 := List.length_append
  have hacks' : (kcp.acklist ++ [(sn, ts)]).length ≤ 2 ^ 31 := hacks
  show (kcp.acklist ++ [(sn, ts)]).length
    ≤ (if kcp.ackcount + 1 > kcp.ackblock then growBlock (kcp.ackcount + 1) 28 8 else kcp.ackblock).toNat
  have hone : (1 : UInt32).toNat = 1 := rfl
  have hcount : (kcp.ackcount + 1).toNat = kcp.acklist.length + 1 := by
    rw [UInt32.toNat_add, Ikcpcb.ackcount, UInt32.toNat_ofNat_of_lt' (by show _ < 2 ^ 32; omega), hone]
    omega
  rw [hlen, ← hcount]
  split
  · have height : (8 : UInt32).toNat = 8 := rfl
    exact le_growBlock 28 (by rw [height]; omega) (by rw [height]; decide)
  · next hle => exact UInt32.le_iff_toNat_le.mp (UInt32.not_lt.mp hle)

/-! ## Input -/

/-- What is stored of a segment, before anything is moved. -/
def Ikcpcb.storeSegment (kcp : Ikcpcb) (newseg : Ikcpseg) : Ikcpcb :=
  match insertSorted newseg kcp.rcvBuf.reverse with
  | none => kcp
  | some buf => { kcp with rcvBuf := buf.reverse, nrcvBuf := kcp.nrcvBuf + 1 }

/-- **A segment that is in the window** is stored, and what is available is moved. -/
theorem ikcpParseData_eq (kcp : Ikcpcb) {newseg : Ikcpseg}
    (hwnd : itimediff newseg.sn (kcp.rcvNxt + kcp.rcvWnd) < 0)
    (hnxt : itimediff newseg.sn kcp.rcvNxt ≥ 0) :
    ikcpParseData kcp newseg
      = moveAvailable (kcp.storeSegment newseg).rcvBuf (kcp.storeSegment newseg) := by
  unfold ikcpParseData
  rw [if_neg (not_or.mpr ⟨not_le.mpr hwnd, not_lt.mpr hnxt⟩)]
  rfl

theorem Ikcpcb.Ok.storeSegment {newseg : Ikcpseg} (h : kcp.Ok)
    (hnxt : itimediff newseg.sn kcp.rcvNxt ≥ 0) : (kcp.storeSegment newseg).Ok := by
  unfold Ikcpcb.storeSegment
  cases hins : insertSorted newseg kcp.rcvBuf.reverse with
  | none => exact h
  | some buf => exact ⟨h.sender, h.receiver.insert (itimediff_nonneg_iff.mp hnxt) hins⟩

/-- A measurement changes only the timer, and the mark if an `int` overflows. -/
theorem ikcpUpdateAck_eq (kcp : Ikcpcb) (rtt : Int32) : ∃ rttval srtt rto undefined,
    ikcpUpdateAck kcp rtt
      = { kcp with rxRttval := rttval, rxSrtt := srtt, rxRto := rto, undefined := undefined } := by
  unfold ikcpUpdateAck
  split
  · exact ⟨_, _, _, _, rfl⟩
  · exact ⟨_, _, _, _, rfl⟩

/-- **What every segment acknowledges**: all that is below its `una`. -/
def Ikcpcb.acknowledged (kcp : Ikcpcb) (seg : Ikcpseg) : Ikcpcb :=
  ikcpShrinkBuf (ikcpParseUna { kcp with rmtWnd := seg.wnd } seg.una)

/-- What an acknowledgement tells about the time that it took. -/
def Ikcpcb.measured (kcp : Ikcpcb) (ts : UInt32) : Ikcpcb :=
  if itimediff kcp.current ts ≥ 0 then ikcpUpdateAck kcp (kcp.current - ts).toInt32 else kcp

theorem measured_eq (kcp : Ikcpcb) (ts : UInt32) : ∃ rttval srtt rto undefined,
    kcp.measured ts
      = { kcp with rxRttval := rttval, rxSrtt := srtt, rxRto := rto, undefined := undefined } := by
  unfold Ikcpcb.measured
  split
  · exact ikcpUpdateAck_eq _ _
  · exact ⟨_, _, _, _, rfl⟩

/-- **What a segment does**, by its command. -/
theorem inputSegment_cases (kcp : Ikcpcb) (maxack : Option UInt32) (seg : Ikcpseg) :
    (seg.cmd = IKCP_CMD_ACK ∧ inputSegment kcp maxack seg
      = (ikcpShrinkBuf (ikcpParseAck ((kcp.acknowledged seg).measured seg.ts) seg.sn),
        noteAck maxack seg.sn))
    ∨ (seg.cmd = IKCP_CMD_PUSH ∧ itimediff seg.sn ((kcp.acknowledged seg).rcvNxt
          + (kcp.acknowledged seg).rcvWnd) < 0
      ∧ itimediff seg.sn (kcp.acknowledged seg).rcvNxt ≥ 0
      ∧ inputSegment kcp maxack seg
        = (ikcpParseData (ikcpAckPush (kcp.acknowledged seg) seg.sn seg.ts) seg, maxack))
    ∨ (seg.cmd = IKCP_CMD_PUSH ∧ itimediff seg.sn (kcp.acknowledged seg).rcvNxt < 0
      ∧ inputSegment kcp maxack seg = (ikcpAckPush (kcp.acknowledged seg) seg.sn seg.ts, maxack))
    ∨ ∃ probe, inputSegment kcp maxack seg
        = ({ kcp.acknowledged seg with probe := probe }, maxack) := by
  unfold inputSegment
  by_cases hack : seg.cmd = IKCP_CMD_ACK
  · exact Or.inl ⟨hack, if_pos hack⟩
  · right
    by_cases hpush : seg.cmd = IKCP_CMD_PUSH
    · by_cases hwnd : itimediff seg.sn ((kcp.acknowledged seg).rcvNxt + (kcp.acknowledged seg).rcvWnd) < 0
      · by_cases hnxt : itimediff seg.sn (kcp.acknowledged seg).rcvNxt ≥ 0
        · exact Or.inl ⟨hpush, hwnd, hnxt, (if_neg hack).trans ((if_pos hpush).trans
            ((if_pos hwnd).trans (if_pos hnxt)))⟩
        · exact Or.inr (Or.inl ⟨hpush, not_le.mp hnxt, (if_neg hack).trans ((if_pos hpush).trans
            ((if_pos hwnd).trans (if_neg hnxt)))⟩)
      · exact Or.inr (Or.inr ⟨_, (if_neg hack).trans ((if_pos hpush).trans (if_neg hwnd))⟩)
    · by_cases hask : seg.cmd = IKCP_CMD_WASK
      · exact Or.inr (Or.inr ⟨_, (if_neg hack).trans ((if_neg hpush).trans (if_pos hask))⟩)
      · exact Or.inr (Or.inr ⟨_, (if_neg hack).trans ((if_neg hpush).trans (if_neg hask))⟩)

theorem Ikcpcb.Ok.acknowledged {seg : Ikcpseg} (h : kcp.Ok) (hwnd : seg.wnd.toNat < 2 ^ 16) :
    (kcp.acknowledged seg).Ok := by
  have hrmt : ({ kcp with rmtWnd := seg.wnd } : Ikcpcb).Ok := ⟨h.sender.rmt hwnd, h.receiver⟩
  exact hrmt.parseUna seg.una

theorem Ikcpcb.Ok.measured (h : kcp.Ok) (ts : UInt32) : (kcp.measured ts).Ok := by
  obtain ⟨rttval, srtt, rto, undefined, heq⟩ := measured_eq kcp ts
  rw [heq]
  exact ⟨h.sender, h.receiver⟩

theorem Ikcpcb.Ok.inputSegment {seg : Ikcpseg} (h : kcp.Ok) (hwnd : seg.wnd.toNat < 2 ^ 16)
    (maxack : Option UInt32) : (inputSegment kcp maxack seg).1.Ok := by
  have hacked := h.acknowledged hwnd
  rcases inputSegment_cases kcp maxack seg with ⟨-, heq⟩ | ⟨-, hwnd, hnxt, heq⟩ | ⟨-, -, heq⟩ | ⟨probe, heq⟩
  · rw [heq]
    exact (hacked.measured seg.ts).parseAck seg.sn
  · rw [heq]
    have hpushed := hacked.ackPush seg.sn seg.ts
    show (ikcpParseData (ikcpAckPush (kcp.acknowledged seg) seg.sn seg.ts) seg).Ok
    rw [ikcpParseData_eq (ikcpAckPush (kcp.acknowledged seg) seg.sn seg.ts) hwnd hnxt]
    exact (hpushed.storeSegment hnxt).moveAvailable
  · rw [heq]
    exact hacked.ackPush seg.sn seg.ts
  · rw [heq]
    exact ⟨hacked.sender, hacked.receiver⟩

theorem decodeSeg_wnd_lt (data : List UInt8) : (decodeSeg data).1.wnd.toNat < 2 ^ 16 :=
  UInt16.toNat_lt _

/-- **What every segment keeps**, if its header is one that can be read, a datagram keeps. -/
theorem inputLoop_invariant
    (hstep : ∀ (kcp : Ikcpcb) (maxack : Option UInt32) (seg : Ikcpseg), seg.wnd.toNat < 2 ^ 16 →
      P kcp → P (inputSegment kcp maxack seg).1) :
    ∀ (fuel : ℕ) {kcp : Ikcpcb} (maxack : Option UInt32) (data : List UInt8), P kcp →
      P (inputLoop fuel kcp maxack data).2.1 := by
  intro fuel
  induction fuel with
  | zero => exact fun _ _ h => h
  | succ fuel ih =>
    intro kcp maxack data h
    unfold inputLoop
    split
    · exact h
    · dsimp only
      split
      · exact h
      · split
        · exact h
        · split
          · exact h
          · exact ih _ _ (hstep _ _ _ (decodeSeg_wnd_lt data) h)

theorem growCwnd_eq (kcp : Ikcpcb) : ∃ cwnd incr, growCwnd kcp = { kcp with cwnd := cwnd, incr := incr } := by
  unfold growCwnd
  dsimp only
  split
  · exact ⟨_, _, rfl⟩
  · exact ⟨_, _, rfl⟩

/-- The congestion window grows, and nothing else changes. -/
theorem growWindow_eq (kcp : Ikcpcb) : ∃ cwnd incr, growWindow kcp = { kcp with cwnd := cwnd, incr := incr } := by
  unfold growWindow
  split
  · obtain ⟨cwnd, incr, hgrown⟩ := growCwnd_eq kcp
    rw [hgrown]
    dsimp only
    split
    · exact ⟨_, _, rfl⟩
    · exact ⟨_, _, rfl⟩
  · exact ⟨_, _, rfl⟩

theorem Ikcpcb.Ok.parseMaxack (h : kcp.Ok) (maxack : Option UInt32) : (parseMaxack kcp maxack).Ok := by
  cases maxack with
  | none => exact h
  | some sn => exact h.parseFastack sn

/-- **What `ikcp_input` does**: it takes nothing in, or what the loop over the segments does; if
that comes to the end, what was skipped is noted, and the congestion window may grow. -/
theorem ikcpInput_cases (kcp : Ikcpcb) (data : List UInt8) :
    (data.length < 24 ∧ ikcpInput kcp data = (-1, kcp))
    ∨ ∃ ret read maxack, 24 ≤ data.length ∧ inputLoop (data.length + 1) kcp none data = (ret, read, maxack)
      ∧ ((ret ≠ 0 ∧ ikcpInput kcp data = (ret, read))
        ∨ ∃ cwnd incr, ret = 0
          ∧ ikcpInput kcp data = (0, { parseMaxack read maxack with cwnd := cwnd, incr := incr })) := by
  rcases hloop : inputLoop (data.length + 1) kcp none data with ⟨ret, read, maxack⟩
  unfold ikcpInput
  rw [hloop]
  split
  · next hlt => exact Or.inl ⟨hlt, rfl⟩
  · next hge =>
    refine Or.inr ⟨ret, read, maxack, not_lt.mp hge, rfl, ?_⟩
    dsimp only
    by_cases hret : ret = 0
    · right
      rw [if_neg (not_not.mpr hret)]
      split
      · obtain ⟨cwnd, incr, hgrown⟩ := growWindow_eq (Kcp.parseMaxack read maxack)
        exact ⟨cwnd, incr, hret, congrArg (Prod.mk 0) hgrown⟩
      · exact ⟨_, _, hret, rfl⟩
    · exact Or.inl ⟨hret, if_pos hret⟩

theorem Ikcpcb.Ok.input (h : kcp.Ok) (data : List UInt8) : (ikcpInput kcp data).2.Ok := by
  rcases ikcpInput_cases kcp data with ⟨-, heq⟩ | ⟨ret, read, maxack, -, hloop, hcases⟩
  · rw [heq]
    exact h
  · have hread : (inputLoop (data.length + 1) kcp none data).2.1.Ok :=
      inputLoop_invariant (fun _ _ _ hwnd h => h.inputSegment hwnd _) _ none data h
    rw [hloop] at hread
    rcases hcases with ⟨-, heq⟩ | ⟨cwnd, incr, -, heq⟩
    · rw [heq]
      exact hread
    · rw [heq]
      have hacked := hread.parseMaxack maxack
      exact ⟨hacked.sender, hacked.receiver⟩

/-! ## Output -/

/-- Probing changes only when it is done and what is asked. -/
theorem probeWindow_eq (kcp : Ikcpcb) : ∃ wait ts probe,
    probeWindow kcp = { kcp with probeWait := wait, tsProbe := ts, probe := probe } := by
  unfold probeWindow
  split
  · split
    · exact ⟨_, _, _, rfl⟩
    · split
      · exact ⟨_, _, _, rfl⟩
      · exact ⟨_, _, _, rfl⟩
  · exact ⟨_, _, _, rfl⟩

theorem skipWindow_eq (kcp : Ikcpcb) (resent : UInt32) (change : ℕ) : ∃ ssthresh cwnd incr,
    skipWindow kcp resent change = { kcp with ssthresh := ssthresh, cwnd := cwnd, incr := incr } := by
  unfold skipWindow
  split
  · exact ⟨_, _, _, rfl⟩
  · exact ⟨_, _, _, rfl⟩

theorem loseWindow_eq (kcp : Ikcpcb) (cwnd : UInt32) (lost : Bool) : ∃ ssthresh cwnd' incr,
    loseWindow kcp cwnd lost = { kcp with ssthresh := ssthresh, cwnd := cwnd', incr := incr } := by
  unfold loseWindow
  split
  · exact ⟨_, _, _, rfl⟩
  · exact ⟨_, _, _, rfl⟩

/-- The congestion window shrinks, and nothing else changes. -/
theorem shrinkWindow_eq (kcp : Ikcpcb) (cwnd resent : UInt32) (lost : Bool) (change : ℕ) :
    ∃ ssthresh cwnd' incr, shrinkWindow kcp cwnd resent lost change
      = { kcp with ssthresh := ssthresh, cwnd := cwnd', incr := incr } := by
  unfold shrinkWindow
  obtain ⟨_, _, _, hskip⟩ := skipWindow_eq kcp resent change
  rw [hskip]
  obtain ⟨_, _, _, hlose⟩ := loseWindow_eq
    { kcp with ssthresh := _, cwnd := _, incr := _ } cwnd lost
  rw [hlose]
  dsimp only
  split
  · exact ⟨_, _, _, rfl⟩
  · exact ⟨_, _, _, rfl⟩

/-- The segment for acknowledgements and probes keeps all but its number and its time. -/
theorem flushAcks_seg (mtu : UInt32) (acks : List (UInt32 × UInt32)) (box : Outbox) (seg : Ikcpseg) :
    ∃ sn ts, (flushAcks mtu acks box seg).2 = { seg with sn := sn, ts := ts } := by
  induction acks generalizing box seg with
  | nil => exact ⟨_, _, rfl⟩
  | cons ack acks ih =>
    obtain ⟨sn, ts, heq⟩ := ih (box.put mtu { seg with sn := ack.1, ts := ack.2 })
      { seg with sn := ack.1, ts := ack.2 }
    exact ⟨sn, ts, heq⟩

/-- The header that a segment of the queue is given. -/
def Ikcpcb.numbered (kcp : Ikcpcb) (wnd : UInt32) (seg : Ikcpseg) : Ikcpseg :=
  { seg with
    conv := kcp.conv
    cmd := IKCP_CMD_PUSH
    wnd := wnd
    ts := kcp.current
    sn := kcp.sndNxt
    una := kcp.rcvNxt
    resendts := kcp.current
    rto := kcp.rxRto.toUInt32
    fastack := 0
    xmit := 0 }

/-- The segment at the front of the queue is given a number and moved. -/
def Ikcpcb.admitFirst (kcp : Ikcpcb) (wnd : UInt32) (seg : Ikcpseg) (queue : List Ikcpseg) : Ikcpcb :=
  { kcp with
    nsndQue := kcp.nsndQue - 1
    nsndBuf := kcp.nsndBuf + 1
    sndNxt := kcp.sndNxt + 1
    sndQueue := queue
    sndBuf := kcp.sndBuf ++ [kcp.numbered wnd seg] }

/-- **What admitting one segment keeps**, admitting those that the window allows keeps. -/
theorem admitSegments_invariant {cwnd wnd : UInt32}
    (hstep : ∀ (kcp : Ikcpcb) (seg : Ikcpseg) (queue : List Ikcpseg), kcp.sndQueue = seg :: queue →
      itimediff kcp.sndNxt (kcp.sndUna + cwnd) < 0 → P kcp → P (kcp.admitFirst wnd seg queue))
    (h : P kcp) : P (admitSegments cwnd wnd kcp.sndQueue kcp) := by
  have hfrom : ∀ (queue : List Ikcpseg) (kcp : Ikcpcb), P { kcp with sndQueue := queue } →
      P (admitSegments cwnd wnd queue kcp) := by
    intro queue
    induction queue with
    | nil => exact fun _ h => h
    | cons seg queue ih =>
      intro kcp h
      unfold admitSegments
      split
      · next hdiff => exact ih _ (hstep { kcp with sndQueue := seg :: queue } seg queue rfl hdiff h)
      · exact h
  exact hfrom kcp.sndQueue kcp h

theorem imin_toNat_le (a b : UInt32) : (imin a b).toNat ≤ b.toNat := by
  unfold imin
  split
  · next hle => exact UInt32.le_iff_toNat_le.mp hle
  · exact le_rfl

/-- No more segments are under way than the other side has room for. -/
theorem flushWindow_le (kcp : Ikcpcb) : (flushWindow kcp).toNat ≤ kcp.rmtWnd.toNat := by
  unfold flushWindow
  dsimp only
  split
  · exact (imin_toNat_le _ _).trans (imin_toNat_le _ _)
  · exact imin_toNat_le _ _

/-- `ikcp_flush`, when the acknowledgements are out and the probes are. -/
def Ikcpcb.started (kcp : Ikcpcb) : Ikcpcb :=
  { probeWindow { kcp with acklist := [] } with probe := 0 }

/-- The segment that the acknowledgements were made of. -/
def Ikcpcb.ackSeg (kcp : Ikcpcb) : Ikcpseg :=
  (flushAcks kcp.mtu kcp.acklist ⟨[], []⟩ (flushSeg kcp)).2

/-- `ikcp_flush`, when the window is filled. -/
def Ikcpcb.admitted (kcp : Ikcpcb) : Ikcpcb :=
  admitSegments (flushWindow kcp.started) kcp.ackSeg.wnd kcp.started.sndQueue kcp.started

/-- **The buffer when the acknowledgements and the probes are in it.** -/
def Ikcpcb.flushHead (kcp : Ikcpcb) : Outbox :=
  let asking := probeWindow { kcp with acklist := [] }
  putProbe asking.mtu asking.probe IKCP_ASK_TELL IKCP_CMD_WINS
    (putProbe asking.mtu asking.probe IKCP_ASK_SEND IKCP_CMD_WASK
      (flushAcks kcp.mtu kcp.acklist ⟨[], []⟩ (flushSeg kcp)).1 kcp.ackSeg) kcp.ackSeg

/-- How often a segment is to be skipped before it is sent again. -/
def Ikcpcb.resent (kcp : Ikcpcb) : UInt32 :=
  if kcp.fastresend > 0 then kcp.fastresend.toUInt32 else 0xffffffff

/-- What is added to the first timeout of a segment. -/
def Ikcpcb.rtomin (kcp : Ikcpcb) : UInt32 :=
  if kcp.nodelay = 0 then (kcp.rxRto >>> 3).toUInt32 else 0

/-- **The loop over the send buffer.** -/
def Ikcpcb.flushing (kcp : Ikcpcb) : Flushing :=
  kcp.admitted.sndBuf.foldl
    (Flushing.segment kcp.admitted kcp.ackSeg.wnd kcp.admitted.resent kcp.admitted.rtomin)
    ⟨kcp.flushHead, [], kcp.admitted.xmit, kcp.admitted.state, false, 0⟩

/-- **What `ikcp_flush` does**, once `ikcp_update` was called. -/
theorem ikcpFlush_shrinkWindow (h : kcp.updated ≠ 0) : ikcpFlush kcp = (kcp.flushing.box.output.out,
    shrinkWindow { kcp.admitted with
        sndBuf := kcp.flushing.done
        xmit := kcp.flushing.xmit
        state := kcp.flushing.state
        undefined := kcp.admitted.undefined
          || kcp.flushing.box.output.out.any kcp.admitted.overruns }
      (flushWindow kcp.started) kcp.admitted.resent kcp.flushing.lost kcp.flushing.change) := by
  unfold ikcpFlush
  rw [if_neg h]
  rfl

theorem ikcpFlush_eq (h : kcp.updated ≠ 0) : ∃ ssthresh cwnd incr,
    ikcpFlush kcp = (kcp.flushing.box.output.out, { kcp.admitted with
      sndBuf := kcp.flushing.done
      xmit := kcp.flushing.xmit
      state := kcp.flushing.state
      ssthresh := ssthresh
      cwnd := cwnd
      incr := incr
      undefined := kcp.admitted.undefined
        || kcp.flushing.box.output.out.any kcp.admitted.overruns }) := by
  obtain ⟨ssthresh, cwnd, incr, hshrink⟩ := shrinkWindow_eq
    { kcp.admitted with
      sndBuf := kcp.flushing.done
      xmit := kcp.flushing.xmit
      state := kcp.flushing.state
      undefined := kcp.admitted.undefined
        || kcp.flushing.box.output.out.any kcp.admitted.overruns }
    (flushWindow kcp.started) kcp.admitted.resent kcp.flushing.lost kcp.flushing.change
  refine ⟨ssthresh, cwnd, incr, ?_⟩
  rw [ikcpFlush_shrinkWindow h, hshrink]

/-- **What a segment is**, whenever it is sent. -/
def Ikcpseg.core (seg : Ikcpseg) : UInt32 × UInt32 × UInt32 × UInt32 × List UInt8 :=
  (seg.conv, seg.cmd, seg.frg, seg.sn, seg.data)

/-- A segment that is due is the one that it was, but for its timer. -/
theorem core_of_due {resent rtomin : UInt32} {seg seg' : Ikcpseg} {cause : Cause}
    (h : seg.due kcp resent rtomin = some (cause, seg')) : seg'.core = seg.core := by
  unfold Ikcpseg.due at h
  split at h
  · cases h
    rfl
  · split at h
    · cases h
      rfl
    · split at h
      · split at h
        · cases h
          rfl
        · cases h
      · cases h

/-- **The loop leaves the segments what they are.** -/
theorem map_core_flushing (kcp : Ikcpcb) (wnd resent rtomin : UInt32) (buf : List Ikcpseg)
    (f : Flushing) : (buf.foldl (Flushing.segment kcp wnd resent rtomin) f).done.map Ikcpseg.core
      = f.done.map Ikcpseg.core ++ buf.map Ikcpseg.core := by
  induction buf generalizing f with
  | nil => exact (List.append_nil _).symm
  | cons seg buf ih =>
    have hone : (f.segment kcp wnd resent rtomin seg).done.map Ikcpseg.core
        = f.done.map Ikcpseg.core ++ [seg.core] := by
      unfold Flushing.segment
      cases hdue : seg.due kcp resent rtomin with
      | none => exact List.map_append
      | some p =>
        obtain ⟨cause, seg'⟩ := p
        have hcore : seg'.core = seg.core := core_of_due hdue
        show (f.done ++ [_]).map Ikcpseg.core = _
        rw [List.map_append]
        exact congrArg (fun c => f.done.map Ikcpseg.core ++ [c]) hcore
    rw [List.foldl_cons, ih, hone, List.append_assoc, List.singleton_append, List.map_cons]

theorem map_sn_of_core {buf buf' : List Ikcpseg} (h : buf.map Ikcpseg.core = buf'.map Ikcpseg.core) :
    buf.map Ikcpseg.sn = buf'.map Ikcpseg.sn := by
  have hmap := congrArg (List.map (fun c => c.2.2.2.1)) h
  rwa [List.map_map, List.map_map] at hmap

theorem Ikcpcb.Ok.started (h : kcp.Ok) : kcp.started.Ok := by
  obtain ⟨wait, ts, probe, heq⟩ := probeWindow_eq { kcp with acklist := [] }
  unfold Ikcpcb.started
  rw [heq]
  obtain ⟨hsorted, hbelow, hge, hlt, hnBuf, hnQue, hfull, -⟩ := h.receiver
  exact ⟨h.sender, hsorted, hbelow, hge, hlt, hnBuf, hnQue, hfull, fun _ => Nat.zero_le _⟩

theorem Ikcpcb.Ok.admitted (h : kcp.Ok) : kcp.admitted.Ok := by
  have hrmt : kcp.started.rmtWnd.toNat < 2 ^ 16 := h.started.sender.rmtWnd
  have hle := flushWindow_le kcp.started
  refine admitSegments_invariant (fun kcp' seg queue hqueue hdiff h' => ?_) h.started
  exact ⟨h'.sender.admitFirst hqueue (hle.trans_lt hrmt) hdiff rfl, h'.receiver⟩

theorem Ikcpcb.Ok.flush (h : kcp.Ok) : (ikcpFlush kcp).2.Ok := by
  by_cases hupdated : kcp.updated = 0
  · unfold ikcpFlush
    rwa [if_pos hupdated]
  · obtain ⟨ssthresh, cwnd, incr, heq⟩ := ikcpFlush_eq hupdated
    have hcore : kcp.flushing.done.map Ikcpseg.core = kcp.admitted.sndBuf.map Ikcpseg.core :=
      map_core_flushing _ _ _ _ _ _
    rw [heq]
    exact ⟨h.admitted.sender.congr (map_sn_of_core hcore), h.admitted.receiver⟩

/-- Setting the clock changes only when the next flush is. -/
theorem setClock_eq (kcp : Ikcpcb) (current : UInt32) : ∃ slap updated tsFlush, updated ≠ 0
    ∧ setClock kcp current
      = (slap, { kcp with current := current, updated := updated, tsFlush := tsFlush }) := by
  unfold setClock
  dsimp only
  by_cases hupdated : kcp.updated = 0
  · rw [if_pos hupdated]
    split
    · exact ⟨_, 1, _, by decide, rfl⟩
    · exact ⟨_, 1, _, by decide, rfl⟩
  · rw [if_neg hupdated]
    split
    · exact ⟨_, kcp.updated, _, hupdated, rfl⟩
    · exact ⟨_, kcp.updated, _, hupdated, rfl⟩

theorem nextFlush_eq (kcp : Ikcpcb) : ∃ tsFlush, nextFlush kcp = { kcp with tsFlush := tsFlush } := by
  unfold nextFlush
  dsimp only
  split
  · exact ⟨_, rfl⟩
  · exact ⟨_, rfl⟩

/-- **What `ikcp_update` does**: the clock is set, and what is due is sent. -/
theorem ikcpUpdate_cases (kcp : Ikcpcb) (current : UInt32) : ∃ updated tsFlush, updated ≠ 0
    ∧ (ikcpUpdate kcp current
        = ([], { kcp with current := current, updated := updated, tsFlush := tsFlush })
      ∨ ikcpUpdate kcp current
        = ikcpFlush { kcp with current := current, updated := updated, tsFlush := tsFlush }) := by
  obtain ⟨slap, updated, tsFlush, hne, hclock⟩ := setClock_eq kcp current
  unfold ikcpUpdate
  rw [hclock]
  dsimp only
  split
  · obtain ⟨tsFlush', hnext⟩ := nextFlush_eq
      { kcp with current := current, updated := updated, tsFlush := tsFlush }
    rw [hnext]
    exact ⟨updated, tsFlush', hne, Or.inr rfl⟩
  · exact ⟨updated, tsFlush, hne, Or.inl rfl⟩

theorem Ikcpcb.Ok.update (h : kcp.Ok) (current : UInt32) : (ikcpUpdate kcp current).2.Ok := by
  obtain ⟨updated, tsFlush, -, heq | heq⟩ := ikcpUpdate_cases kcp current
  · rw [heq]
    exact ⟨h.sender, h.receiver⟩
  · rw [heq]
    exact Ikcpcb.Ok.flush ⟨h.sender, h.receiver⟩

/-! ## Settings -/

/-- A positive `int` is the same without its sign. -/
theorem toInt_eq_toNat {n : Int32} (h : n > 0) : n.toInt = n.toUInt32.toNat := by
  have hpos : 0 < n.toInt := Int32.lt_iff_toInt_lt.mp h
  have heq : n.toInt = if 2 * n.toUInt32.toNat < 2 ^ 32 then (n.toUInt32.toNat : ℤ)
      else n.toUInt32.toNat - ((2 ^ 32 : ℕ) : ℤ) := BitVec.toInt_eq_toNat_cond n.toBitVec
  have hlt := n.toUInt32.toNat_lt
  split at heq
  · exact heq
  · omega

theorem toNat_toUInt32_lt {n : Int32} (h : n > 0) : n.toUInt32.toNat < 2 ^ 31 := by
  have hlt : n.toInt < 2 ^ 31 := n.toInt_lt
  rw [toInt_eq_toNat h] at hlt
  exact_mod_cast hlt

theorem imax_toNat (a b : UInt32) : (imax a b).toNat = max a.toNat b.toNat := by
  unfold imax
  split
  · next hge => exact (max_eq_left (UInt32.le_iff_toNat_le.mp hge)).symm
  · next hlt => exact (max_eq_right (UInt32.lt_iff_toNat_lt.mp (UInt32.not_le.mp hlt)).le).symm

theorem Ikcpcb.Ok.wndsize (h : kcp.Ok) (sndwnd rcvwnd : Int32) : (ikcpWndsize kcp sndwnd rcvwnd).Ok := by
  obtain ⟨hsorted, hbelow, -, -, hnBuf, hnQue, hfull, hblock⟩ := h.receiver
  have hwnd : rcvwnd > 0 → 128 ≤ (imax rcvwnd.toUInt32 IKCP_WND_RCV).toNat
      ∧ (imax rcvwnd.toUInt32 IKCP_WND_RCV).toNat < 2 ^ 31 := by
    intro hpos
    have hlt := toNat_toUInt32_lt hpos
    have hmin : IKCP_WND_RCV.toNat = 128 := rfl
    rw [imax_toNat, hmin]
    omega
  unfold ikcpWndsize
  dsimp only
  split
  · next hpos =>
    obtain ⟨hge, hlt⟩ := hwnd hpos
    split
    · exact ⟨h.sender, hsorted, hbelow, hge, hlt, hnBuf, hnQue, hfull, hblock⟩
    · exact ⟨h.sender, hsorted, hbelow, hge, hlt, hnBuf, hnQue, hfull, hblock⟩
  · split
    · exact ⟨h.sender, h.receiver⟩
    · exact h

theorem ikcpWndsize_eq (kcp : Ikcpcb) (sndwnd rcvwnd : Int32) : ∃ sndWnd rcvWnd,
    ikcpWndsize kcp sndwnd rcvwnd = { kcp with sndWnd := sndWnd, rcvWnd := rcvWnd } := by
  unfold ikcpWndsize
  dsimp only
  split <;> split <;> exact ⟨_, _, rfl⟩

/-- The settings of the timer change neither what is sent nor what is received. -/
theorem ikcpNodelay_eq (kcp : Ikcpcb) (nodelay interval resend nc : Int32) :
    ∃ nodelay' minrto interval' fastresend nocwnd, ikcpNodelay kcp nodelay interval resend nc
      = { kcp with
          nodelay := nodelay'
          rxMinrto := minrto
          interval := interval'
          fastresend := fastresend
          nocwnd := nocwnd } := by
  unfold ikcpNodelay
  dsimp only
  split <;> split <;> split <;> split <;> exact ⟨_, _, _, _, _, rfl⟩

/-! ## What stays as it was set -/

/-- **What is set** when a control block is created or later, and never changes otherwise. -/
structure Settings where
  conv : UInt32
  mtu : UInt32
  mss : UInt32
  buffer : UInt32
  stream : Int32
  rxMinrto : Int32
  interval : UInt32

def Ikcpcb.settings (kcp : Ikcpcb) : Settings :=
  ⟨kcp.conv, kcp.mtu, kcp.mss, kcp.buffer, kcp.stream, kcp.rxMinrto, kcp.interval⟩

/-- **What stays** whatever arrives and is read: the settings, whether the clock was ever set, the
window, and what has no number yet. -/
structure Untouched where
  settings : Settings
  updated : UInt32
  rcvWnd : UInt32
  sndQueue : List Ikcpseg

def Ikcpcb.untouched (kcp : Ikcpcb) : Untouched :=
  ⟨kcp.settings, kcp.updated, kcp.rcvWnd, kcp.sndQueue⟩

theorem untouched_moveAvailable (kcp : Ikcpcb) :
    (moveAvailable kcp.rcvBuf kcp).untouched = kcp.untouched :=
  moveAvailable_invariant (P := fun k => k.untouched = kcp.untouched) (fun _ _ _ _ _ _ h => h) rfl

theorem untouched_recv (kcp : Ikcpcb) (len : ℤ) : (ikcpRecv kcp len).2.2.untouched = kcp.untouched := by
  rcases ikcpRecv_cases kcp len with ⟨heq, -⟩ | ⟨heq, -⟩ | ⟨heq, -⟩ | ⟨probe, -, -, -, heq⟩
  · rw [heq]
  · rw [heq]
  · rw [heq]
  · rw [heq]
    refine (untouched_moveAvailable (kcp.takeMessage len)).trans ?_
    unfold Ikcpcb.takeMessage
    split
    · rfl
    · rfl

theorem settings_sendFragments (n : ℕ) (buffer : List UInt8) (kcp : Ikcpcb) :
    (sendFragments n buffer kcp).settings = kcp.settings :=
  sendFragments_invariant (P := fun k => k.settings = kcp.settings) (fun _ _ h => h) n buffer rfl

theorem settings_appendStream (kcp : Ikcpcb) (buffer : List UInt8) :
    (appendStream kcp buffer).2.settings = kcp.settings := by
  unfold appendStream
  cases kcp.sndQueue.getLast? with
  | none => rfl
  | some old =>
    dsimp only
    split
    · rfl
    · rfl

theorem settings_send (kcp : Ikcpcb) (buffer : List UInt8) :
    (ikcpSend kcp buffer).2.settings = kcp.settings := by
  have hfilled : (if kcp.stream ≠ 0 then appendStream kcp buffer else (buffer, kcp)).2.settings
      = kcp.settings := by
    split
    · exact settings_appendStream kcp buffer
    · rfl
  unfold ikcpSend
  generalize (if kcp.stream ≠ 0 then appendStream kcp buffer else (buffer, kcp)) = filled at *
  dsimp only
  split
  · exact hfilled
  · split
    · exact hfilled
    · exact (settings_sendFragments _ _ _).trans hfilled

theorem untouched_inputSegment (kcp : Ikcpcb) (maxack : Option UInt32) (seg : Ikcpseg) :
    (inputSegment kcp maxack seg).1.untouched = kcp.untouched := by
  rcases inputSegment_cases kcp maxack seg with ⟨-, heq⟩ | ⟨-, hwnd, hnxt, heq⟩ | ⟨-, -, heq⟩ | ⟨probe, heq⟩
  · obtain ⟨rttval, srtt, rto, undefined, hmeasured⟩ := measured_eq (kcp.acknowledged seg) seg.ts
    rw [heq, hmeasured]
    show (ikcpParseAck _ _).untouched = kcp.untouched
    unfold ikcpParseAck
    split
    · rfl
    · rfl
  · rw [heq]
    show (ikcpParseData (ikcpAckPush (kcp.acknowledged seg) seg.sn seg.ts) seg).untouched = kcp.untouched
    rw [ikcpParseData_eq (ikcpAckPush (kcp.acknowledged seg) seg.sn seg.ts) hwnd hnxt,
      untouched_moveAvailable]
    unfold Ikcpcb.storeSegment
    split
    · rfl
    · rfl
  · rw [heq]
    rfl
  · rw [heq]
    rfl

theorem untouched_input (kcp : Ikcpcb) (data : List UInt8) :
    (ikcpInput kcp data).2.untouched = kcp.untouched := by
  rcases ikcpInput_cases kcp data with ⟨-, heq⟩ | ⟨ret, read, maxack, -, hloop, hcases⟩
  · rw [heq]
  · have hread : (inputLoop (data.length + 1) kcp none data).2.1.untouched = kcp.untouched :=
      inputLoop_invariant (P := fun k => k.untouched = kcp.untouched)
        (fun k maxack seg _ h => (untouched_inputSegment k maxack seg).trans h) _ none data rfl
    rw [hloop] at hread
    rcases hcases with ⟨-, heq⟩ | ⟨cwnd, incr, -, heq⟩
    · rw [heq]
      exact hread
    · rw [heq]
      refine Eq.trans ?_ hread
      cases maxack with
      | none => rfl
      | some sn =>
        show (ikcpParseFastack read sn).untouched = read.untouched
        unfold ikcpParseFastack
        split
        · rfl
        · rfl

theorem settings_inputSegment (kcp : Ikcpcb) (maxack : Option UInt32) (seg : Ikcpseg) :
    (inputSegment kcp maxack seg).1.settings = kcp.settings :=
  congrArg Untouched.settings (untouched_inputSegment kcp maxack seg)

theorem settings_flush (kcp : Ikcpcb) : (ikcpFlush kcp).2.settings = kcp.settings := by
  by_cases hupdated : kcp.updated = 0
  · unfold ikcpFlush
    rw [if_pos hupdated]
  · obtain ⟨ssthresh, cwnd, incr, heq⟩ := ikcpFlush_eq hupdated
    have hstarted : kcp.started.settings = kcp.settings := by
      obtain ⟨wait, ts, probe, hprobe⟩ := probeWindow_eq { kcp with acklist := [] }
      unfold Ikcpcb.started
      rw [hprobe]
      rfl
    rw [heq]
    exact admitSegments_invariant (P := fun k => k.settings = kcp.settings) (fun _ _ _ _ _ h => h) hstarted

/-! ## Any calls -/

/-- **A buffer** whose length is an `int`. -/
abbrev Buffer : Type := {buffer : List UInt8 // buffer.length < 2 ^ 31}

/-- Two bytes. -/
def Buffer.hi : Buffer := ⟨[104, 105], by decide⟩

/-- **What the program asks for**, apart from giving in what has arrived. -/
inductive Request where
  | recv (len : ℤ)
  | send (buffer : Buffer)
  | flush
  | update (current : UInt32)
  | setmtu (mtu : Int32)
  | interval (interval : Int32)
  | nodelay (nodelay interval resend nc : Int32)
  | wndsize (sndwnd rcvwnd : Int32)

/-- The control block after a request, and the datagrams that were sent. -/
def Ikcpcb.request (kcp : Ikcpcb) : Request → List (List UInt8) × Ikcpcb
  | .recv len => ([], (ikcpRecv kcp len).2.2)
  | .send buffer => ([], (ikcpSend kcp buffer.val).2)
  | .flush => ikcpFlush kcp
  | .update current => ikcpUpdate kcp current
  | .setmtu mtu => ([], (ikcpSetmtu kcp mtu).2)
  | .interval interval => ([], ikcpInterval kcp interval)
  | .nodelay nodelay interval resend nc => ([], ikcpNodelay kcp nodelay interval resend nc)
  | .wndsize sndwnd rcvwnd => ([], ikcpWndsize kcp sndwnd rcvwnd)

/-- **A call of the library**, with whatever it is given. -/
inductive Call where
  | request (req : Request)
  | input (data : List UInt8)

/-- The control block after a call. -/
def Ikcpcb.call (kcp : Ikcpcb) : Call → Ikcpcb
  | .request req => (kcp.request req).2
  | .input data => (ikcpInput kcp data).2

/-- The control block after a call that does nothing undefined. -/
def Ikcpcb.called (kcp : Ikcpcb) (c : Call) : Option Ikcpcb :=
  if (kcp.call c).undefined then none else some (kcp.call c)

/-- **The control block after some calls**, none of which does anything undefined. -/
def Ikcpcb.calls (kcp : Ikcpcb) (calls : List Call) : Option Ikcpcb := calls.foldlM Ikcpcb.called kcp

theorem called_eq {kcp' : Ikcpcb} {c : Call} (h : kcp.called c = some kcp') : kcp' = kcp.call c := by
  unfold Ikcpcb.called at h
  split at h
  · cases h
  · exact (Option.some.inj h).symm

theorem ikcpSetmtu_eq (kcp : Ikcpcb) (mtu : Int32) : ∃ mtu' mss buffer,
    (ikcpSetmtu kcp mtu).2 = { kcp with mtu := mtu', mss := mss, buffer := buffer } := by
  unfold ikcpSetmtu
  split
  · exact ⟨_, _, _, rfl⟩
  · exact ⟨_, _, _, rfl⟩

theorem Ikcpcb.Ok.request (h : kcp.Ok) (req : Request) : (kcp.request req).2.Ok := by
  cases req with
  | recv len => exact h.recv len
  | send buffer => exact h.send buffer.val
  | flush => exact h.flush
  | update current => exact h.update current
  | setmtu mtu =>
    obtain ⟨_, _, _, heq⟩ := ikcpSetmtu_eq kcp mtu
    show (ikcpSetmtu kcp mtu).2.Ok
    rw [heq]
    exact ⟨h.sender, h.receiver⟩
  | interval interval => exact ⟨h.sender, h.receiver⟩
  | nodelay nodelay interval resend nc =>
    obtain ⟨_, _, _, _, _, heq⟩ := ikcpNodelay_eq kcp nodelay interval resend nc
    show (ikcpNodelay kcp nodelay interval resend nc).Ok
    rw [heq]
    exact ⟨h.sender, h.receiver⟩
  | wndsize sndwnd rcvwnd => exact h.wndsize sndwnd rcvwnd

theorem Ikcpcb.Ok.call (h : kcp.Ok) (c : Call) : (kcp.call c).Ok := by
  cases c with
  | request req => exact h.request req
  | input data => exact h.input data

/-- **The invariant rule for calls**: what every call keeps holds after any of them. -/
theorem Ikcpcb.calls_invariant {P : Ikcpcb → Prop} (hcall : ∀ kcp c, P kcp → P (kcp.call c))
    {calls : List Call} {kcp kcp' : Ikcpcb} (h : P kcp) (hcalls : kcp.calls calls = some kcp') :
    P kcp' := by
  induction calls generalizing kcp with
  | nil => exact Option.some.inj hcalls ▸ h
  | cons c calls ih =>
    obtain ⟨next, hnext, hrest⟩ := Option.bind_eq_some_iff.mp hcalls
    exact ih (called_eq hnext ▸ hcall kcp c h) hrest

/-- **The windows are in order after any calls**, in either mode, as long as these do nothing
undefined. -/
theorem ok_after (conv : UInt32) (stream : Int32) (calls : List Call) {kcp : Ikcpcb}
    (h : ({ ikcpCreate conv with stream := stream } : Ikcpcb).calls calls = some kcp) : kcp.Ok := by
  have hnew : ({ ikcpCreate conv with stream := stream } : Ikcpcb).Ok :=
    ⟨(Ikcpcb.Ok.create conv).sender, (Ikcpcb.Ok.create conv).receiver⟩
  exact Ikcpcb.calls_invariant (fun _ c hok => hok.call c) hnew h

/-- A message is sent, and the mtu is lowered behind it. -/
theorem ok_after_lowered : ∃ kcp,
    (ikcpCreate 7).calls [.request (.send .hi), .request (.update 0), .request (.update 100),
      .request (.setmtu 50), .input [1, 2]] = some kcp ∧ kcp.Ok := by
  obtain ⟨kcp, h⟩ := Option.isSome_iff_exists.mp (show ((ikcpCreate 7).calls [.request (.send .hi),
    .request (.update 0), .request (.update 100), .request (.setmtu 50), .input [1, 2]]).isSome
      by decide)
  exact ⟨kcp, h, ok_after 7 0 _ h⟩

end

end Kcp
