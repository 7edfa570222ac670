import LinuxLearn.KcpLink

/-!
# What a round trip acknowledges

A segment stays in the send buffer, and is sent again when its time has come, until word
comes that it has arrived. So nothing waits for ever on a network that lets enough through:
when one program flushes, all that it puts out arrives, the other one flushes, and all that
it puts out arrives, then every segment that was due and within the window is acknowledged
(`acknowledged_of_round_trip`). It does not matter in which order the datagrams arrive, how
often, and which older ones come in between.
-/

open SlidingWindow

namespace Kcp

variable {kcp : Ikcpcb} {seg seg' : Ikcpseg} {sn ts : UInt32} {buf segs : List Ikcpseg}

/-! ## What is sent -/

/-- An acknowledgement that is due is sent. -/
theorem ack_mem_sends (h : (sn, ts) ∈ kcp.acklist) : { flushSeg kcp with sn := sn, ts := ts } ∈ kcp.sends :=
  List.mem_append_left _ (List.mem_append_left _
    (List.mem_map_of_mem (f := fun ack : UInt32 × UInt32 => { flushSeg kcp with sn := ack.1, ts := ack.2 }) h))

/-- A segment that is due is sent. -/
theorem due_mem_sends (hmem : seg ∈ kcp.admitted.sndBuf) (hdue : kcp.dueSeg seg = some seg') :
    seg' ∈ kcp.sends :=
  List.mem_append_right _ (List.mem_filterMap.mpr ⟨seg, hmem, hdue⟩)

theorem core_of_dueSeg (h : kcp.dueSeg seg = some seg') : seg'.core = seg.core := by
  unfold Ikcpcb.dueSeg at h
  obtain ⟨⟨cause, sent⟩, hdue, rfl⟩ := Option.map_eq_some_iff.mp h
  exact (core_of_due hdue : sent.core = seg.core)

/-! ## What an acknowledgement does -/

/-- A segment of a number waits for its acknowledgement. -/
def Ikcpcb.Unacked (kcp : Ikcpcb) (sn : UInt32) : Prop := ∃ seg ∈ kcp.sndBuf, seg.sn = sn

/-- **The segment of a number is found** in a buffer that is in order. -/
theorem sn_ne_of_mem_removeAcked {base : UInt32} (hsorted : Sorted base buf)
    (hbelow : ∀ seg ∈ buf, dist base seg.sn < 2 ^ 31) (hsn : dist base sn < 2 ^ 31) :
    ∀ seg ∈ removeAcked sn buf, seg.sn ≠ sn := by
  induction buf with
  | nil => exact fun _ hseg => absurd hseg List.not_mem_nil
  | cons first buf ih =>
    have hrest : ∀ seg ∈ buf, dist base first.sn < dist base seg.sn :=
      fun seg hseg => List.rel_of_pairwise_cons hsorted hseg
    intro seg hseg heq
    unfold removeAcked at hseg
    by_cases hfirst : sn = first.sn
    · rw [if_pos hfirst] at hseg
      have hlt := hrest seg hseg
      rw [heq, hfirst] at hlt
      exact Nat.lt_irrefl _ hlt
    · rw [if_neg hfirst] at hseg
      by_cases hless : itimediff sn first.sn < 0
      · rw [if_pos hless] at hseg
        rw [itimediff_dist hsn (hbelow first List.mem_cons_self)] at hless
        rcases List.mem_cons.mp hseg with rfl | hseg
        · exact hfirst heq.symm
        · have hlt := hrest seg hseg
          rw [heq] at hlt
          omega
      · rw [if_neg hless] at hseg
        rcases List.mem_cons.mp hseg with rfl | hseg
        · exact hfirst heq.symm
        · exact ih hsorted.of_cons (fun seg hseg => hbelow seg (List.mem_cons_of_mem _ hseg)) seg hseg heq

/-- **What is acknowledged no longer waits.** -/
theorem not_unacked_parseAck (h : kcp.Ok) (sn : UInt32) :
    ¬ (ikcpShrinkBuf (ikcpParseAck kcp sn)).Unacked sn := by
  rintro ⟨seg, hseg, hsn⟩
  have hwindow : dist kcp.sndUna kcp.sndNxt < 2 ^ 16 := h.sender.window
  have hbelow : ∀ seg ∈ kcp.sndBuf, dist kcp.sndUna seg.sn < dist kcp.sndUna kcp.sndNxt := h.sender.below
  change seg ∈ (ikcpParseAck kcp sn).sndBuf at hseg
  unfold ikcpParseAck at hseg
  by_cases hout : itimediff sn kcp.sndUna < 0 ∨ itimediff sn kcp.sndNxt ≥ 0
  · rw [if_pos hout] at hseg
    have hlt := hbelow seg hseg
    rw [hsn] at hlt
    have hlow : itimediff sn kcp.sndUna = (dist kcp.sndUna sn : ℤ) - dist kcp.sndUna kcp.sndUna :=
      itimediff_dist (by omega) (by rw [dist_self]; decide)
    have hhigh : itimediff sn kcp.sndNxt = (dist kcp.sndUna sn : ℤ) - dist kcp.sndUna kcp.sndNxt :=
      itimediff_dist (by omega) (by omega)
    rw [hlow, hhigh, dist_self] at hout
    omega
  · rw [if_neg hout] at hseg
    have hmem := (removeAcked_sublist sn kcp.sndBuf).subset hseg
    have hlt := hbelow seg hmem
    rw [hsn] at hlt
    have hsorted : Sorted kcp.sndUna kcp.sndBuf := h.sender.sorted
    have hlong : ∀ seg ∈ kcp.sndBuf, dist kcp.sndUna seg.sn < 2 ^ 31 :=
      fun seg hseg => (hbelow seg hseg).trans (by omega)
    exact sn_ne_of_mem_removeAcked hsorted hlong (by omega) seg hseg hsn

theorem Ikcpcb.Unacked.sub {k : Ikcpcb} (h : k.Unacked sn)
    (hsub : ∀ seg ∈ k.sndBuf, ∃ seg' ∈ kcp.sndBuf, seg.sn = seg'.sn) : kcp.Unacked sn := by
  obtain ⟨seg, hseg, hsn⟩ := h
  obtain ⟨seg', hseg', heq⟩ := hsub seg hseg
  exact ⟨seg', hseg', heq ▸ hsn⟩

/-- Nothing that arrives puts a segment into the buffer. -/
theorem unacked_of_inputSegment {maxack : Option UInt32} (h : (inputSegment kcp maxack seg).1.Unacked sn) :
    kcp.Unacked sn := by
  have hacked : (kcp.acknowledged seg).Unacked sn → kcp.Unacked sn :=
    fun h => h.sub (fun seg' hseg' => ⟨seg', (notBefore_sublist seg.una kcp.sndBuf).subset hseg', rfl⟩)
  rcases inputSegment_cases kcp maxack seg with ⟨-, heq⟩ | ⟨-, hwnd, hnxt, heq⟩ | ⟨-, -, heq⟩ | ⟨probe, heq⟩
  · rw [heq] at h
    obtain ⟨rttval, srtt, rto, undefined, hmeasured⟩ := measured_eq (kcp.acknowledged seg) seg.ts
    change (ikcpParseAck ((kcp.acknowledged seg).measured seg.ts) seg.sn).Unacked sn at h
    refine hacked (h.sub (fun seg' hseg' => ⟨seg', ?_, rfl⟩))
    rw [hmeasured] at hseg'
    unfold ikcpParseAck at hseg'
    split at hseg'
    · exact hseg'
    · exact (removeAcked_sublist seg.sn (kcp.acknowledged seg).sndBuf).subset hseg'
  · have hstored : (ikcpParseData (ikcpAckPush (kcp.acknowledged seg) seg.sn seg.ts) seg).sender
        = (kcp.acknowledged seg).sender := by
      rw [ikcpParseData_eq (ikcpAckPush (kcp.acknowledged seg) seg.sn seg.ts) hwnd hnxt]
      refine (moveAvailable_invariant (P := fun k => k.sender = (kcp.acknowledged seg).sender)
        (fun _ _ _ _ _ _ h => h) ?_)
      unfold Ikcpcb.storeSegment
      split
      · rfl
      · rfl
    rw [heq] at h
    have hbuf : (ikcpParseData (ikcpAckPush (kcp.acknowledged seg) seg.sn seg.ts) seg).sndBuf
        = (kcp.acknowledged seg).sndBuf := congrArg Sender.buf hstored
    exact hacked (h.sub (fun seg' hseg' => ⟨seg', hbuf ▸ hseg', rfl⟩))
  · rw [heq] at h
    exact hacked h
  · rw [heq] at h
    exact hacked h

/-- What an acknowledgement does. -/
theorem inputSegment_ack (kcp : Ikcpcb) (maxack : Option UInt32) (h : seg.cmd = IKCP_CMD_ACK) :
    (inputSegment kcp maxack seg).1
      = ikcpShrinkBuf (ikcpParseAck ((kcp.acknowledged seg).measured seg.ts) seg.sn) := by
  unfold inputSegment
  rw [if_pos h]
  rfl

theorem unacked_of_inputSegments :
    ∀ (segs : List Ikcpseg) (kcp : Ikcpcb) (maxack : Option UInt32),
      (inputSegments kcp maxack segs).1.Unacked sn → kcp.Unacked sn := by
  intro segs
  induction segs with
  | nil => exact fun _ _ h => h
  | cons seg segs ih => exact fun _ _ h => unacked_of_inputSegment (ih _ _ h)

/-- **A segment acknowledges its own number**, wherever it is among others. -/
theorem not_unacked_inputSegments :
    ∀ (segs : List Ikcpseg) (kcp : Ikcpcb) (maxack : Option UInt32), kcp.Ok →
      (∀ seg ∈ segs, seg.wnd.toNat < 2 ^ 16) → seg ∈ segs → seg.cmd = IKCP_CMD_ACK →
      ¬ (inputSegments kcp maxack segs).1.Unacked seg.sn := by
  intro segs
  induction segs with
  | nil => exact fun _ _ _ _ hseg => absurd hseg List.not_mem_nil
  | cons first segs ih =>
    intro kcp maxack hok hwnd hseg hcmd hunacked
    have hfirst := hwnd first List.mem_cons_self
    rcases List.mem_cons.mp hseg with rfl | hseg
    · have hone : (inputSegment kcp maxack seg).1.Unacked seg.sn := unacked_of_inputSegments segs _ _ hunacked
      rw [inputSegment_ack kcp maxack hcmd] at hone
      exact not_unacked_parseAck ((hok.acknowledged hfirst).measured seg.ts) seg.sn hone
    · exact ih _ _ (hok.inputSegment hfirst maxack)
        (fun seg hseg => hwnd seg (List.mem_cons_of_mem _ hseg)) hseg hcmd hunacked

/-- What comes after the segments of a datagram leaves the buffer what it is. -/
theorem unacked_of_parseMaxack (maxack : Option UInt32) (h : (parseMaxack kcp maxack).Unacked sn) :
    kcp.Unacked sn := by
  refine h.sub (fun seg hseg => ?_)
  have hmap : (parseMaxack kcp maxack).sndBuf.map Ikcpseg.sn = kcp.sndBuf.map Ikcpseg.sn := by
    cases maxack with
    | none => rfl
    | some sn =>
      show (ikcpParseFastack kcp sn).sndBuf.map Ikcpseg.sn = _
      unfold ikcpParseFastack
      split
      · rfl
      · exact map_skipBefore Ikcpseg.sn (fun _ _ => rfl) sn kcp.sndBuf
  have hmem : seg.sn ∈ kcp.sndBuf.map Ikcpseg.sn := hmap ▸ List.mem_map_of_mem hseg
  obtain ⟨seg', hseg', heq⟩ := List.mem_map.mp hmem
  exact ⟨seg', hseg', heq.symm⟩

/-- **What arrives puts nothing into the buffer**, whatever it is. -/
theorem unacked_of_input {data : List UInt8} (h : (ikcpInput kcp data).2.Unacked sn) : kcp.Unacked sn := by
  rcases ikcpInput_cases kcp data with ⟨-, heq⟩ | ⟨ret, read, maxack, -, hloop, hcases⟩
  · rwa [heq] at h
  · have hread : (inputLoop (data.length + 1) kcp none data).2.1.Unacked sn → kcp.Unacked sn :=
      inputLoop_invariant (P := fun k => k.Unacked sn → kcp.Unacked sn)
        (fun k maxack seg _ hk h => hk (unacked_of_inputSegment h)) _ none data id
    rw [hloop] at hread
    rcases hcases with ⟨-, heq⟩ | ⟨cwnd, incr, -, heq⟩
    · rw [heq] at h
      exact hread h
    · rw [heq] at h
      exact hread (unacked_of_parseMaxack maxack h)

/-- **A datagram with an acknowledgement** takes the segment out of the buffer. -/
theorem not_unacked_input (hok : kcp.Ok) (hread : ∀ seg ∈ segs, seg.Readable kcp.conv) (hseg : seg ∈ segs)
    (hcmd : seg.cmd = IKCP_CMD_ACK) : ¬ (ikcpInput kcp (datagram segs)).2.Unacked seg.sn := by
  intro hunacked
  obtain ⟨maxack, cwnd, incr, heq⟩ := ikcpInput_datagram (List.ne_nil_of_mem hseg) hread
  rw [heq] at hunacked
  have hcmd' : seg.received.cmd = IKCP_CMD_ACK := (hread seg hseg).cmd.toUInt8.trans hcmd
  have hwnd : ∀ seg' ∈ segs.map Ikcpseg.received, seg'.wnd.toNat < 2 ^ 16 := by
    intro seg' hseg'
    obtain ⟨first, -, rfl⟩ := List.mem_map.mp hseg'
    exact UInt16.toNat_lt _
  have hmem : seg.received ∈ segs.map Ikcpseg.received := List.mem_map_of_mem hseg
  have hnot := not_unacked_inputSegments _ kcp none hok hwnd hmem hcmd'
  exact hnot (unacked_of_parseMaxack maxack hunacked)

/-! ## What is acknowledged -/

/-- An acknowledgement of a number is due. -/
def Ikcpcb.Owes (kcp : Ikcpcb) (sn : UInt32) : Prop := ∃ ts, (sn, ts) ∈ kcp.acklist

theorem acklist_parseData (kcp : Ikcpcb) (seg : Ikcpseg) :
    (ikcpParseData kcp seg).acklist = kcp.acklist := by
  unfold ikcpParseData
  split
  · rfl
  · refine moveAvailable_invariant (P := fun k => k.acklist = kcp.acklist) (fun _ _ _ _ _ _ h => h) ?_
    split
    · rfl
    · rfl

/-- **A segment that is within the window** is to be acknowledged, also if it was before. -/
theorem acklist_inputSegment_push (kcp : Ikcpcb) (maxack : Option UInt32) (hcmd : seg.cmd = IKCP_CMD_PUSH)
    (hwnd : itimediff seg.sn (kcp.rcvNxt + kcp.rcvWnd) < 0) :
    (inputSegment kcp maxack seg).1.acklist = kcp.acklist ++ [(seg.sn, seg.ts)] := by
  have hne : ¬ seg.cmd = IKCP_CMD_ACK := by
    rw [hcmd]
    decide
  have hacked : itimediff seg.sn ((kcp.acknowledged seg).rcvNxt + (kcp.acknowledged seg).rcvWnd) < 0 := hwnd
  have hpushed : (inputSegment kcp maxack seg).1
      = if itimediff seg.sn (kcp.acknowledged seg).rcvNxt ≥ 0
        then ikcpParseData (ikcpAckPush (kcp.acknowledged seg) seg.sn seg.ts) seg
        else ikcpAckPush (kcp.acknowledged seg) seg.sn seg.ts := by
    unfold inputSegment
    dsimp only
    rw [if_neg hne, if_pos hcmd]
    refine (congrArg Prod.fst (if_pos hacked)).trans ?_
    split
    · next hge => exact (if_pos hge).symm
    · next hlt => exact (if_neg hlt).symm
  rw [hpushed]
  split
  · exact acklist_parseData _ seg
  · rfl

/-- What is to be acknowledged stays so while segments arrive. -/
theorem acklist_subset_inputSegment (kcp : Ikcpcb) (maxack : Option UInt32) (seg : Ikcpseg) :
    kcp.acklist ⊆ (inputSegment kcp maxack seg).1.acklist := by
  have hadd : kcp.acklist ⊆ kcp.acklist ++ [(seg.sn, seg.ts)] := List.subset_append_left _ _
  rcases inputSegment_cases kcp maxack seg with ⟨-, heq⟩ | ⟨-, hwnd, hnxt, heq⟩ | ⟨-, -, heq⟩ | ⟨probe, heq⟩
  · have hsame : (ikcpShrinkBuf (ikcpParseAck ((kcp.acknowledged seg).measured seg.ts) seg.sn)).receiver
        = kcp.receiver := by
      rw [receiver_parseAck, (measured_views (kcp.acknowledged seg) seg.ts).2]
      rfl
    have hacks : (ikcpShrinkBuf (ikcpParseAck ((kcp.acknowledged seg).measured seg.ts) seg.sn)).acklist
        = kcp.acklist := congrArg Receiver.acks hsame
    rw [heq, hacks]
    exact List.Subset.refl _
  · rw [heq]
    show _ ⊆ (ikcpParseData (ikcpAckPush (kcp.acknowledged seg) seg.sn seg.ts) seg).acklist
    rw [acklist_parseData]
    exact hadd
  · rw [heq]
    exact hadd
  · rw [heq]
    exact List.Subset.refl _

theorem owes_inputSegments : ∀ (segs : List Ikcpseg) (kcp : Ikcpcb) (maxack : Option UInt32),
    kcp.Owes sn → (inputSegments kcp maxack segs).1.Owes sn := by
  intro segs
  induction segs with
  | nil => exact fun _ _ h => h
  | cons seg segs ih =>
    rintro kcp maxack ⟨ts, h⟩
    exact ih _ _ ⟨ts, acklist_subset_inputSegment kcp maxack seg h⟩

theorem acklist_parseMaxack (kcp : Ikcpcb) (maxack : Option UInt32) :
    (parseMaxack kcp maxack).acklist = kcp.acklist := by
  cases maxack with
  | none => rfl
  | some sn =>
    show (ikcpParseFastack kcp sn).acklist = _
    unfold ikcpParseFastack
    split
    · rfl
    · rfl

theorem owes_input (data : List UInt8) (h : kcp.Owes sn) : (ikcpInput kcp data).2.Owes sn := by
  rcases ikcpInput_cases kcp data with ⟨-, heq⟩ | ⟨ret, read, maxack, -, hloop, hcases⟩
  · rwa [heq]
  · have hread : (inputLoop (data.length + 1) kcp none data).2.1.Owes sn :=
      inputLoop_invariant (P := fun k => k.Owes sn) (fun k maxack seg _ ⟨ts, hk⟩ =>
        ⟨ts, acklist_subset_inputSegment k maxack seg hk⟩) _ none data h
    rw [hloop] at hread
    rcases hcases with ⟨-, heq⟩ | ⟨cwnd, incr, -, heq⟩
    · rwa [heq]
    · rw [heq]
      obtain ⟨ts, hts⟩ := hread
      exact ⟨ts, (acklist_parseMaxack read maxack).symm ▸ hts⟩

variable {hs hr : State Payload} {read : List Payload}

/-- **A number within the window of an endpoint**, none of whose numbers wrap around. -/
structure InWindow (kcp : Ikcpcb) (hr : State Payload) (sn : UInt32) : Prop where
  lt : sn.toNat < kcp.rcvNxt.toNat + kcp.rcvWnd.toNat
  bound : hr.sent.length + kcp.rcvWnd.toNat < 2 ^ 31

theorem InWindow.itimediff_lt (h : InWindow kcp hr sn) (he : Endpoint kcp read hs hr) (hlive : Live hr) :
    itimediff sn (kcp.rcvNxt + kcp.rcvWnd) < 0 := by
  have hnxt : kcp.rcvNxt.toNat = hr.got.length := he.receives.nxt
  have hle := hlive.reachable.got_isPrefix.length_le
  have hbound := h.bound
  have hlt := h.lt
  have hsum : (kcp.rcvNxt + kcp.rcvWnd).toNat = kcp.rcvNxt.toNat + kcp.rcvWnd.toNat := by
    rw [UInt32.toNat_add]
    omega
  rw [itimediff_of_lt (by omega) (by omega), hsum]
  omega

/-- The window does not go back. -/
theorem InWindow.mono {kcp' : Ikcpcb} {hs' hr' : State Payload} (h : InWindow kcp hr sn)
    (he : Endpoint kcp read hs hr) (he' : Endpoint kcp' read hs' hr') (htakes : Takes hr hr')
    (hwnd : kcp'.rcvWnd = kcp.rcvWnd) : InWindow kcp' hr' sn := by
  have hnxt : kcp.rcvNxt.toNat = hr.got.length := he.receives.nxt
  have hnxt' : kcp'.rcvNxt.toNat = hr'.got.length := he'.receives.nxt
  have hle := htakes.steps.got_isPrefix.length_le
  have hlt := h.lt
  refine ⟨?_, ?_⟩
  · rw [hwnd]
    omega
  · rw [hwnd, htakes.sent]
    exact h.bound

/-- **A segment of the other side that is within the window** is to be acknowledged, wherever it
is in its datagram. -/
theorem Endpoint.owes_inputSegments : ∀ (segs : List Ikcpseg) (kcp : Ikcpcb) {hs hr : State Payload}
    (maxack : Option UInt32), Endpoint kcp read hs hr → Live hs → Live hr →
    (∀ seg ∈ segs, Carries kcp.conv hr hs seg) → seg ∈ segs → seg.cmd = IKCP_CMD_PUSH →
    InWindow kcp hr seg.sn → (Kcp.inputSegments kcp maxack (segs.map Ikcpseg.received)).1.Owes seg.sn := by
  intro segs
  induction segs with
  | nil => exact fun _ _ _ _ _ _ _ _ hseg => absurd hseg List.not_mem_nil
  | cons first segs ih =>
    intro kcp hs hr maxack he hlives hliver hc hseg hcmd hin
    rcases List.mem_cons.mp hseg with rfl | hseg
    · have hcmd' : seg.received.cmd = IKCP_CMD_PUSH :=
        ((hc seg List.mem_cons_self).readable.cmd.toUInt8).trans hcmd
      have hadded := acklist_inputSegment_push kcp maxack hcmd' (hin.itimediff_lt he hliver)
      have hmem : (seg.sn, seg.ts) ∈ (Kcp.inputSegment kcp maxack seg.received).1.acklist := by
        rw [hadded]
        exact List.mem_append_right _ (List.mem_singleton.mpr rfl)
      exact Kcp.owes_inputSegments _ (Kcp.inputSegment kcp maxack seg.received).1 _ ⟨seg.ts, hmem⟩
    · have hwnd : first.received.wnd.toNat < 2 ^ 16 := UInt16.toNat_lt _
      obtain ⟨hs₁, hr₁, hreleases, htakes, he₁⟩ :=
        he.inputSegment hlives hliver hwnd (hc first List.mem_cons_self).received maxack
      have huntouched := untouched_inputSegment kcp maxack first.received
      have hconv : (Kcp.inputSegment kcp maxack first.received).1.conv = kcp.conv :=
        congrArg (fun u => u.settings.conv) huntouched
      have hrcvWnd : (Kcp.inputSegment kcp maxack first.received).1.rcvWnd = kcp.rcvWnd :=
        congrArg Untouched.rcvWnd huntouched
      exact ih (Kcp.inputSegment kcp maxack first.received).1 _ he₁ (hlives.releases hreleases) (hliver.takes htakes)
        (fun seg' hseg' => hconv ▸ (hc seg' (List.mem_cons_of_mem _ hseg')).mono htakes.steps hreleases.steps)
        hseg hcmd (hin.mono he he₁ htakes hrcvWnd)

/-- **A datagram with such a segment arrives.** -/
theorem Endpoint.owes_input (he : Endpoint kcp read hs hr) (hlives : Live hs) (hliver : Live hr)
    (hc : ∀ seg ∈ segs, Carries kcp.conv hr hs seg) (hseg : seg ∈ segs) (hcmd : seg.cmd = IKCP_CMD_PUSH)
    (hin : InWindow kcp hr seg.sn) : (ikcpInput kcp (datagram segs)).2.Owes seg.sn := by
  obtain ⟨ts, hts⟩ := he.owes_inputSegments segs kcp none hlives hliver hc hseg hcmd hin
  obtain ⟨maxack, cwnd, incr, heq⟩ :=
    ikcpInput_datagram (List.ne_nil_of_mem hseg) (fun seg hseg => (hc seg hseg).readable)
  rw [heq]
  exact ⟨ts, (acklist_parseMaxack _ maxack).symm ▸ hts⟩

/-! ## A round trip -/

variable {conv : UInt32} {stream : Int32} {link link' : End → Party} {ends : End → List Payload}
  {windows windows' : End → State Payload}

/-- Datagrams arrive at one end, one after another. -/
def arrivals (y : End) (is : List ℕ) : List Event := is.map (Event.arrive y)

/-- **What arrivals at one end do**: nothing at the other end and nothing to what is put out; what
is to be acknowledged stays so, and nothing comes to wait for its acknowledgement. -/
structure Arrived (conv : UInt32) (stream : Int32) (y : End) (ends : End → List Payload)
    (link link' : End → Party) (windows windows' : End → State Payload) : Prop where
  between : Between conv stream link' ends windows'
  takes : Takes (windows y.peer) (windows' y.peer)
  steps : Steps (windows y) (windows' y)
  other : link' y.peer = link y.peer
  out : (link' y).out = (link y).out
  untouched : (link' y).kcp.untouched = (link y).kcp.untouched
  owes : ∀ sn, (link y).kcp.Owes sn → (link' y).kcp.Owes sn
  unacked : ∀ sn, (link' y).kcp.Unacked sn → (link y).kcp.Unacked sn

/-- One datagram. -/
theorem Between.arrive (h : Between conv stream link ends windows) (y : End) (i : ℕ) :
    ∃ windows', Arrived conv stream y ends link (step link (.arrive y i)) windows windows' := by
  have hpeer := h y.peer
  rw [End.peer_peer] at hpeer
  unfold step
  dsimp only
  cases hdata : (link y.peer).out[i]? with
  | none =>
    exact ⟨windows, h, .refl, .refl, rfl, rfl, rfl, fun _ h => h, fun _ h => h⟩
  | some data =>
    obtain ⟨hs', hr', hoffers, htakes, hend⟩ :=
      (h y).arrive hpeer.live (hpeer.out data (List.mem_of_getElem? hdata))
    obtain ⟨windows', h', hs, hr⟩ := h.update y hoffers htakes hend
    rw [Function.update_eq_self] at h'
    refine ⟨windows', h', hr.symm ▸ htakes, hs.symm ▸ hoffers.steps, Function.update_of_ne y.peer_ne _ _,
      ?_, ?_, fun sn hsn => ?_, fun sn hsn => ?_⟩
    · dsimp only
      rw [Function.update_self]
      rfl
    · dsimp only
      rw [Function.update_self]
      exact untouched_input _ _
    · dsimp only
      rw [Function.update_self]
      exact owes_input data hsn
    · dsimp only at hsn
      rw [Function.update_self] at hsn
      exact unacked_of_input hsn

theorem Between.arrivals (h : Between conv stream link ends windows) (y : End) (is : List ℕ) :
    ∃ windows', Arrived conv stream y ends link ((Kcp.arrivals y is).foldl step link) windows windows' := by
  induction is generalizing link windows with
  | nil => exact ⟨windows, h, .refl, .refl, rfl, rfl, rfl, fun _ h => h, fun _ h => h⟩
  | cons i is ih =>
    obtain ⟨windows₁, h₁⟩ := h.arrive y i
    obtain ⟨windows₂, h₂⟩ := ih h₁.between
    exact ⟨windows₂, h₂.between, h₁.takes.trans h₂.takes, h₁.steps.trans h₂.steps, h₂.other.trans h₁.other,
      h₂.out.trans h₁.out, h₂.untouched.trans h₁.untouched, fun sn hsn => h₂.owes sn (h₁.owes sn hsn),
      fun sn hsn => h₁.unacked sn (h₂.unacked sn hsn)⟩

/-- One of some arrivals, and those before and after it. -/
theorem exists_arrival (link : End → Party) (y : End) {is : List ℕ} {i : ℕ} (hi : i ∈ is) : ∃ before after,
    (arrivals y is).foldl step link
      = (arrivals y after).foldl step (step ((arrivals y before).foldl step link) (.arrive y i)) := by
  obtain ⟨before, after, rfl⟩ := List.append_of_mem hi
  refine ⟨before, after, ?_⟩
  unfold arrivals
  rw [List.map_append, List.foldl_append, List.map_cons, List.foldl_cons]

/-- A datagram that was put out arrives. -/
theorem step_arrive {y : End} {i : ℕ} {data : List UInt8} (hdata : (link y.peer).out[i]? = some data) :
    (step link (.arrive y i) y).kcp = (ikcpInput (link y).kcp data).2 := by
  unfold step
  dsimp only
  rw [hdata]
  dsimp only
  rw [Function.update_self]
  rfl

/-- **A segment within the window** is to be acknowledged once its datagram was among those that
arrived. -/
theorem Between.owes_of_arrivals (h : Between conv stream link ends windows) (y : End) {is : List ℕ} {i : ℕ}
    (hi : i ∈ is) (hdata : (link y.peer).out[i]? = some (datagram segs))
    (hc : ∀ seg ∈ segs, Carries conv (windows y.peer) (windows y) seg) (hseg : seg ∈ segs)
    (hcmd : seg.cmd = IKCP_CMD_PUSH) (hin : InWindow (link y).kcp (windows y.peer) seg.sn) :
    ((Kcp.arrivals y is).foldl step link y).kcp.Owes seg.sn := by
  obtain ⟨before, after, heq⟩ := exists_arrival link y hi
  obtain ⟨windows₁, h₁⟩ := h.arrivals y before
  obtain ⟨windows₂, h₂⟩ := h₁.between.arrive y i
  obtain ⟨windows₃, h₃⟩ := h₂.between.arrivals y after
  rw [heq]
  refine h₃.owes _ ?_
  have hdata₁ : ((Kcp.arrivals y before).foldl step link y.peer).out[i]? = some (datagram segs) := by
    rw [h₁.other]
    exact hdata
  have hpeer := h₁.between y.peer
  rw [End.peer_peer] at hpeer
  rw [step_arrive hdata₁]
  refine (h₁.between y).endpoint.owes_input (h₁.between y).live hpeer.live (fun seg' hseg' => ?_) hseg hcmd ?_
  · rw [(h₁.between y).conv_eq]
    exact (hc seg' hseg').mono h₁.takes.steps h₁.steps
  · exact hin.mono (h y).endpoint (h₁.between y).endpoint h₁.takes (congrArg Untouched.rcvWnd h₁.untouched)

/-- **A segment no longer waits** once its acknowledgement was in a datagram among those that
arrived. -/
theorem Between.not_unacked_of_arrivals (h : Between conv stream link ends windows) (y : End)
    {is : List ℕ} {i : ℕ} (hi : i ∈ is) (hdata : (link y.peer).out[i]? = some (datagram segs))
    (hc : ∀ seg ∈ segs, seg.Readable conv) (hseg : seg ∈ segs) (hcmd : seg.cmd = IKCP_CMD_ACK) :
    ¬ ((Kcp.arrivals y is).foldl step link y).kcp.Unacked seg.sn := by
  obtain ⟨before, after, heq⟩ := exists_arrival link y hi
  obtain ⟨windows₁, h₁⟩ := h.arrivals y before
  obtain ⟨windows₂, h₂⟩ := h₁.between.arrive y i
  obtain ⟨windows₃, h₃⟩ := h₂.between.arrivals y after
  rw [heq]
  intro hunacked
  have hstill := h₃.unacked _ hunacked
  have hdata₁ : ((Kcp.arrivals y before).foldl step link y.peer).out[i]? = some (datagram segs) := by
    rw [h₁.other]
    exact hdata
  rw [step_arrive hdata₁] at hstill
  refine not_unacked_input (h₁.between y).endpoint.ok (fun seg' hseg' => ?_) hseg hcmd hstill
  rw [(h₁.between y).conv_eq]
  exact hc seg' hseg'

/-- **A flush** at one end, and the datagrams it puts out, by their numbers. -/
theorem Between.flush (h : Between conv stream link ends windows) (x : End)
    (hupdated : (link x).kcp.updated ≠ 0) (hbound : (step link (.request x .flush) x).numbered < 2 ^ 31) :
    ∃ windows', Between conv stream (step link (.request x .flush)) ends windows'
      ∧ Takes (windows x.peer) (windows' x.peer) ∧ (step link (.request x .flush)) x.peer = link x.peer
      ∧ (step link (.request x .flush) x).kcp = (ikcpFlush (link x).kcp).2
      ∧ ∀ seg ∈ (link x).kcp.sends, ∃ i segs, (link x).out.length ≤ i
        ∧ (step link (.request x .flush) x).out[i]? = some (datagram segs) ∧ seg ∈ segs
        ∧ ∀ seg ∈ segs, Carries conv (windows' x) (windows' x.peer) seg := by
  unfold step at hbound ⊢
  dsimp only at hbound ⊢
  rw [Function.update_self] at hbound
  obtain ⟨hs', hr', hoffers, htakes, hend, hputs⟩ := (h x).flush hbound
  obtain ⟨windows', h', hs, hr⟩ := h.update x hoffers htakes hend
  rw [Function.update_eq_self] at h'
  refine ⟨windows', h', hr.symm ▸ htakes, Function.update_of_ne x.peer_ne _ _, ?_, fun seg hseg => ?_⟩
  · rw [Function.update_self]
    rfl
  · rw [Function.update_self]
    obtain ⟨outs, hout, -, hsends⟩ := ikcpFlush_sends hupdated
    obtain ⟨segs, hsegs, hmem⟩ := List.mem_flatten.mp (hsends.symm ▸ hseg)
    obtain ⟨k, hk⟩ := List.mem_iff_getElem?.mp hsegs
    refine ⟨(link x).out.length + k, segs, Nat.le_add_right _ _, ?_, hmem, fun seg' hseg' => ?_⟩
    · show ((link x).out ++ (ikcpFlush (link x).kcp).1)[(link x).out.length + k]? = some (datagram segs)
      rw [List.getElem?_append_right (Nat.le_add_right _ _), Nat.add_sub_cancel_left, hout,
        List.getElem?_map, hk]
      rfl
    · rw [hs, hr]
      exact hputs hupdated seg' (puts_of_mem_sends (hsends ▸ List.mem_flatten.mpr ⟨segs, hsegs, hseg'⟩))

theorem numbered_le_foldl (events : List Event) (link : End → Party) (x : End) :
    (link x).numbered ≤ (events.foldl step link x).numbered := by
  induction events generalizing link with
  | nil => exact le_rfl
  | cons e events ih => exact (numbered_le_step link e x).trans (ih _)

/-- What waits in the buffer is data. -/
theorem cmd_admitted (h : ∀ seg ∈ kcp.sndBuf, seg.cmd = IKCP_CMD_PUSH) :
    ∀ seg ∈ kcp.admitted.sndBuf, seg.cmd = IKCP_CMD_PUSH := by
  refine admitSegments_invariant (P := fun k => ∀ seg ∈ k.sndBuf, seg.cmd = IKCP_CMD_PUSH)
    (fun k seg queue _ _ hk seg' hseg' => ?_) ?_
  · rcases List.mem_append.mp hseg' with hseg' | hseg'
    · exact hk seg' hseg'
    · rw [List.mem_singleton.mp hseg']
      rfl
  · obtain ⟨wait, ts, probe, heq⟩ := probeWindow_eq { kcp with acklist := [] }
    unfold Ikcpcb.started
    rw [heq]
    exact h

/-- **A round trip**: one end flushes, some datagrams arrive at the other one, that one flushes, and
some datagrams arrive back. -/
def roundTrip (x : End) (is js : List ℕ) : List Event :=
  [.request x .flush] ++ arrivals x.peer is ++ [.request x.peer .flush] ++ arrivals x js

/-- **The round trip between two windows.** -/
theorem Between.acknowledged (h : Between conv stream link ends windows) (x : End) (is js : List ℕ)
    (hbound : ∀ y, ((roundTrip x is js).foldl step link y).numbered
      + (link y.peer).kcp.rcvWnd.toNat < 2 ^ 31)
    (hupdated : ∀ y, (link y).kcp.updated ≠ 0)
    (his : ∀ i, (link x).out.length ≤ i → i < (step link (.request x .flush) x).out.length → i ∈ is)
    (hjs : ∀ j, (link x.peer).out.length ≤ j →
      j < ((roundTrip x is js).foldl step link x.peer).out.length → j ∈ js)
    (hseg : seg ∈ (link x).kcp.admitted.sndBuf) (hdue : (link x).kcp.dueSeg seg = some seg')
    (hin : seg.sn.toNat < (link x.peer).kcp.rcvNxt.toNat + (link x.peer).kcp.rcvWnd.toNat) :
    ¬ ((roundTrip x is js).foldl step link x).kcp.Unacked seg.sn := by
  -- the four parts of the trip
  have hfold : (roundTrip x is js).foldl step link = (Kcp.arrivals x js).foldl step
      (step ((Kcp.arrivals x.peer is).foldl step (step link (.request x .flush))) (.request x.peer .flush)) := by
    unfold roundTrip
    rw [List.foldl_append, List.foldl_append, List.foldl_append]
    rfl
  rw [hfold] at hbound hjs ⊢
  generalize hsent : step link (.request x .flush) = sent at *
  generalize hcome : (Kcp.arrivals x.peer is).foldl step sent = come at *
  generalize htold : step come (.request x.peer .flush) = told at *
  generalize hback : (Kcp.arrivals x js).foldl step told = back at *
  have htold_le : ∀ y, (told y).numbered ≤ (back y).numbered := fun y => hback ▸ numbered_le_foldl _ told y
  have hcome_le : ∀ y, (come y).numbered ≤ (told y).numbered := fun y => htold ▸ numbered_le_step come _ y
  have hsent_le : ∀ y, (sent y).numbered ≤ (come y).numbered := fun y => hcome ▸ numbered_le_foldl _ sent y
  have hnumbered : ∀ y, (back y).numbered < 2 ^ 31 := fun y => by
    have := hbound y
    omega
  -- this end flushes, and the segment is in one of the datagrams
  obtain ⟨windows₁, h₁, htakes₁, hother₁, hkcp₁, hsends₁⟩ := h.flush x (hupdated x) (by
    rw [hsent]
    have := htold_le x
    have := hcome_le x
    have := hsent_le x
    have := hnumbered x
    omega)
  rw [hsent] at h₁ hother₁ hkcp₁ hsends₁
  have hcore := core_of_dueSeg hdue
  have hsn : seg'.sn = seg.sn := congrArg (fun c => c.2.2.2.1) hcore
  obtain ⟨i, segs, hle, hdata, hmem, hc⟩ := hsends₁ seg' (due_mem_sends hseg hdue)
  have hi : i ∈ is := his i hle (List.getElem?_eq_some_iff.mp hdata).1
  -- it arrives, and is to be acknowledged
  have howes : (come x.peer).kcp.Owes seg.sn := by
    rw [← hcome, ← hsn]
    have hpush : seg'.cmd = IKCP_CMD_PUSH := by
      have hcmd : seg'.cmd = seg.cmd := congrArg (fun c => c.2.1) hcore
      rw [hcmd]
      exact cmd_admitted (fun seg hseg => ((h x).endpoint.sends.buf seg hseg).2.2.1) seg hseg
    refine h₁.owes_of_arrivals x.peer hi (by rw [End.peer_peer]; exact hdata) ?_ hmem hpush ?_
    · rw [End.peer_peer]
      exact hc
    · rw [hother₁, End.peer_peer]
      refine ⟨by rw [hsn]; exact hin, ?_⟩
      rw [(h₁ x).tells.numbered]
      have := htold_le x
      have := hcome_le x
      have := hsent_le x
      have := hbound x
      omega
  -- the other end flushes, and the acknowledgement is in one of the datagrams
  obtain ⟨windows₂, h₂⟩ := h₁.arrivals x.peer is
  rw [hcome] at h₂
  have hupdated₂ : (come x.peer).kcp.updated ≠ 0 := by
    rw [show (come x.peer).kcp.updated = (sent x.peer).kcp.updated from
      congrArg Untouched.updated h₂.untouched, hother₁]
    exact hupdated x.peer
  obtain ⟨windows₃, h₃, htakes₃, hother₃, hkcp₃, hsends₃⟩ := h₂.between.flush x.peer hupdated₂ (by
    rw [htold]
    have := htold_le x.peer
    have := hnumbered x.peer
    omega)
  rw [htold] at h₃ hother₃ hkcp₃ hsends₃
  obtain ⟨ts, hts⟩ := howes
  obtain ⟨j, acks, hle₃, hdata₃, hmem₃, hc₃⟩ := hsends₃ _ (ack_mem_sends hts)
  have hback_out : (back x.peer).out = (told x.peer).out := by
    obtain ⟨windows₄, h₄⟩ := h₃.arrivals x js
    rw [hback] at h₄
    rw [h₄.other]
  have hj : j ∈ js := by
    refine hjs j ?_ ?_
    · rw [h₂.out, hother₁] at hle₃
      exact hle₃
    · rw [hback_out]
      exact (List.getElem?_eq_some_iff.mp hdata₃).1
  -- it arrives
  rw [← hback]
  have hread₃ : ∀ seg ∈ acks, seg.Readable conv := fun seg hseg => (hc₃ seg hseg).readable
  have hnot := h₃.not_unacked_of_arrivals x hj hdata₃ hread₃ hmem₃ rfl
  exact hnot

/-- **A round trip on which nothing new is lost acknowledges** every segment that was due and within
the window, from whatever state the two programs have come to, if `ikcp_update` was
called on both sides. -/
theorem acknowledged_of_round_trip (conv : UInt32) (stream : Int32) (events : List Event) (x : End)
    (is js : List ℕ) {link back : End → Party} (hlink : run conv stream events = some link)
    (hback : run conv stream (events ++ roundTrip x is js) = some back)
    (hbound : ∀ y, (back y).numbered + (link y.peer).kcp.rcvWnd.toNat < 2 ^ 31)
    (hupdated : ∀ y, (link y).kcp.updated ≠ 0)
    (his : ∀ i, (link x).out.length ≤ i → i < (step link (.request x .flush) x).out.length → i ∈ is)
    (hjs : ∀ j, (link x.peer).out.length ≤ j → j < (back x.peer).out.length → j ∈ js)
    (hseg : seg ∈ (link x).kcp.admitted.sndBuf) (hdue : (link x).kcp.dueSeg seg ≠ none)
    (hin : seg.sn.toNat < (link x.peer).kcp.rcvNxt.toNat + (link x.peer).kcp.rcvWnd.toNat) :
    ∀ seg' ∈ (back x).kcp.sndBuf, seg'.sn ≠ seg.sn := by
  rw [run_append hlink] at hback
  obtain rfl := eq_of_foldlM_advance hback
  have hnumbered : ∀ y, (link y).numbered < 2 ^ 31 := fun y =>
    (numbered_le_foldl (roundTrip x is js) link y).trans_lt
      ((Nat.le_add_right _ _).trans_lt (hbound y))
  obtain ⟨ends, windows, h⟩ := linked_run hlink hnumbered
  obtain ⟨sent, hsent⟩ := Option.ne_none_iff_exists'.mp hdue
  intro seg' hseg' heq
  exact h.acknowledged x is js hbound hupdated his hjs hseg hsent hin ⟨seg', hseg', heq⟩

/-- A message that waits for its first flush. -/
def met : List Event :=
  [.request .near (.send .hi), .request .near (.update 0), .request .far (.update 0)]

theorem acknowledged_met : ∃ link back, run 7 0 met = some link
    ∧ run 7 0 (met ++ roundTrip .near [0] [0]) = some back
    ∧ (link .near).kcp.admitted.sndBuf.map Ikcpseg.sn = [0]
    ∧ ∀ seg ∈ (link .near).kcp.admitted.sndBuf, ∀ seg' ∈ (back .near).kcp.sndBuf, seg'.sn ≠ seg.sn := by
  obtain ⟨link, hlink⟩ := Option.isSome_iff_exists.mp (show (run 7 0 met).isSome by decide)
  obtain ⟨back, hback⟩ := Option.isSome_iff_exists.mp
    (show (run 7 0 (met ++ roundTrip .near [0] [0])).isSome by decide)
  refine ⟨link, back, hlink, hback, ?_⟩
  obtain rfl := eq_of_foldlM_advance hlink
  have hfold := eq_of_foldlM_advance hback
  obtain rfl := hfold
  refine ⟨by decide, fun seg hseg => ?_⟩
  have hdue : ∀ seg ∈ (met.foldl step (fun _ => .init 7 0) .near).kcp.admitted.sndBuf,
      (met.foldl step (fun _ => .init 7 0) .near).kcp.dueSeg seg ≠ none := by decide
  have hin : ∀ seg ∈ (met.foldl step (fun _ => .init 7 0) .near).kcp.admitted.sndBuf, seg.sn.toNat
      < (met.foldl step (fun _ => .init 7 0) .far).kcp.rcvNxt.toNat
        + (met.foldl step (fun _ => .init 7 0) .far).kcp.rcvWnd.toNat := by decide
  refine acknowledged_of_round_trip 7 0 met .near [0] [0] hlink hback (fun y => by cases y <;> decide)
    (fun y => by cases y <;> decide) (fun i _ hi => ?_) (fun j _ hj => ?_) hseg (hdue seg hseg) (hin seg hseg)
  · have hsent : (step (met.foldl step (fun _ => .init 7 0)) (.request .near .flush) .near).out.length
        = 1 := by decide
    rw [hsent] at hi
    rw [Nat.lt_one_iff.mp hi]
    exact List.mem_singleton_self 0
  · have htold : ((met ++ roundTrip .near [0] [0]).foldl step (fun _ => .init 7 0) .far).out.length
        = 1 := by decide
    change j < ((met ++ roundTrip .near [0] [0]).foldl step (fun _ => .init 7 0) .far).out.length at hj
    rw [htold] at hj
    rw [Nat.lt_one_iff.mp hj]
    exact List.mem_singleton_self 0

end Kcp
