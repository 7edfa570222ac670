import LinuxLearn.KcpFlush

/-!
# What stays within bounds

Whatever is called, and whatever datagrams are given in, as long as nothing undefined
happens, the timeout that is computed from the times that datagrams took stays between 30 and
60000 milliseconds, the interval between 10 and 5000, and the time between two probes between
7000 and 120000; and if the link is not said to be dead, no segment was sent twenty times
(`bounds_after`).

No datagram is longer than the mtu if it is never lowered, and the buffer that they are made
in does not overflow if the mtu is not too large besides (`length_le_mtu`). The buffer is
made for three datagrams of the mtu of the time. When the mtu is lowered, the segments that
were cut before stay as long as they are, and need not fit; and of an mtu of 1431655742 and
more, three times as much has more than 32 bits, so that the block is a small one.
-/

namespace Kcp

variable {kcp : Ikcpcb}

/-! ## Views -/

/-- **What decides when something is sent**, and the segments that wait for that. -/
structure Timers where
  settings : Settings
  rxRto : Int32
  probeWait : UInt32
  ssthresh : UInt32
  state : UInt32
  deadLink : UInt32
  sndBuf : List Ikcpseg

def Ikcpcb.timers (kcp : Ikcpcb) : Timers :=
  ⟨kcp.settings, kcp.rxRto, kcp.probeWait, kcp.ssthresh, kcp.state, kcp.deadLink, kcp.sndBuf⟩

theorem timers_moveAvailable (kcp : Ikcpcb) : (moveAvailable kcp.rcvBuf kcp).timers = kcp.timers :=
  moveAvailable_invariant (P := fun k => k.timers = kcp.timers) (fun _ _ _ _ _ _ h => h) rfl

theorem timers_recv (kcp : Ikcpcb) (len : ℤ) : (ikcpRecv kcp len).2.2.timers = kcp.timers := by
  rcases ikcpRecv_cases kcp len with ⟨heq, -⟩ | ⟨heq, -⟩ | ⟨heq, -⟩ | ⟨probe, -, -, -, heq⟩
  · rw [heq]
  · rw [heq]
  · rw [heq]
  · rw [heq]
    refine (timers_moveAvailable (kcp.takeMessage len)).trans ?_
    unfold Ikcpcb.takeMessage
    split
    · rfl
    · rfl

theorem timers_appendStream (kcp : Ikcpcb) (buffer : List UInt8) :
    (appendStream kcp buffer).2.timers = kcp.timers := by
  unfold appendStream
  cases kcp.sndQueue.getLast? with
  | none => rfl
  | some old =>
    dsimp only
    split
    · rfl
    · rfl

theorem timers_send (kcp : Ikcpcb) (buffer : List UInt8) : (ikcpSend kcp buffer).2.timers = kcp.timers := by
  have hfilled : (if kcp.stream ≠ 0 then appendStream kcp buffer else (buffer, kcp)).2.timers
      = kcp.timers := by
    split
    · exact timers_appendStream kcp buffer
    · rfl
  unfold ikcpSend
  generalize (if kcp.stream ≠ 0 then appendStream kcp buffer else (buffer, kcp)) = filled at *
  dsimp only
  split
  · exact hfilled
  · split
    · exact hfilled
    · exact (sendFragments_invariant (P := fun k => k.timers = filled.2.timers) (fun _ _ h => h) _ _ rfl).trans
        hfilled

/-! ## Bounds -/

/-- **Everything is within its bounds.** -/
structure Timers.Within (t : Timers) : Prop where
  rto : 30 ≤ t.rxRto.toInt ∧ t.rxRto.toInt ≤ 60000
  minrto : t.settings.rxMinrto = 30 ∨ t.settings.rxMinrto = 100
  interval : 10 ≤ t.settings.interval.toNat ∧ t.settings.interval.toNat ≤ 5000
  mtu : 50 ≤ t.settings.mtu.toNat ∧ t.settings.mtu.toNat < 2 ^ 31
    ∧ t.settings.mss.toNat + 24 = t.settings.mtu.toNat
  buffer : t.settings.buffer = (t.settings.mtu + IKCP_OVERHEAD) * 3
  probe : t.probeWait = 0 ∨ 7000 ≤ t.probeWait.toNat ∧ t.probeWait.toNat ≤ 120000
  ssthresh : 2 ≤ t.ssthresh.toNat
  deadLink : t.deadLink = 20
  alive : t.state = 0 → ∀ seg ∈ t.sndBuf, seg.xmit < 20

theorem Timers.Within.create (conv : UInt32) (stream : Int32) :
    ({ ikcpCreate conv with stream := stream } : Ikcpcb).timers.Within where
  rto := by
    show 30 ≤ IKCP_RTO_DEF.toInt32.toInt ∧ IKCP_RTO_DEF.toInt32.toInt ≤ 60000
    decide
  minrto := Or.inr rfl
  interval := by
    show 10 ≤ IKCP_INTERVAL.toNat ∧ IKCP_INTERVAL.toNat ≤ 5000
    decide
  mtu := by
    show 50 ≤ IKCP_MTU_DEF.toNat ∧ IKCP_MTU_DEF.toNat < 2 ^ 31
      ∧ (IKCP_MTU_DEF - IKCP_OVERHEAD).toNat + 24 = IKCP_MTU_DEF.toNat
    decide
  buffer := rfl
  probe := Or.inl rfl
  ssthresh := le_rfl
  deadLink := rfl
  alive := fun _ _ hseg => absurd hseg List.not_mem_nil

/-- **What is computed for the timeout is within its bounds**, if the smallest one is. -/
theorem ibound_bounds {lower : UInt32} (middle : UInt32) (h : 30 ≤ lower.toNat ∧ lower.toNat ≤ 60000) :
    30 ≤ (ibound lower middle IKCP_RTO_MAX).toInt32.toInt
      ∧ (ibound lower middle IKCP_RTO_MAX).toInt32.toInt ≤ 60000 := by
  have hmax : IKCP_RTO_MAX.toNat = 60000 := rfl
  have hlow : 30 ≤ (imax lower middle).toNat := by
    rw [imax_toNat]
    omega
  have hbounds : 30 ≤ (ibound lower middle IKCP_RTO_MAX).toNat
      ∧ (ibound lower middle IKCP_RTO_MAX).toNat ≤ 60000 := by
    unfold ibound
    refine ⟨?_, (imin_toNat_le _ _).trans hmax.le⟩
    unfold imin
    split
    · exact hlow
    · rw [hmax]
      omega
  show 30 ≤ toInt _ ∧ toInt _ ≤ 60000
  rw [toInt_of_lt (by omega)]
  omega

theorem Timers.Within.lower (h : kcp.timers.Within) :
    30 ≤ kcp.rxMinrto.toUInt32.toNat ∧ kcp.rxMinrto.toUInt32.toNat ≤ 60000 := by
  rcases h.minrto with heq | heq
  · rw [show kcp.rxMinrto = 30 from heq]
    decide
  · rw [show kcp.rxMinrto = 100 from heq]
    decide

/-- **A new timeout** is the only thing that measuring a time changes. -/
theorem timers_updateAck (kcp : Ikcpcb) (rtt : Int32) : ∃ middle, (ikcpUpdateAck kcp rtt).timers
    = { kcp.timers with rxRto := (ibound kcp.rxMinrto.toUInt32 middle IKCP_RTO_MAX).toInt32 } := by
  unfold ikcpUpdateAck
  dsimp only
  split
  · exact ⟨_, rfl⟩
  · exact ⟨_, rfl⟩

theorem Timers.Within.measured (h : kcp.timers.Within) (ts : UInt32) : (kcp.measured ts).timers.Within := by
  unfold Ikcpcb.measured
  split
  · obtain ⟨middle, heq⟩ := timers_updateAck kcp (kcp.current - ts).toInt32
    rw [heq]
    exact { h with rto := ibound_bounds middle h.lower }
  · exact h

/-- Segments that are gone, or that were skipped, were not sent again. -/
theorem Timers.Within.sub {t : Timers} (h : t.Within) (buf : List Ikcpseg)
    (hsub : ∀ seg ∈ buf, ∃ seg' ∈ t.sndBuf, seg.xmit = seg'.xmit) :
    ({ t with sndBuf := buf } : Timers).Within where
  rto := h.rto
  minrto := h.minrto
  interval := h.interval
  mtu := h.mtu
  buffer := h.buffer
  probe := h.probe
  ssthresh := h.ssthresh
  deadLink := h.deadLink
  alive := by
    intro hstate seg hseg
    obtain ⟨seg', hseg', heq⟩ := hsub seg hseg
    exact heq ▸ h.alive hstate seg' hseg'

theorem exists_xmit {buf buf' : List Ikcpseg} (h : buf.map Ikcpseg.xmit = buf'.map Ikcpseg.xmit) :
    ∀ seg ∈ buf, ∃ seg' ∈ buf', seg.xmit = seg'.xmit := by
  intro seg hseg
  have hmem : seg.xmit ∈ buf'.map Ikcpseg.xmit := h ▸ List.mem_map_of_mem hseg
  obtain ⟨seg', hseg', heq⟩ := List.mem_map.mp hmem
  exact ⟨seg', hseg', heq.symm⟩

theorem exists_xmit_of_sublist {buf buf' : List Ikcpseg} (h : buf.Sublist buf') :
    ∀ seg ∈ buf, ∃ seg' ∈ buf', seg.xmit = seg'.xmit :=
  fun seg hseg => ⟨seg, h.subset hseg, rfl⟩

/-! ## What arrives -/

theorem Timers.Within.parseAck (h : kcp.timers.Within) (sn : UInt32) :
    (ikcpShrinkBuf (ikcpParseAck kcp sn)).timers.Within := by
  unfold ikcpParseAck
  split
  · exact h
  · exact h.sub _ (exists_xmit_of_sublist (removeAcked_sublist sn kcp.sndBuf))

theorem Timers.Within.inputSegment (h : kcp.timers.Within) (maxack : Option UInt32) (seg : Ikcpseg) :
    (inputSegment kcp maxack seg).1.timers.Within := by
  have hacked : (kcp.acknowledged seg).timers.Within :=
    h.sub _ (exists_xmit_of_sublist (notBefore_sublist seg.una kcp.sndBuf))
  rcases inputSegment_cases kcp maxack seg with ⟨-, heq⟩ | ⟨-, hwnd, hnxt, heq⟩ | ⟨-, -, heq⟩ | ⟨probe, heq⟩
  · rw [heq]
    exact (hacked.measured seg.ts).parseAck seg.sn
  · rw [heq]
    show (ikcpParseData (ikcpAckPush (kcp.acknowledged seg) seg.sn seg.ts) seg).timers.Within
    rw [ikcpParseData_eq (ikcpAckPush (kcp.acknowledged seg) seg.sn seg.ts) hwnd hnxt, timers_moveAvailable]
    unfold Ikcpcb.storeSegment
    split
    · exact hacked
    · exact hacked
  · rw [heq]
    exact hacked
  · rw [heq]
    exact hacked

theorem Timers.Within.parseMaxack (h : kcp.timers.Within) (maxack : Option UInt32) :
    (parseMaxack kcp maxack).timers.Within := by
  cases maxack with
  | none => exact h
  | some sn =>
    show (ikcpParseFastack kcp sn).timers.Within
    unfold ikcpParseFastack
    split
    · exact h
    · exact h.sub _ (exists_xmit (map_skipBefore Ikcpseg.xmit (fun _ _ => rfl) sn kcp.sndBuf))

theorem Timers.Within.input (h : kcp.timers.Within) (data : List UInt8) :
    (ikcpInput kcp data).2.timers.Within := by
  rcases ikcpInput_cases kcp data with ⟨-, heq⟩ | ⟨ret, read, maxack, -, hloop, hcases⟩
  · rw [heq]
    exact h
  · have hread : (inputLoop (data.length + 1) kcp none data).2.1.timers.Within :=
      inputLoop_invariant (P := fun k => k.timers.Within)
        (fun k maxack seg _ hk => hk.inputSegment maxack seg) _ none data h
    rw [hloop] at hread
    rcases hcases with ⟨-, heq⟩ | ⟨cwnd, incr, -, heq⟩
    · rw [heq]
      exact hread
    · rw [heq]
      exact hread.parseMaxack maxack

/-! ## What is sent -/

/-- **The time between two probes** gets longer, up to a limit. -/
theorem longer_bounds {wait : UInt32} (h : 7000 ≤ wait.toNat ∧ wait.toNat ≤ 120000) :
    let wait := if wait < IKCP_PROBE_INIT then IKCP_PROBE_INIT else wait
    let wait := wait + wait / 2
    let wait := if wait > IKCP_PROBE_LIMIT then IKCP_PROBE_LIMIT else wait
    7000 ≤ wait.toNat ∧ wait.toNat ≤ 120000 := by
  have hinit : IKCP_PROBE_INIT.toNat = 7000 := rfl
  have hlimit : IKCP_PROBE_LIMIT.toNat = 120000 := rfl
  have htwo : (2 : UInt32).toNat = 2 := rfl
  have hge : ¬ wait < IKCP_PROBE_INIT := by
    rw [UInt32.lt_iff_toNat_lt, hinit]
    omega
  have hsum : (wait + wait / 2).toNat = wait.toNat + wait.toNat / 2 := by
    rw [UInt32.toNat_add, UInt32.toNat_div, htwo]
    omega
  dsimp only
  rw [if_neg hge]
  split
  · rw [hlimit]
    omega
  · next hle =>
    have hle' := UInt32.le_iff_toNat_le.mp (UInt32.not_lt.mp hle)
    rw [hlimit] at hle'
    omega

theorem Timers.Within.started (h : kcp.timers.Within) : kcp.started.timers.Within := by
  unfold Ikcpcb.started probeWindow
  by_cases hclosed : kcp.rmtWnd = 0
  · rw [if_pos hclosed]
    by_cases hwait : kcp.probeWait = 0
    · rw [if_pos hwait]
      have hinit : 7000 ≤ IKCP_PROBE_INIT.toNat ∧ IKCP_PROBE_INIT.toNat ≤ 120000 := by decide
      exact { h with probe := Or.inr hinit }
    · rw [if_neg hwait]
      by_cases hprobe : itimediff kcp.current kcp.tsProbe ≥ 0
      · rw [if_pos hprobe]
        exact { h with probe := Or.inr (longer_bounds (h.probe.resolve_left hwait)) }
      · rw [if_neg hprobe]
        exact h
  · rw [if_neg hclosed]
    exact { h with probe := Or.inl rfl }

/-- A segment that is given a number was not sent yet. -/
theorem Timers.Within.admitted (h : kcp.timers.Within) : kcp.admitted.timers.Within := by
  refine admitSegments_invariant (P := fun k => k.timers.Within) (fun k seg queue _ _ hk => ?_) h.started
  refine { hk with alive := fun hstate seg' hseg' => ?_ }
  rcases List.mem_append.mp hseg' with hseg' | hseg'
  · exact hk.alive hstate seg' hseg'
  · rw [List.mem_singleton.mp hseg']
    exact show (0 : UInt32) < 20 by decide

/-- **One round of the loop**: a segment that is sent for the twentieth time is noticed. -/
theorem segment_alive (wnd resent rtomin : UInt32) {f : Flushing} {seg : Ikcpseg}
    (hdead : kcp.deadLink = 20) (hf : f.state = 0 → ∀ seg ∈ f.done, seg.xmit < 20)
    (hseg : f.state = 0 → seg.xmit < 20) :
    (f.segment kcp wnd resent rtomin seg).state = 0 →
      f.state = 0 ∧ ∀ seg' ∈ (f.segment kcp wnd resent rtomin seg).done, seg'.xmit < 20 := by
  unfold Flushing.segment
  cases hdue : seg.due kcp resent rtomin with
  | none =>
    intro hstate
    refine ⟨hstate, fun seg' hseg' => ?_⟩
    rcases List.mem_append.mp hseg' with hseg' | hseg'
    · exact hf hstate seg' hseg'
    · rw [List.mem_singleton.mp hseg']
      exact hseg hstate
  | some p =>
    obtain ⟨cause, sent⟩ := p
    show (if sent.xmit ≥ kcp.deadLink then (0xffffffff : UInt32) else f.state) = 0 → _
    by_cases hmany : sent.xmit ≥ kcp.deadLink
    · rw [if_pos hmany]
      exact fun h => absurd h (by decide)
    · rw [if_neg hmany]
      intro hstate
      refine ⟨hstate, fun seg' hseg' => ?_⟩
      rcases List.mem_append.mp hseg' with hseg' | hseg'
      · exact hf hstate seg' hseg'
      · rw [List.mem_singleton.mp hseg']
        show sent.xmit < 20
        rw [← hdead]
        exact UInt32.not_le.mp hmany

theorem foldl_segment_alive {wnd resent rtomin : UInt32} (hdead : kcp.deadLink = 20) :
    ∀ (buf : List Ikcpseg) (f : Flushing), (f.state = 0 → ∀ seg ∈ f.done, seg.xmit < 20) →
      (f.state = 0 → ∀ seg ∈ buf, seg.xmit < 20) →
      (buf.foldl (Flushing.segment kcp wnd resent rtomin) f).state = 0 →
      ∀ seg ∈ (buf.foldl (Flushing.segment kcp wnd resent rtomin) f).done, seg.xmit < 20 := by
  intro buf
  induction buf with
  | nil => exact fun _ hf _ hstate => hf hstate
  | cons seg buf ih =>
    intro f hf hbuf
    have hone := segment_alive wnd resent rtomin hdead hf (fun hstate => hbuf hstate seg List.mem_cons_self)
    exact ih _ (fun hstate => (hone hstate).2)
      (fun hstate seg' hseg' => hbuf (hone hstate).1 seg' (List.mem_cons_of_mem _ hseg'))

/-- **The threshold does not fall below two segments.** -/
theorem two_le_ssthresh (kcp : Ikcpcb) (cwnd resent : UInt32) (lost : Bool) (change : ℕ)
    (h : 2 ≤ kcp.ssthresh.toNat) : 2 ≤ (shrinkWindow kcp cwnd resent lost change).ssthresh.toNat := by
  have hmin : IKCP_THRESH_MIN.toNat = 2 := rfl
  have hhalf : ∀ half : UInt32, 2 ≤ (if half < IKCP_THRESH_MIN then IKCP_THRESH_MIN else half).toNat := by
    intro half
    split
    · exact hmin.ge
    · next hge => exact hmin ▸ UInt32.le_iff_toNat_le.mp (UInt32.not_lt.mp hge)
  have hskip : 2 ≤ (skipWindow kcp resent change).ssthresh.toNat := by
    unfold skipWindow
    split
    · exact hhalf _
    · exact h
  have hlose : 2 ≤ (loseWindow (skipWindow kcp resent change) cwnd lost).ssthresh.toNat := by
    unfold loseWindow
    split
    · exact hhalf _
    · exact hskip
  unfold shrinkWindow
  dsimp only
  split
  · exact hlose
  · exact hlose

theorem Timers.Within.flush (h : kcp.timers.Within) : (ikcpFlush kcp).2.timers.Within := by
  by_cases hupdated : kcp.updated = 0
  · unfold ikcpFlush
    rwa [if_pos hupdated]
  · have hadmitted := h.admitted
    have hssthresh := two_le_ssthresh
      { kcp.admitted with
        sndBuf := kcp.flushing.done
        xmit := kcp.flushing.xmit
        state := kcp.flushing.state
        undefined := kcp.admitted.undefined
          || kcp.flushing.box.output.out.any kcp.admitted.overruns }
      (flushWindow kcp.started) kcp.admitted.resent kcp.flushing.lost kcp.flushing.change hadmitted.ssthresh
    obtain ⟨ssthresh, cwnd, incr, heq⟩ := ikcpFlush_eq hupdated
    have hshrink := congrArg Prod.snd (ikcpFlush_shrinkWindow hupdated)
    dsimp only at hshrink
    rw [← hshrink, heq] at hssthresh
    rw [heq]
    exact { hadmitted with
      ssthresh := hssthresh
      alive := foldl_segment_alive hadmitted.deadLink kcp.admitted.sndBuf _
        (fun _ _ hseg => absurd hseg List.not_mem_nil) hadmitted.alive }

/-! ## Any calls -/

theorem clampInterval_bounds (interval : Int32) :
    10 ≤ (clampInterval interval).toNat ∧ (clampInterval interval).toNat ≤ 5000 := by
  unfold clampInterval
  by_cases hhigh : interval > 5000
  · rw [if_pos hhigh]
    decide
  · rw [if_neg hhigh]
    by_cases hlow : interval < 10
    · rw [if_pos hlow]
      decide
    · rw [if_neg hlow]
      have hge : 10 ≤ interval.toInt := Int32.le_iff_toInt_le.mp (Int32.not_lt.mp hlow)
      have hle : interval.toInt ≤ 5000 := Int32.le_iff_toInt_le.mp (Int32.not_lt.mp hhigh)
      have hpos : interval > 0 := Int32.lt_iff_toInt_lt.mpr (show (0 : ℤ) < interval.toInt by omega)
      rw [toInt_eq_toNat hpos] at hge hle
      omega

theorem Timers.Within.setmtu (h : kcp.timers.Within) (mtu : Int32) :
    (ikcpSetmtu kcp mtu).2.timers.Within := by
  unfold ikcpSetmtu
  split
  · exact h
  · next hmtu =>
    have hge : 50 ≤ mtu.toInt := Int32.le_iff_toInt_le.mp (Int32.not_lt.mp (not_or.mp hmtu).1)
    have hpos : mtu > 0 := Int32.lt_iff_toInt_lt.mpr (show (0 : ℤ) < mtu.toInt by omega)
    have hlt := toNat_toUInt32_lt hpos
    have hover : IKCP_OVERHEAD.toNat = 24 := rfl
    rw [toInt_eq_toNat hpos] at hge
    refine { h with mtu := ?_, buffer := rfl }
    show 50 ≤ mtu.toUInt32.toNat ∧ mtu.toUInt32.toNat < 2 ^ 31
      ∧ (mtu.toUInt32 - IKCP_OVERHEAD).toNat + 24 = mtu.toUInt32.toNat
    rw [UInt32.toNat_sub_of_le _ _ (UInt32.le_iff_toNat_le.mpr (by omega)), hover]
    omega

theorem Timers.Within.nodelay (h : kcp.timers.Within) (nodelay interval resend nc : Int32) :
    (ikcpNodelay kcp nodelay interval resend nc).timers.Within := by
  have hminrto : ({ kcp with
      nodelay := nodelay.toUInt32
      rxMinrto := (if nodelay ≠ 0 then IKCP_RTO_NDL else IKCP_RTO_MIN).toInt32 } : Ikcpcb).timers.Within := by
    refine { h with minrto := ?_ }
    show (if nodelay ≠ 0 then IKCP_RTO_NDL else IKCP_RTO_MIN).toInt32 = 30 ∨ _
    by_cases hzero : nodelay = 0
    · rw [if_neg (not_not.mpr hzero)]
      exact Or.inr rfl
    · rw [if_pos hzero]
      exact Or.inl rfl
  have hset : (if nodelay ≥ 0 then { kcp with
      nodelay := nodelay.toUInt32
      rxMinrto := (if nodelay ≠ 0 then IKCP_RTO_NDL else IKCP_RTO_MIN).toInt32 } else kcp).timers.Within := by
    split
    · exact hminrto
    · exact h
  unfold ikcpNodelay
  generalize (if nodelay ≥ 0 then ({ kcp with
      nodelay := nodelay.toUInt32
      rxMinrto := (if nodelay ≠ 0 then IKCP_RTO_NDL else IKCP_RTO_MIN).toInt32 } : Ikcpcb) else kcp) = k at *
  have hclamped : ({ k with interval := clampInterval interval } : Ikcpcb).timers.Within :=
    { hset with interval := clampInterval_bounds interval }
  dsimp only
  split <;> split <;> split
  all_goals first | exact hclamped | exact hset

theorem Timers.Within.request (h : kcp.timers.Within) (req : Request) :
    (kcp.request req).2.timers.Within := by
  cases req with
  | recv len =>
    show (ikcpRecv kcp len).2.2.timers.Within
    rw [timers_recv]
    exact h
  | send buffer =>
    show (ikcpSend kcp buffer.val).2.timers.Within
    rw [timers_send]
    exact h
  | flush => exact h.flush
  | update current =>
    show (ikcpUpdate kcp current).2.timers.Within
    obtain ⟨updated, tsFlush, -, heq | heq⟩ := ikcpUpdate_cases kcp current
    · rw [heq]
      exact h
    · rw [heq]
      exact Timers.Within.flush h
  | setmtu mtu => exact h.setmtu mtu
  | interval interval => exact { h with interval := clampInterval_bounds interval }
  | nodelay nodelay interval resend nc => exact h.nodelay nodelay interval resend nc
  | wndsize sndwnd rcvwnd =>
    obtain ⟨sndWnd, rcvWnd, heq⟩ := ikcpWndsize_eq kcp sndwnd rcvwnd
    show (ikcpWndsize kcp sndwnd rcvwnd).timers.Within
    rw [heq]
    exact h

theorem Timers.Within.call (h : kcp.timers.Within) (c : Call) : (kcp.call c).timers.Within := by
  cases c with
  | request req => exact h.request req
  | input data => exact h.input data

/-- **Everything stays within its bounds**, whatever is called and whatever is given in, as long
as nothing undefined happens. -/
theorem bounds_after (conv : UInt32) (stream : Int32) (calls : List Call) {kcp : Ikcpcb}
    (h : ({ ikcpCreate conv with stream := stream } : Ikcpcb).calls calls = some kcp) :
    kcp.timers.Within :=
  Ikcpcb.calls_invariant (P := fun k => k.timers.Within) (fun _ c hwithin => hwithin.call c)
    (.create conv stream) h

/-- A message is sent, and acknowledged by a datagram that comes back. -/
theorem bounds_after_acknowledged : ∃ kcp,
    (ikcpCreate 7).calls [.request (.send .hi), .request (.update 0), .request (.update 100),
      .input [7, 0, 0, 0, 82, 0, 128, 0, 100, 0, 0, 0, 0, 0, 0, 0, 1, 0, 0, 0, 0, 0, 0, 0]] = some kcp
    ∧ kcp.sndBuf = [] ∧ kcp.timers.Within := by
  obtain ⟨kcp, h, hbuf⟩ := Option.map_eq_some_iff.mp (show ((ikcpCreate 7).calls
    [.request (.send .hi), .request (.update 0), .request (.update 100),
      .input [7, 0, 0, 0, 82, 0, 128, 0, 100, 0, 0, 0, 0, 0, 0, 0, 1, 0, 0, 0, 0, 0, 0, 0]]).map
    Ikcpcb.sndBuf = some [] by decide)
  exact ⟨kcp, h, hbuf, bounds_after 7 0 _ h⟩

/-! ## The mtu -/

/-- **No segment is longer than one may be.** -/
def Ikcpcb.Short (kcp : Ikcpcb) : Prop :=
  (∀ seg ∈ kcp.sndQueue, seg.data.length ≤ kcp.mss.toNat)
  ∧ ∀ seg ∈ kcp.sndBuf, seg.data.length ≤ kcp.mss.toNat

/-- A call does not lower the mtu. -/
def Ikcpcb.Raises (kcp : Ikcpcb) : Call → Prop
  | .request (.setmtu mtu) => kcp.mtu ≤ (ikcpSetmtu kcp mtu).2.mtu
  | _ => True

/-- **Calls that never lower the mtu.** -/
def Raising : Ikcpcb → List Call → Prop
  | _, [] => True
  | kcp, c :: calls => kcp.Raises c ∧ Raising (kcp.call c) calls

/-- The segments that `ikcp_send` makes are short. -/
theorem sendFragments_short (kcp : Ikcpcb) (hmss : kcp.mss.toNat < 2 ^ 31) (n : ℕ) (buffer : List UInt8)
    (h : ∀ seg ∈ kcp.sndQueue, seg.data.length ≤ kcp.mss.toNat) :
    ∀ seg ∈ (sendFragments n buffer kcp).sndQueue, seg.data.length ≤ kcp.mss.toNat := by
  induction n generalizing kcp buffer with
  | zero => exact h
  | succ n ih =>
    have hint : toInt kcp.mss = kcp.mss.toNat := toInt_of_lt hmss
    unfold sendFragments
    dsimp only
    generalize hsize : (if (buffer.length : ℤ) > toInt kcp.mss then toInt kcp.mss
      else (buffer.length : ℤ)).toNat = size
    have hle : size ≤ kcp.mss.toNat := by
      rw [← hsize, hint]
      split
      · rw [Int.toNat_natCast]
      · rw [Int.toNat_natCast]
        omega
    refine ih { kcp with
      sndQueue := kcp.sndQueue ++
        [.new (if kcp.stream = 0 then UInt32.ofNat n else 0) (buffer.take size)]
      nsndQue := kcp.nsndQue + 1 } hmss _ (fun seg hseg => ?_)
    rcases List.mem_append.mp hseg with hseg | hseg
    · exact h seg hseg
    · rw [List.mem_singleton.mp hseg]
      show (buffer.take size).length ≤ kcp.mss.toNat
      rw [List.length_take]
      omega

/-- The last segment is not filled up beyond that. -/
theorem appendStream_short (hmss : kcp.mss.toNat < 2 ^ 31) (buffer : List UInt8)
    (h : ∀ seg ∈ kcp.sndQueue, seg.data.length ≤ kcp.mss.toNat) :
    ∀ seg ∈ (appendStream kcp buffer).2.sndQueue, seg.data.length ≤ kcp.mss.toNat := by
  unfold appendStream
  cases hlast : kcp.sndQueue.getLast? with
  | none => exact h
  | some old =>
    dsimp only
    split
    · next hroom =>
      obtain ⟨front, hfront⟩ := List.getLast?_eq_some_iff.mp hlast
      have hold := h old (hfront ▸ List.mem_append_right _ (List.mem_singleton.mpr rfl))
      have hlen : old.len.toNat = old.data.length :=
        UInt32.toNat_ofNat_of_lt' (show old.data.length < 2 ^ 32 by omega)
      have hcap : (kcp.mss - old.len).toNat = kcp.mss.toNat - old.data.length := by
        rw [UInt32.toNat_sub_of_le _ _ (UInt32.le_of_lt hroom), hlen]
      rw [toInt_of_lt (show (kcp.mss - old.len).toNat < 2 ^ 31 by omega), hcap]
      intro seg hseg
      rw [hfront, List.dropLast_concat] at hseg
      rcases List.mem_append.mp hseg with hseg | hseg
      · exact h seg (hfront ▸ List.mem_append_left _ hseg)
      · rw [List.mem_singleton.mp hseg]
        show (old.data ++ buffer.take _).length ≤ kcp.mss.toNat
        rw [List.length_append, List.length_take]
        split
        · omega
        · omega
    · exact h

theorem Ikcpcb.Short.send (h : kcp.Short) (hmss : kcp.mss.toNat < 2 ^ 31) (buffer : List UInt8) :
    (ikcpSend kcp buffer).2.Short := by
  have htimers := timers_send kcp buffer
  have hmss' : (ikcpSend kcp buffer).2.mss = kcp.mss := congrArg (fun t => t.settings.mss) htimers
  have hbuf : (ikcpSend kcp buffer).2.sndBuf = kcp.sndBuf := congrArg Timers.sndBuf htimers
  refine ⟨?_, ?_⟩
  · rw [hmss']
    have hfilled : ∀ seg ∈ (if kcp.stream ≠ 0 then appendStream kcp buffer else (buffer, kcp)).2.sndQueue,
        seg.data.length ≤ kcp.mss.toNat := by
      split
      · exact appendStream_short hmss buffer h.1
      · exact h.1
    have hsame : (if kcp.stream ≠ 0 then appendStream kcp buffer else (buffer, kcp)).2.mss = kcp.mss := by
      split
      · exact congrArg (fun t => t.settings.mss) (timers_appendStream kcp buffer)
      · rfl
    unfold ikcpSend
    generalize (if kcp.stream ≠ 0 then appendStream kcp buffer else (buffer, kcp)) = filled at *
    dsimp only
    rw [← hsame] at hfilled hmss ⊢
    split
    · exact hfilled
    · split
      · exact hfilled
      · exact sendFragments_short _ hmss _ _ hfilled
  · rw [hmss', hbuf]
    exact h.2

theorem length_of_core {seg seg' : Ikcpseg} (h : seg.core = seg'.core) :
    seg.data.length = seg'.data.length :=
  congrArg (fun c => c.2.2.2.2.length) h

/-- Segments that are others only by their timers are as long. -/
theorem short_of_core {m : ℕ} {buf buf' : List Ikcpseg} (h : buf.map Ikcpseg.core = buf'.map Ikcpseg.core)
    (hbuf : ∀ seg ∈ buf', seg.data.length ≤ m) : ∀ seg ∈ buf, seg.data.length ≤ m := by
  intro seg hseg
  have hmem : seg.core ∈ buf'.map Ikcpseg.core := h ▸ List.mem_map_of_mem hseg
  obtain ⟨seg', hseg', heq⟩ := List.mem_map.mp hmem
  exact (length_of_core heq).symm.le.trans (hbuf seg' hseg')

theorem Ikcpcb.Short.input (h : kcp.Short) (data : List UInt8) : (ikcpInput kcp data).2.Short := by
  have huntouched := untouched_input kcp data
  have hqueue : (ikcpInput kcp data).2.sndQueue = kcp.sndQueue := congrArg Untouched.sndQueue huntouched
  have hmss : (ikcpInput kcp data).2.mss = kcp.mss := congrArg (fun u => u.settings.mss) huntouched
  have hack : ∀ (k : Ikcpcb) (sn : UInt32), (∀ seg ∈ k.sndBuf, seg.data.length ≤ kcp.mss.toNat) →
      ∀ seg ∈ (ikcpParseAck k sn).sndBuf, seg.data.length ≤ kcp.mss.toNat := by
    intro k sn hk
    unfold ikcpParseAck
    split
    · exact hk
    · exact fun seg hseg => hk seg ((removeAcked_sublist sn k.sndBuf).subset hseg)
  have hloop : ∀ seg ∈ (inputLoop (data.length + 1) kcp none data).2.1.sndBuf,
      seg.data.length ≤ kcp.mss.toNat := by
    refine inputLoop_invariant (P := fun k => ∀ seg ∈ k.sndBuf, seg.data.length ≤ kcp.mss.toNat)
      (fun k maxack seg _ hk => ?_) _ none data h.2
    have hacked : ∀ seg' ∈ (k.acknowledged seg).sndBuf, seg'.data.length ≤ kcp.mss.toNat :=
      fun seg' hseg' => hk seg' ((notBefore_sublist seg.una k.sndBuf).subset hseg')
    rcases inputSegment_cases k maxack seg with ⟨-, heq⟩ | ⟨-, hwnd, hnxt, heq⟩ | ⟨-, -, heq⟩ | ⟨probe, heq⟩
    · rw [heq]
      obtain ⟨rttval, srtt, rto, undefined, hmeasured⟩ := measured_eq (k.acknowledged seg) seg.ts
      show ∀ seg' ∈ (ikcpParseAck ((k.acknowledged seg).measured seg.ts) seg.sn).sndBuf, _
      rw [hmeasured]
      exact hack { k.acknowledged seg with
        rxRttval := rttval, rxSrtt := srtt, rxRto := rto, undefined := undefined } seg.sn hacked
    · have hstored : (ikcpParseData (ikcpAckPush (k.acknowledged seg) seg.sn seg.ts) seg).timers.sndBuf
          = (k.acknowledged seg).sndBuf := by
        rw [ikcpParseData_eq (ikcpAckPush (k.acknowledged seg) seg.sn seg.ts) hwnd hnxt, timers_moveAvailable]
        unfold Ikcpcb.storeSegment
        split
        · rfl
        · rfl
      rw [heq]
      exact fun seg' hseg' => hacked seg' (hstored ▸ hseg')
    · rw [heq]
      exact hacked
    · rw [heq]
      exact hacked
  refine ⟨by rw [hqueue, hmss]; exact h.1, ?_⟩
  rw [hmss]
  rcases ikcpInput_cases kcp data with ⟨-, heq⟩ | ⟨ret, read, maxack, -, hread, hcases⟩
  · rw [heq]
    exact h.2
  · rw [hread] at hloop
    rcases hcases with ⟨-, heq⟩ | ⟨cwnd, incr, -, heq⟩
    · rw [heq]
      exact hloop
    · rw [heq]
      cases maxack with
      | none => exact hloop
      | some sn =>
        show ∀ seg ∈ (ikcpParseFastack read sn).sndBuf, _
        unfold ikcpParseFastack
        split
        · exact hloop
        · exact short_of_core (map_skipBefore Ikcpseg.core (fun _ _ => rfl) sn read.sndBuf) hloop

theorem Ikcpcb.Short.admitted (h : kcp.Short) : kcp.admitted.Short ∧ kcp.admitted.mss = kcp.mss := by
  refine admitSegments_invariant (P := fun k => k.Short ∧ k.mss = kcp.mss) (fun k seg queue hqueue _ hk => ?_) ?_
  · obtain ⟨⟨hk, hbuf⟩, hmss⟩ := hk
    rw [hqueue] at hk
    refine ⟨⟨fun seg' hseg' => hk seg' (List.mem_cons_of_mem _ hseg'), fun seg' hseg' => ?_⟩, hmss⟩
    rcases List.mem_append.mp hseg' with hseg' | hseg'
    · exact hbuf seg' hseg'
    · rw [List.mem_singleton.mp hseg']
      exact hk seg List.mem_cons_self
  · obtain ⟨wait, ts, probe, heq⟩ := probeWindow_eq { kcp with acklist := [] }
    unfold Ikcpcb.started
    rw [heq]
    exact ⟨h, rfl⟩

theorem Ikcpcb.Short.flush (h : kcp.Short) : (ikcpFlush kcp).2.Short := by
  by_cases hupdated : kcp.updated = 0
  · unfold ikcpFlush
    rwa [if_pos hupdated]
  · obtain ⟨ssthresh, cwnd, incr, heq⟩ := ikcpFlush_eq hupdated
    rw [heq]
    refine ⟨h.admitted.1.1, short_of_core ?_ h.admitted.1.2⟩
    exact map_core_flushing _ _ _ _ kcp.admitted.sndBuf _

/-- **A datagram is never longer than the mtu**, if no segment is longer than one may be. -/
theorem Ikcpcb.Short.length_le (h : kcp.Short) (hmtu : kcp.mss.toNat + 24 = kcp.mtu.toNat)
    (hlt : kcp.mtu.toNat < 2 ^ 31) : ∀ d ∈ (ikcpFlush kcp).1, d.length ≤ kcp.mtu.toNat := by
  have hover : IKCP_OVERHEAD.toNat = 24 := rfl
  have hputs : ∀ seg, kcp.Puts seg → seg.data.length ≤ kcp.mss.toNat := by
    intro seg hputs
    cases hputs with
    | ack _ => exact Nat.zero_le _
    | probe _ => exact Nat.zero_le _
    | @push seg' _ hmem hcore _ =>
      rw [length_of_core hcore, ← h.admitted.2]
      exact h.admitted.1.2 seg' hmem
  have hbox : kcp.flushing.box.buffer.length ≤ kcp.mtu.toNat
      ∧ ∀ d ∈ kcp.flushing.box.out, d.length ≤ kcp.mtu.toNat := by
    refine flushing_box (R := fun box _ => box.buffer.length ≤ kcp.mtu.toNat
      ∧ ∀ d ∈ box.out, d.length ≤ kcp.mtu.toNat) ⟨Nat.zero_le _, fun _ hd => absurd hd List.not_mem_nil⟩ ?_
    rintro box _ seg hseg ⟨hbuffer, hout⟩
    have hdata := hputs seg hseg
    have hlen : seg.len.toNat = seg.data.length :=
      UInt32.toNat_ofNat_of_lt' (show seg.data.length < 2 ^ 32 by omega)
    have hneed : toInt (IKCP_OVERHEAD + seg.len) = 24 + seg.data.length := by
      have hsum : (IKCP_OVERHEAD + seg.len).toNat = 24 + seg.data.length := by
        rw [UInt32.toNat_add, hover, hlen]
        omega
      rw [toInt_of_lt (by omega), hsum]
      omega
    unfold Outbox.put
    dsimp only
    rw [hneed, toInt_of_lt hlt]
    by_cases hfull : (box.buffer.length : ℤ) + (24 + seg.data.length) > kcp.mtu.toNat
    · rw [if_pos hfull]
      refine ⟨?_, fun d hd => ?_⟩
      · show ([] ++ seg.bytes).length ≤ kcp.mtu.toNat
        rw [List.nil_append, length_bytes]
        omega
      · unfold Outbox.output at hd
        dsimp only at hd
        split at hd
        · exact hout d hd
        · rcases List.mem_append.mp hd with hd | hd
          · exact hout d hd
          · exact List.mem_singleton.mp hd ▸ hbuffer
    · rw [if_neg hfull]
      refine ⟨?_, hout⟩
      show (box.buffer ++ seg.bytes).length ≤ kcp.mtu.toNat
      rw [List.length_append, length_bytes]
      omega
  intro d hd
  by_cases hupdated : kcp.updated = 0
  · unfold ikcpFlush at hd
    rw [if_pos hupdated] at hd
    exact absurd hd List.not_mem_nil
  · obtain ⟨_, _, _, heq⟩ := ikcpFlush_eq hupdated
    rw [heq] at hd
    unfold Outbox.output at hd
    dsimp only at hd
    split at hd
    · exact hbox.2 d hd
    · rcases List.mem_append.mp hd with hd | hd
      · exact hbox.2 d hd
      · exact List.mem_singleton.mp hd ▸ hbox.1

theorem Ikcpcb.Short.call (h : kcp.Short) (hwithin : kcp.timers.Within) {c : Call} (hc : kcp.Raises c) :
    (kcp.call c).Short := by
  obtain ⟨-, hlt, hmss⟩ : 50 ≤ kcp.mtu.toNat ∧ kcp.mtu.toNat < 2 ^ 31
    ∧ kcp.mss.toNat + 24 = kcp.mtu.toNat := hwithin.mtu
  cases c with
  | input data => exact h.input data
  | request req =>
    cases req with
    | recv len =>
      have htimers := timers_recv kcp len
      have hqueue : (ikcpRecv kcp len).2.2.sndQueue = kcp.sndQueue := congrArg Untouched.sndQueue (untouched_recv kcp len)
      have hbuf : (ikcpRecv kcp len).2.2.sndBuf = kcp.sndBuf := congrArg Timers.sndBuf htimers
      have hmss' : (ikcpRecv kcp len).2.2.mss = kcp.mss := congrArg (fun t => t.settings.mss) htimers
      show (ikcpRecv kcp len).2.2.Short
      unfold Ikcpcb.Short
      rw [hqueue, hbuf, hmss']
      exact h
    | send buffer => exact h.send (by omega) buffer.val
    | flush => exact h.flush
    | update current =>
      show (ikcpUpdate kcp current).2.Short
      obtain ⟨updated, tsFlush, -, heq | heq⟩ := ikcpUpdate_cases kcp current
      · rw [heq]
        exact h
      · rw [heq]
        exact Ikcpcb.Short.flush h
    | setmtu mtu =>
      have hset := hwithin.setmtu mtu
      obtain ⟨-, -, hmss'⟩ : 50 ≤ (ikcpSetmtu kcp mtu).2.mtu.toNat
        ∧ (ikcpSetmtu kcp mtu).2.mtu.toNat < 2 ^ 31
        ∧ (ikcpSetmtu kcp mtu).2.mss.toNat + 24 = (ikcpSetmtu kcp mtu).2.mtu.toNat := hset.mtu
      have hle : kcp.mtu.toNat ≤ (ikcpSetmtu kcp mtu).2.mtu.toNat := UInt32.le_iff_toNat_le.mp hc
      have hroom : kcp.mss.toNat ≤ (ikcpSetmtu kcp mtu).2.mss.toNat := by omega
      obtain ⟨mtu', mss, buffer, heq⟩ := ikcpSetmtu_eq kcp mtu
      show (ikcpSetmtu kcp mtu).2.Short
      rw [heq] at hroom ⊢
      exact ⟨fun seg hseg => (h.1 seg hseg).trans hroom, fun seg hseg => (h.2 seg hseg).trans hroom⟩
    | interval interval => exact h
    | nodelay nodelay interval resend nc =>
      obtain ⟨_, _, _, _, _, heq⟩ := ikcpNodelay_eq kcp nodelay interval resend nc
      show (ikcpNodelay kcp nodelay interval resend nc).Short
      rw [heq]
      exact h
    | wndsize sndwnd rcvwnd =>
      obtain ⟨sndWnd, rcvWnd, heq⟩ := ikcpWndsize_eq kcp sndwnd rcvwnd
      show (ikcpWndsize kcp sndwnd rcvwnd).Short
      rw [heq]
      exact h

theorem short_after {kcp kcp' : Ikcpcb} (hkcp : kcp.Short) (hwithin : kcp.timers.Within)
    {calls : List Call} (h : Raising kcp calls) (hcalls : kcp.calls calls = some kcp') :
    kcp'.Short := by
  induction calls generalizing kcp with
  | nil => exact Option.some.inj hcalls ▸ hkcp
  | cons c calls ih =>
    obtain ⟨next, hnext, hrest⟩ := Option.bind_eq_some_iff.mp hcalls
    obtain rfl := called_eq hnext
    exact ih (hkcp.call hwithin h.1) (hwithin.call c) h.2 hrest

/-- **A datagram of the mtu fits the buffer**, if the mtu is not too large. -/
theorem not_overruns {data : List UInt8} (hwithin : kcp.timers.Within)
    (hmtu : kcp.mtu.toNat ≤ 2 ^ 29) (h : data.length ≤ kcp.mtu.toNat) : kcp.overruns data = false := by
  have hover : IKCP_OVERHEAD.toNat = 24 := rfl
  have hthree : (3 : UInt32).toNat = 3 := rfl
  have hbuffer : kcp.buffer = (kcp.mtu + IKCP_OVERHEAD) * 3 := hwithin.buffer
  have hroom : kcp.buffer.toNat = (kcp.mtu.toNat + 24) * 3 := by
    rw [hbuffer, UInt32.toNat_mul, UInt32.toNat_add, hover, hthree]
    omega
  unfold Ikcpcb.overruns
  rw [hroom]
  exact decide_eq_false (by omega)

/-- **No datagram is ever longer than the mtu**, if it was never lowered, and none overruns the
buffer, if the mtu is at most `2 ^ 29` besides. -/
theorem length_le_mtu (conv : UInt32) (stream : Int32) (calls : List Call) {kcp : Ikcpcb}
    (h : Raising { ikcpCreate conv with stream := stream } calls)
    (hcalls : ({ ikcpCreate conv with stream := stream } : Ikcpcb).calls calls = some kcp)
    (req : Request) : ∀ d ∈ (kcp.request req).1, d.length ≤ kcp.mtu.toNat
      ∧ (kcp.mtu.toNat ≤ 2 ^ 29 → kcp.overruns d = false) := by
  have hnew : ({ ikcpCreate conv with stream := stream } : Ikcpcb).Short :=
    ⟨fun _ hseg => absurd hseg List.not_mem_nil, fun _ hseg => absurd hseg List.not_mem_nil⟩
  have hshort := short_after hnew (.create conv stream) h hcalls
  have hwithin := bounds_after conv stream calls hcalls
  obtain ⟨-, hlt, hmss⟩ := hwithin.mtu
  have hnone : ∀ d ∈ ([] : List (List UInt8)), d.length ≤ kcp.mtu.toNat :=
    fun _ hd => absurd hd List.not_mem_nil
  have hlength : ∀ d ∈ (kcp.request req).1, d.length ≤ kcp.mtu.toNat := by
    cases req with
    | flush => exact hshort.length_le hmss hlt
    | update current =>
      show ∀ d ∈ (ikcpUpdate kcp current).1, d.length ≤ kcp.mtu.toNat
      obtain ⟨updated, tsFlush, -, heq | heq⟩ := ikcpUpdate_cases kcp current
      · rw [heq]
        exact hnone
      · rw [heq]
        have hclocked : ({ kcp with
            current := current, updated := updated, tsFlush := tsFlush } : Ikcpcb).Short := hshort
        exact hclocked.length_le hmss hlt
    | _ => exact hnone
  exact fun d hd => ⟨hlength d hd, fun hmtu => not_overruns hwithin hmtu (hlength d hd)⟩

/-- The mtu is raised before something is sent. -/
def raised : List Call :=
  [.request (.setmtu 1500), .request (.send .hi), .request (.update 0)]

theorem length_le_mtu_raised : ∃ kcp,
    ({ ikcpCreate 7 with stream := 0 } : Ikcpcb).calls raised = some kcp
    ∧ (kcp.request (.update 100)).1.map List.length = [26]
    ∧ ∀ d ∈ (kcp.request (.update 100)).1, d.length ≤ kcp.mtu.toNat
      ∧ (kcp.mtu.toNat ≤ 2 ^ 29 → kcp.overruns d = false) := by
  have hraises : (ikcpCreate 7).mtu ≤ (ikcpSetmtu (ikcpCreate 7) 1500).2.mtu := by decide
  obtain ⟨kcp, hcalls, hlengths⟩ := Option.map_eq_some_iff.mp
    (show (({ ikcpCreate 7 with stream := 0 } : Ikcpcb).calls raised).map
      (fun kcp => (kcp.request (.update 100)).1.map List.length) = some [26] by decide)
  exact ⟨kcp, hcalls, hlengths,
    length_le_mtu 7 0 raised ⟨hraises, trivial, trivial, trivial⟩ hcalls (.update 100)⟩

end Kcp
