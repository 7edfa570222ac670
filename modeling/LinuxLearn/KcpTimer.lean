import LinuxLearn.KcpCalls

/-!
# When to update

`ikcp_update` is to be called again and again, since a flush is due every `interval`
milliseconds; or `ikcp_check` tells when to call it again. A program that calls it in every
millisecond (`polled`) and one that waits as long as it is told (`driven`) put out the same
datagrams, whatever they ask for in between that does not look at the clock (`driven_eq`).

What arrives does look at the clock, since it measures the time a datagram took. So
`ikcp_input` must follow a call of `ikcp_update`, as its comment says.
-/

namespace Kcp

/-! ## What does not look at the clock -/

/-- **The clock of a control block**: what time it is, when the next flush is, and whether it was
ever set. -/
structure Clock where
  current : UInt32
  tsFlush : UInt32
  updated : UInt32

def Ikcpcb.clock (kcp : Ikcpcb) : Clock := ⟨kcp.current, kcp.tsFlush, kcp.updated⟩

/-- The control block with another clock. -/
def Ikcpcb.withClock (kcp : Ikcpcb) (clock : Clock) : Ikcpcb :=
  { kcp with current := clock.current, tsFlush := clock.tsFlush, updated := clock.updated }

/-- The requests that neither set the clock nor look at it. -/
def Request.timeless : Request → Bool
  | .flush => false
  | .update _ => false
  | _ => true

/-- **A request that does not look at the clock.** -/
abbrev Timeless : Type := {req : Request // req.timeless}

variable {kcp : Ikcpcb} {current now next : UInt32}

theorem moveAvailable_withClock (buf : List Ikcpseg) (kcp : Ikcpcb) (clock : Clock) :
    moveAvailable buf (kcp.withClock clock) = (moveAvailable buf kcp).withClock clock := by
  induction buf generalizing kcp with
  | nil => rfl
  | cons seg buf ih =>
    unfold moveAvailable
    by_cases hnext : seg.sn = kcp.rcvNxt ∧ kcp.nrcvQue < kcp.rcvWnd
    · rw [if_pos hnext]
      exact (if_pos hnext).trans (ih { kcp with
        nrcvBuf := kcp.nrcvBuf - 1
        rcvQueue := kcp.rcvQueue ++ [seg]
        nrcvQue := kcp.nrcvQue + 1
        rcvNxt := kcp.rcvNxt + 1 })
    · rw [if_neg hnext]
      exact if_neg hnext

theorem ikcpRecv_withClock (kcp : Ikcpcb) (clock : Clock) (len : ℤ) :
    (ikcpRecv (kcp.withClock clock) len).2.2 = (ikcpRecv kcp len).2.2.withClock clock := by
  have hread : ∀ read : Ikcpcb, (if kcp.nrcvQue ≥ kcp.rcvWnd
        ∧ (moveAvailable read.rcvBuf (read.withClock clock)).nrcvQue
          < (moveAvailable read.rcvBuf (read.withClock clock)).rcvWnd then
        { moveAvailable read.rcvBuf (read.withClock clock) with
          probe := (moveAvailable read.rcvBuf (read.withClock clock)).probe ||| IKCP_ASK_TELL }
      else moveAvailable read.rcvBuf (read.withClock clock))
      = (if kcp.nrcvQue ≥ kcp.rcvWnd
        ∧ (moveAvailable read.rcvBuf read).nrcvQue < (moveAvailable read.rcvBuf read).rcvWnd then
        { moveAvailable read.rcvBuf read with
          probe := (moveAvailable read.rcvBuf read).probe ||| IKCP_ASK_TELL }
      else moveAvailable read.rcvBuf read).withClock clock := by
    intro read
    rw [moveAvailable_withClock]
    by_cases htell : kcp.nrcvQue ≥ kcp.rcvWnd
        ∧ (moveAvailable read.rcvBuf read).nrcvQue < (moveAvailable read.rcvBuf read).rcvWnd
    · rw [if_pos htell]
      exact if_pos htell
    · rw [if_neg htell]
      exact if_neg htell
  unfold ikcpRecv
  by_cases hempty : kcp.rcvQueue.isEmpty
  · rw [if_pos hempty]
    exact congrArg (fun r : ℤ × List UInt8 × Ikcpcb => r.2.2) (if_pos hempty)
  · rw [if_neg hempty]
    refine (congrArg (fun r : ℤ × List UInt8 × Ikcpcb => r.2.2) (if_neg hempty)).trans ?_
    dsimp only
    by_cases hsize : ikcpPeeksize kcp < 0
    · rw [if_pos hsize]
      exact congrArg (fun r : ℤ × List UInt8 × Ikcpcb => r.2.2) (if_pos hsize)
    · rw [if_neg hsize]
      refine (congrArg (fun r : ℤ × List UInt8 × Ikcpcb => r.2.2) (if_neg hsize)).trans ?_
      by_cases hlong : ikcpPeeksize kcp > |len|
      · rw [if_pos hlong]
        exact congrArg (fun r : ℤ × List UInt8 × Ikcpcb => r.2.2) (if_pos hlong)
      · rw [if_neg hlong]
        refine (congrArg (fun r : ℤ × List UInt8 × Ikcpcb => r.2.2) (if_neg hlong)).trans ?_
        dsimp only
        by_cases hlen : len < 0
        · rw [if_pos hlen, if_pos hlen]
          exact hread kcp
        · rw [if_neg hlen, if_neg hlen]
          exact hread { kcp with
            rcvQueue := (mergeFragment kcp.rcvQueue).2
            nrcvQue := kcp.nrcvQue - UInt32.ofNat (mergeFragment kcp.rcvQueue).1.length }

theorem sendFragments_withClock (n : ℕ) (buffer : List UInt8) (kcp : Ikcpcb) (clock : Clock) :
    sendFragments n buffer (kcp.withClock clock) = (sendFragments n buffer kcp).withClock clock := by
  induction n generalizing buffer kcp with
  | zero => rfl
  | succ n ih =>
    unfold sendFragments
    exact ih _ { kcp with sndQueue := _, nsndQue := _ }

theorem appendStream_withClock (kcp : Ikcpcb) (clock : Clock) (buffer : List UInt8) :
    appendStream (kcp.withClock clock) buffer
      = ((appendStream kcp buffer).1, (appendStream kcp buffer).2.withClock clock) := by
  unfold appendStream
  have hqueue : (kcp.withClock clock).sndQueue = kcp.sndQueue := rfl
  rw [hqueue]
  cases kcp.sndQueue.getLast? with
  | none => rfl
  | some old =>
    dsimp only
    by_cases hroom : old.len < kcp.mss
    · rw [if_pos hroom]
      exact if_pos hroom
    · rw [if_neg hroom]
      exact if_neg hroom

theorem ikcpSend_withClock (kcp : Ikcpcb) (clock : Clock) (buffer : List UInt8) :
    (ikcpSend (kcp.withClock clock) buffer).2 = (ikcpSend kcp buffer).2.withClock clock := by
  have hfilled : (if (kcp.withClock clock).stream ≠ 0 then appendStream (kcp.withClock clock) buffer
      else (buffer, kcp.withClock clock))
      = ((if kcp.stream ≠ 0 then appendStream kcp buffer else (buffer, kcp)).1,
        (if kcp.stream ≠ 0 then appendStream kcp buffer else (buffer, kcp)).2.withClock clock) := by
    by_cases hstream : kcp.stream ≠ 0
    · rw [if_pos hstream]
      exact (if_pos hstream).trans (appendStream_withClock kcp clock buffer)
    · rw [if_neg hstream]
      exact if_neg hstream
  unfold ikcpSend
  rw [hfilled]
  generalize (if kcp.stream ≠ 0 then appendStream kcp buffer else (buffer, kcp)) = filled
  dsimp only
  by_cases hdone : filled.2.stream ≠ 0 ∧ filled.1.length ≤ 0
  · rw [if_pos hdone]
    exact congrArg Prod.snd (if_pos hdone)
  · rw [if_neg hdone]
    refine (congrArg Prod.snd (if_neg hdone)).trans ?_
    by_cases hmany : fragmentCount filled.2.mss filled.1.length ≥ toInt IKCP_WND_RCV
    · rw [if_pos hmany]
      exact congrArg Prod.snd (if_pos hmany)
    · rw [if_neg hmany]
      refine (congrArg Prod.snd (if_neg hmany)).trans ?_
      exact sendFragments_withClock _ _ _ _

/-- **Such a request does the same**, whatever the clock says, and puts nothing out. -/
theorem request_withClock (kcp : Ikcpcb) (clock : Clock) (req : Timeless) :
    ((kcp.withClock clock).request req.val).2 = (kcp.request req.val).2.withClock clock := by
  obtain ⟨req, hreq⟩ := req
  cases req with
  | recv len => exact ikcpRecv_withClock kcp clock len
  | send buffer => exact ikcpSend_withClock kcp clock buffer.val
  | flush => cases hreq
  | update current => cases hreq
  | setmtu mtu =>
    show (ikcpSetmtu (kcp.withClock clock) mtu).2 = (ikcpSetmtu kcp mtu).2.withClock clock
    unfold ikcpSetmtu
    split
    · rfl
    · rfl
  | interval interval => rfl
  | nodelay nodelay interval resend nc =>
    show ikcpNodelay (kcp.withClock clock) nodelay interval resend nc
      = (ikcpNodelay kcp nodelay interval resend nc).withClock clock
    unfold ikcpNodelay
    dsimp only
    split <;> split <;> split <;> split <;> rfl
  | wndsize sndwnd rcvwnd =>
    show ikcpWndsize (kcp.withClock clock) sndwnd rcvwnd
      = (ikcpWndsize kcp sndwnd rcvwnd).withClock clock
    unfold ikcpWndsize
    dsimp only
    split <;> split <;> rfl

/-- It leaves the clock what it is. -/
theorem request_clock (kcp : Ikcpcb) (req : Timeless) : (kcp.request req.val).2.clock = kcp.clock := by
  have hsame : (kcp.request req.val).2 = (kcp.request req.val).2.withClock kcp.clock :=
    request_withClock kcp kcp.clock req
  rw [hsame]
  rfl

/-- Such requests, one after another. -/
def Ikcpcb.requests (kcp : Ikcpcb) (reqs : List Timeless) : Ikcpcb :=
  reqs.foldl (fun kcp req => (kcp.request req.val).2) kcp

theorem requests_withClock (kcp : Ikcpcb) (clock : Clock) (reqs : List Timeless) :
    (kcp.withClock clock).requests reqs = (kcp.requests reqs).withClock clock := by
  induction reqs generalizing kcp with
  | nil => rfl
  | cons req reqs ih =>
    refine Eq.trans ?_ (ih (kcp.request req.val).2)
    exact congrArg (fun k : Ikcpcb => k.requests reqs) (request_withClock kcp clock req)

theorem requests_clock (kcp : Ikcpcb) (reqs : List Timeless) : (kcp.requests reqs).clock = kcp.clock := by
  induction reqs generalizing kcp with
  | nil => rfl
  | cons req reqs ih => exact (ih _).trans (request_clock kcp req)

/-! ## How long to wait -/

/-- The control block at another time. -/
def Ikcpcb.withCurrent (kcp : Ikcpcb) (current : UInt32) : Ikcpcb :=
  kcp.withClock { kcp.clock with current := current }

theorem Ikcpcb.withCurrent_self (kcp : Ikcpcb) : kcp.withCurrent kcp.current = kcp := rfl

/-- **The clock is not yet at the time for a flush**: an update sets it, and nothing else. -/
theorem ikcpUpdate_early (hupdated : kcp.updated ≠ 0) (hearly : itimediff current kcp.tsFlush < 0)
    (hnear : itimediff current kcp.tsFlush ≥ -10000) :
    ikcpUpdate kcp current = ([], kcp.withCurrent current) := by
  have hclock : setClock kcp current = (itimediff current kcp.tsFlush, kcp.withCurrent current) := by
    unfold setClock
    dsimp only
    rw [if_neg hupdated]
    have hsmall : ¬ (itimediff current kcp.tsFlush ≥ 10000 ∨ itimediff current kcp.tsFlush < -10000) :=
      fun h => h.elim (fun h => by omega) (fun h => by omega)
    exact if_neg hsmall
  unfold ikcpUpdate
  rw [hclock]
  exact if_neg (not_le.mpr hearly)

/-- An update sets the clock first, so it does not matter what it said. -/
theorem ikcpUpdate_withCurrent (kcp : Ikcpcb) (current now : UInt32) :
    ikcpUpdate (kcp.withCurrent current) now = ikcpUpdate kcp now := rfl

/-- **No segment is due** for as long as the loop says, which is some time. -/
theorem checkPackets_bounds {buf : List Ikcpseg} {tm tmPacket : ℤ} (htm : 0 < tm)
    (h : checkPackets current buf tm = some tmPacket) : 0 < tmPacket ∧ tmPacket ≤ tm := by
  induction buf generalizing tm with
  | nil =>
    obtain rfl := Option.some.inj h
    exact ⟨htm, le_rfl⟩
  | cons seg buf ih =>
    unfold checkPackets at h
    dsimp only at h
    by_cases hdue : itimediff seg.resendts current ≤ 0
    · rw [if_pos hdue] at h
      cases h
    · rw [if_neg hdue] at h
      by_cases hless : itimediff seg.resendts current < tm
      · rw [if_pos hless] at h
        obtain ⟨hpos, hle⟩ := ih (by omega) h
        exact ⟨hpos, by omega⟩
      · rw [if_neg hless] at h
        exact ih htm h

/-- A time that is not far away, seen from the other side. -/
theorem toNat_sub_of_itimediff {later : UInt32} (hneg : itimediff current later < 0)
    (hnear : -10000 ≤ itimediff current later) :
    0 < (later - current).toNat ∧ (later - current).toNat ≤ 10000
      ∧ itimediff later current = (later - current).toNat := by
  unfold itimediff at *
  rw [toInt_eq] at *
  have hlater := later.toNat_lt
  have hcurrent := current.toNat_lt
  simp only [UInt32.toNat_sub] at *
  split at hneg
  · omega
  · split <;> omega

/-- **`ikcp_check` never says to wait for longer than until the next flush.** -/
theorem ikcpCheck_cases (kcp : Ikcpcb) (current : UInt32) : ikcpCheck kcp current = current
    ∨ ∃ wait : UInt32, ikcpCheck kcp current = current + wait ∧ kcp.updated ≠ 0
      ∧ wait.toNat ≤ (kcp.tsFlush - current).toNat ∧ (kcp.tsFlush - current).toNat ≤ 10000 := by
  have hself : itimediff current current ≥ 0 := by
    unfold itimediff
    rw [UInt32.sub_self]
    decide
  unfold ikcpCheck
  by_cases hupdated : kcp.updated = 0
  · rw [if_pos hupdated]
    exact Or.inl rfl
  · rw [if_neg hupdated]
    dsimp only
    by_cases hfar : itimediff current kcp.tsFlush ≥ 10000 ∨ itimediff current kcp.tsFlush < -10000
    · rw [if_pos hfar, if_pos hself]
      exact Or.inl rfl
    · rw [if_neg hfar]
      by_cases hlate : itimediff current kcp.tsFlush ≥ 0
      · rw [if_pos hlate]
        exact Or.inl rfl
      · rw [if_neg hlate]
        obtain ⟨hpos, hle, hflush⟩ := toNat_sub_of_itimediff (not_le.mp hlate)
          (not_lt.mp (not_or.mp hfar).2)
        cases hpackets : checkPackets current kcp.sndBuf 0x7fffffff with
        | none => exact Or.inl rfl
        | some tmPacket =>
          right
          dsimp only
          obtain ⟨hpacket, -⟩ := checkPackets_bounds (by decide) hpackets
          generalize hminimal : (if tmPacket < itimediff kcp.tsFlush current then tmPacket
            else itimediff kcp.tsFlush current) = minimal
          have hbounds : 0 < minimal ∧ minimal ≤ (kcp.tsFlush - current).toNat := by
            rw [← hminimal, hflush]
            split
            · omega
            · omega
          obtain ⟨n, rfl⟩ := Int.eq_ofNat_of_zero_le hbounds.1.le
          have hn : (UInt32.ofInt n).toNat = n := by
            show (UInt32.ofNat ((n : ℤ) % 2 ^ 32).toNat).toNat = n
            have hmod : ((n : ℤ) % 2 ^ 32).toNat = n := by omega
            rw [hmod]
            exact UInt32.toNat_ofNat_of_lt' (show n < 2 ^ 32 by omega)
          refine ⟨_, rfl, hupdated, ?_, hle⟩
          by_cases hlong : UInt32.ofInt n ≥ kcp.interval
          · rw [if_pos hlong]
            have hinterval := UInt32.le_iff_toNat_le.mp hlong
            omega
          · rw [if_neg hlong]
            omega

/-- **A program that waits** has some time left: less than until the next flush. -/
def Paced (kcp : Ikcpcb) (next now : UInt32) : Prop :=
  itimediff now next < 0 → kcp.updated ≠ 0 ∧ -10000 ≤ itimediff now kcp.tsFlush
    ∧ itimediff now kcp.tsFlush ≤ itimediff now next

theorem itimediff_succ {a b : UInt32} (h : itimediff a b < 2 ^ 31 - 1) :
    itimediff (a + 1) b = itimediff a b + 1 := by
  unfold itimediff at *
  rw [toInt_eq] at h
  rw [toInt_eq, toInt_eq]
  have ha := a.toNat_lt
  have hb := b.toNat_lt
  have hone : (1 : UInt32).toNat = 1 := rfl
  simp only [UInt32.toNat_sub, UInt32.toNat_add, hone] at *
  split at h <;> split <;> omega

/-- A millisecond later. -/
theorem Paced.succ (h : Paced kcp next now) (hwait : itimediff now next < 0) :
    Paced kcp next (now + 1) := by
  obtain ⟨hupdated, hnear, hle⟩ := h hwait
  intro hwait'
  rw [itimediff_succ (by omega)] at hwait' ⊢
  rw [itimediff_succ (by omega)]
  exact ⟨hupdated, by omega, by omega⟩

/-- **What `ikcp_check` says is soon enough.** -/
theorem paced_ikcpCheck (kcp : Ikcpcb) (now : UInt32) : Paced kcp (ikcpCheck kcp now) (now + 1) := by
  intro hwait
  have hone : (now + 1 - now).toNat = 1 := by
    rw [UInt32.add_comm, UInt32.add_sub_cancel]
    rfl
  rcases ikcpCheck_cases kcp now with heq | ⟨wait, heq, hupdated, hle, hnear⟩
  · rw [heq, itimediff_eq now, hone, UInt32.sub_self] at hwait
    · exact absurd hwait (by decide)
    · rw [hone, UInt32.sub_self]
      decide
    · rw [hone, UInt32.sub_self]
      decide
  · have hnext : (now + wait - now).toNat = wait.toNat := by
      rw [UInt32.add_comm, UInt32.add_sub_cancel]
    have hwaits : itimediff (now + 1) (now + wait) = 1 - wait.toNat := by
      rw [itimediff_eq now (by omega) (by omega), hone, hnext]
      rfl
    have hflush : itimediff (now + 1) kcp.tsFlush = 1 - (kcp.tsFlush - now).toNat := by
      rw [itimediff_eq now (by omega) (by omega), hone]
      rfl
    rw [heq, hwaits] at *
    rw [hflush]
    exact ⟨hupdated, by omega, by omega⟩

/-! ## Two programs -/

/-- **A program that calls `ikcp_update` in every millisecond**, after some requests: the datagrams
that are put out, and the control block in the end. -/
def polled : List (List Timeless) → UInt32 → Ikcpcb → List (List UInt8) × Ikcpcb
  | [], _, kcp => ([], kcp)
  | reqs :: ticks, now, kcp =>
    let updated := ikcpUpdate (kcp.requests reqs) now
    let rest := polled ticks (now + 1) updated.2
    (updated.1 ++ rest.1, rest.2)

/-- **A program that calls it when `ikcp_check` has said**, which it asks after each call. -/
def driven : List (List Timeless) → UInt32 → UInt32 → Ikcpcb → List (List UInt8) × Ikcpcb
  | [], _, _, kcp => ([], kcp)
  | reqs :: ticks, now, next, kcp =>
    if itimediff now next ≥ 0 then
      let updated := ikcpUpdate (kcp.requests reqs) now
      let rest := driven ticks (now + 1) (ikcpCheck updated.2 now) updated.2
      (updated.1 ++ rest.1, rest.2)
    else driven ticks (now + 1) next (kcp.requests reqs)

/-- The two programs do the same from where one of them has waited for a while. -/
theorem driven_eq_of_paced (ticks : List (List Timeless)) {kcp : Ikcpcb} {next now : UInt32}
    (h : Paced kcp next now) (current : UInt32) :
    (driven ticks now next kcp).1 = (polled ticks now (kcp.withCurrent current)).1
      ∧ ∃ current', (polled ticks now (kcp.withCurrent current)).2
        = (driven ticks now next kcp).2.withCurrent current' := by
  induction ticks generalizing kcp next now current with
  | nil => exact ⟨rfl, current, rfl⟩
  | cons reqs ticks ih =>
    have hclock := requests_clock kcp reqs
    have hreqs : (kcp.withCurrent current).requests reqs = (kcp.requests reqs).withCurrent current := by
      unfold Ikcpcb.withCurrent
      rw [requests_withClock, hclock]
    unfold polled driven
    rw [hreqs, ikcpUpdate_withCurrent]
    dsimp only
    by_cases hdue : itimediff now next ≥ 0
    · rw [if_pos hdue]
      generalize ikcpUpdate (kcp.requests reqs) now = updated
      have hnext := ih (paced_ikcpCheck updated.2 now) updated.2.current
      rw [Ikcpcb.withCurrent_self] at hnext
      obtain ⟨hout, current', hkcp⟩ := hnext
      exact ⟨congrArg (updated.1 ++ ·) hout, current', hkcp⟩
    · rw [if_neg hdue]
      have hwait := not_le.mp hdue
      obtain ⟨hupdated, hnear, hle⟩ := h hwait
      have hflush : (kcp.requests reqs).tsFlush = kcp.tsFlush := congrArg Clock.tsFlush hclock
      have hset : (kcp.requests reqs).updated = kcp.updated := congrArg Clock.updated hclock
      rw [ikcpUpdate_early (hset ▸ hupdated) (by rw [hflush]; omega) (by rw [hflush]; exact hnear)]
      have hpaced : Paced (kcp.requests reqs) next (now + 1) := by
        refine Paced.succ (fun _ => ?_) hwait
        rw [hset, hflush]
        exact ⟨hupdated, hnear, hle⟩
      exact ih hpaced now

/-- **Waiting as long as `ikcp_check` says changes nothing**: the same datagrams are put out, and in
the end only the time that the control block knows may differ. -/
theorem driven_eq (ticks : List (List Timeless)) (start : UInt32) (kcp : Ikcpcb) :
    (driven ticks start start kcp).1 = (polled ticks start kcp).1
      ∧ ∃ current, (polled ticks start kcp).2 = (driven ticks start start kcp).2.withCurrent current := by
  have hself : Paced kcp start start := by
    intro hwait
    unfold itimediff at hwait
    rw [UInt32.sub_self] at hwait
    exact absurd hwait (by decide)
  exact driven_eq_of_paced ticks hself kcp.current

end Kcp
