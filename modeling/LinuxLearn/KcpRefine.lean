import LinuxLearn.Fragmentation
import LinuxLearn.KcpFlush
import LinuxLearn.SlidingWindow

/-!
# A control block in a sliding window

Between two control blocks there are two sliding windows, one for each direction. In one
of them a control block is the side that sends (`Sends`): its buffer has what is held,
under the numbers that were given. In the other one it receives (`Receives`): its buffer
has what came early, and its queue the end of what was delivered.

As long as fewer than `2 ^ 31` segments have been given numbers, the numbers that the code
compares are those of the sliding window. Then whatever a control block does is some steps
there, and every segment that it sends carries messages that were sent there.
-/

open SlidingWindow

namespace Kcp

/-- **What a segment is for**: a piece of a message. -/
abbrev Payload : Type := Fragmentation.Piece UInt8

def Ikcpseg.payload (seg : Ikcpseg) : Payload := (seg.frg.toNat, seg.data)

/-- **A segment that a header can describe.** -/
structure Ikcpseg.Fits (seg : Ikcpseg) : Prop where
  frg : seg.frg.toNat < 256
  len : seg.data.length < 2 ^ 31

/-- **A sender in a sliding window**, in which it has given all the numbers there are. -/
structure Sends (conv : UInt32) (s : Sender) (h : State Payload) : Prop where
  nxt : s.nxt.toNat = h.sent.length
  queue : ∀ seg ∈ s.queue, seg.Fits
  buf : ∀ seg ∈ s.buf, h.sent[seg.sn.toNat]? = some seg.payload ∧ seg.conv = conv
    ∧ seg.cmd = IKCP_CMD_PUSH ∧ seg.Fits
  held : ∀ n ∈ h.held, ∃ seg ∈ s.buf, seg.sn.toNat = n

/-- **A receiver in a sliding window**; `read` is what was taken off its queue. -/
structure Receives (read : List Payload) (r : Receiver) (h : State Payload) : Prop where
  nxt : r.nxt.toNat = h.got.length
  queue : h.got = read ++ r.queue.map Ikcpseg.payload
  buf : ∀ seg ∈ r.buf, h.early seg.sn.toNat = some seg.payload
  early : ∀ n a, h.early n = some a → ∃ seg ∈ r.buf, seg.sn.toNat = n ∧ seg.payload = a
  acks : ∀ ack ∈ r.acks, h.Received ack.1.toNat

/-- **What a segment carries**: of the window in which its sender sends, an item, and of the
other one, what has come. -/
structure Carries (conv : UInt32) (hs hr : State Payload) (seg : Ikcpseg) : Prop where
  readable : seg.Readable conv
  frg : seg.frg.toNat < 256
  push : seg.cmd = IKCP_CMD_PUSH → .data seg.sn.toNat seg.payload ∈ hs.net
  ack : seg.cmd = IKCP_CMD_ACK → .ack seg.sn.toNat ∈ hr.net
  una : .upTo seg.una.toNat ∈ hr.net

variable {conv : UInt32} {h h' hs hr hs' hr' : State Payload} {s : Sender} {r : Receiver}
  {kcp : Ikcpcb} {seg newseg : Ikcpseg} {buf : List Ikcpseg} {read : List Payload}

/-- What was carried once can always arrive. -/
theorem Carries.mono (hc : Carries conv hs hr seg) (hsteps : Steps hs hs') (hsteps' : Steps hr hr') :
    Carries conv hs' hr' seg where
  readable := hc.readable
  frg := hc.frg
  push := fun hcmd => hsteps.net_subset (hc.push hcmd)
  ack := fun hcmd => hsteps'.net_subset (hc.ack hcmd)
  una := hsteps'.net_subset hc.una

/-! ## Acknowledgements arrive -/

/-- A number that was given is that of an item. -/
theorem Sends.sn_lt (hsends : Sends conv s h) (hseg : seg ∈ s.buf) : seg.sn.toNat < h.sent.length :=
  (List.getElem?_eq_some_iff.mp (hsends.buf seg hseg).1).1

/-- **What goes from the buffer must have been released.** -/
theorem Sends.keep {t : Sender} (hsends : Sends conv s h) (hsub : ∀ seg ∈ t.buf, seg ∈ s.buf)
    (hnxt : t.nxt = s.nxt) (hqueue : t.queue = s.queue) (held : Set ℕ)
    (hheld : ∀ n ∈ held, n ∈ h.held ∧ ∀ seg ∈ s.buf, seg.sn.toNat = n → seg ∈ t.buf) :
    Sends conv t { h with held := held } where
  nxt := hnxt ▸ hsends.nxt
  queue := hqueue ▸ hsends.queue
  buf := fun seg hseg => hsends.buf seg (hsub seg hseg)
  held := by
    intro n hn
    obtain ⟨hn, hkeep⟩ := hheld n hn
    obtain ⟨seg, hseg, heq⟩ := hsends.held n hn
    exact ⟨seg, hkeep seg hseg heq, heq⟩

theorem mem_notBefore {una : UInt32} (hseg : seg ∈ buf) (hle : itimediff una seg.sn ≤ 0) :
    seg ∈ notBefore una buf := by
  induction buf with
  | nil => exact hseg
  | cons first buf ih =>
    unfold notBefore
    by_cases hdrop : itimediff una first.sn > 0
    · rw [List.dropWhile_cons_of_pos (by simpa using hdrop)]
      rcases List.mem_cons.mp hseg with rfl | hseg
      · omega
      · exact ih hseg
    · rw [List.dropWhile_cons_of_neg (by simpa using hdrop)]
      exact hseg

/-- **All below a number has come.** -/
theorem Sends.acknowledged (hsends : Sends conv kcp.sender h)
    (hinv : SlidingWindow.Inv h) (hbound : h.sent.length < 2 ^ 31) (huna : .upTo seg.una.toNat ∈ h.net) :
    ∃ h', Releases h h' ∧ Sends conv (kcp.acknowledged seg).sender h' := by
  have hle : seg.una.toNat ≤ h.sent.length := (hinv.upTo _ huna).trans hinv.got.length_le
  have hsub := notBefore_sublist seg.una kcp.sndBuf
  refine ⟨_, .single (.releaseUpTo huna) rfl rfl rfl, ?_⟩
  refine Sends.keep (t := (kcp.acknowledged seg).sender) hsends (fun seg' hseg' => hsub.subset hseg')
    rfl rfl (h.held \ {i | i < seg.una.toNat}) (fun n hn => ⟨hn.1, fun seg' hseg' heq => ?_⟩)
  have hlt := hsends.sn_lt hseg'
  refine mem_notBefore hseg' ?_
  rw [itimediff_of_lt (by omega) (by omega)]
  have hge : ¬ n < seg.una.toNat := hn.2
  omega

/-- **The item of a number has come.** -/
theorem Sends.parseAck {sn : UInt32} (hsends : Sends conv kcp.sender h) (hack : .ack sn.toNat ∈ h.net) :
    ∃ h', Releases h h' ∧ Sends conv (ikcpShrinkBuf (ikcpParseAck kcp sn)).sender h' := by
  unfold ikcpParseAck
  split
  · exact ⟨h, .refl, hsends.nxt, hsends.queue, hsends.buf, hsends.held⟩
  · rcases removeAcked_cases sn kcp.sndBuf with heq | ⟨before, acked, after, hbuf, hsn, heq⟩
    · refine ⟨h, .refl, hsends.nxt, hsends.queue, ?_, ?_⟩
      · show ∀ seg ∈ removeAcked sn kcp.sndBuf, _
        rw [heq]
        exact hsends.buf
      · show ∀ n ∈ h.held, ∃ seg ∈ removeAcked sn kcp.sndBuf, _
        rw [heq]
        exact hsends.held
    · refine ⟨_, .single (.release hack) rfl rfl rfl, ?_⟩
      refine Sends.keep (t := (ikcpShrinkBuf { kcp with
          sndBuf := removeAcked sn kcp.sndBuf, nsndBuf := _ }).sender) hsends
        (fun seg' hseg' => (removeAcked_sublist sn kcp.sndBuf).subset hseg') rfl rfl
        (h.held \ {sn.toNat}) (fun n hn => ⟨hn.1, fun seg' hseg' hsn' => ?_⟩)
      show seg' ∈ removeAcked sn kcp.sndBuf
      have hne : seg' ≠ acked := by
        rintro rfl
        exact hn.2 (by rw [← hsn', hsn]; rfl)
      have hmem : seg' ∈ before ++ acked :: after := hbuf ▸ hseg'
      rw [heq]
      rcases List.mem_append.mp hmem with hmem | hmem
      · exact List.mem_append_left _ hmem
      · exact List.mem_append_right _ ((List.mem_cons.mp hmem).resolve_left hne)

theorem payload_of_core {seg seg' : Ikcpseg} (h : seg.core = seg'.core) : seg.payload = seg'.payload := by
  have hfrg : seg.frg = seg'.frg := congrArg (fun c => c.2.2.1) h
  have hdata : seg.data = seg'.data := congrArg (fun c => c.2.2.2.2) h
  exact Prod.ext (congrArg UInt32.toNat hfrg) hdata

/-- Only what the segments of the buffer are matters. -/
theorem Sends.congr (hsends : Sends conv s h) (hcore : buf.map Ikcpseg.core = s.buf.map Ikcpseg.core) :
    Sends conv { s with buf := buf } h where
  nxt := hsends.nxt
  queue := hsends.queue
  buf := by
    intro seg hseg
    have hmem : seg.core ∈ s.buf.map Ikcpseg.core := hcore ▸ List.mem_map_of_mem hseg
    obtain ⟨seg', hseg', heq⟩ := List.mem_map.mp hmem
    obtain ⟨hsent, hconv, hcmd, hfrg, hlen⟩ := hsends.buf seg' hseg'
    have hsn : seg'.sn = seg.sn := congrArg (fun c => c.2.2.2.1) heq
    refine ⟨?_, ?_, ?_, ?_, ?_⟩
    · rw [← hsn, ← payload_of_core heq]
      exact hsent
    · exact (congrArg (fun c => c.1) heq).symm.trans hconv
    · exact (congrArg (fun c => c.2.1) heq).symm.trans hcmd
    · have hfrg' : seg'.frg = seg.frg := congrArg (fun c => c.2.2.1) heq
      exact hfrg' ▸ hfrg
    · have hdata : seg'.data = seg.data := congrArg (fun c => c.2.2.2.2) heq
      exact hdata ▸ hlen
  held := by
    intro n hn
    obtain ⟨seg', hseg', heq⟩ := hsends.held n hn
    have hmem : seg'.core ∈ buf.map Ikcpseg.core := hcore ▸ List.mem_map_of_mem hseg'
    obtain ⟨seg, hseg, heq'⟩ := List.mem_map.mp hmem
    have hsn : seg.sn = seg'.sn := congrArg (fun c => c.2.2.2.1) heq'
    exact ⟨seg, hseg, by rw [hsn, heq]⟩

/-- Skipping leaves the segments what they are. -/
theorem Sends.parseMaxack (hsends : Sends conv kcp.sender h) (maxack : Option UInt32) :
    Sends conv (parseMaxack kcp maxack).sender h := by
  cases maxack with
  | none => exact hsends
  | some sn =>
    show Sends conv (ikcpParseFastack kcp sn).sender h
    unfold ikcpParseFastack
    split
    · exact hsends
    · exact hsends.congr (map_skipBefore Ikcpseg.core (fun _ _ => rfl) sn kcp.sndBuf)

/-- What the other side takes does not concern the sender. -/
theorem Sends.takes (hsends : Sends conv s h) (htakes : Takes h h') : Sends conv s h' where
  nxt := htakes.sent ▸ hsends.nxt
  queue := hsends.queue
  buf := fun seg hseg => htakes.sent ▸ hsends.buf seg hseg
  held := fun n hn => hsends.held n (htakes.held ▸ hn)

/-! ## Data arrives -/

/-- **A segment is stored**, or there already. -/
theorem Receives.store (hok : kcp.Ok) (hrec : Receives read kcp.receiver h)
    (hnet : .data newseg.sn.toNat newseg.payload ∈ h.net) (hge : h.got.length ≤ newseg.sn.toNat)
    (hnxt : itimediff newseg.sn kcp.rcvNxt ≥ 0) :
    ∃ h', Takes h h' ∧ Receives read (kcp.storeSegment newseg).receiver h'
      ∧ h'.Received newseg.sn.toNat := by
  unfold Ikcpcb.storeSegment
  cases hins : insertSorted newseg kcp.rcvBuf.reverse with
  | none =>
    obtain ⟨seg, hseg, hsn⟩ := insertSorted_eq_none hins
    refine ⟨h, .refl, hrec, Or.inr ⟨seg.payload, ?_⟩⟩
    rw [← hsn]
    exact hrec.buf seg (List.mem_reverse.mp hseg)
  | some out =>
    obtain ⟨before, later, hbuf, hout, hbefore, hlater⟩ := insertSorted_sorted hok.receiver.sorted
      hok.receiver.below (itimediff_nonneg_iff.mp hnxt) hins
    have hstep : Step h _ := .store hnet hge
    have hself : Function.update h.early newseg.sn.toNat (some newseg.payload) newseg.sn.toNat
        = some newseg.payload := Function.update_self _ _ _
    have hne : ∀ seg ∈ kcp.rcvBuf, seg.sn.toNat ≠ newseg.sn.toNat := by
      intro seg hseg heq
      have hsn : seg.sn = newseg.sn := UInt32.toNat_inj.mp heq
      have hmem : seg ∈ before ++ later := (show kcp.rcvBuf = before ++ later from hbuf) ▸ hseg
      rcases List.mem_append.mp hmem with hmem | hmem
      · have := hbefore seg hmem
        rw [hsn] at this
        omega
      · have := hlater seg hmem
        rw [hsn] at this
        omega
    have hmem : ∀ seg, seg ∈ out.reverse ↔ seg = newseg ∨ seg ∈ kcp.rcvBuf := by
      intro seg
      rw [hout, show kcp.rcvBuf = before ++ later from hbuf]
      simp only [List.mem_append, List.mem_cons]
      tauto
    refine ⟨_, .single hstep rfl rfl, ⟨hrec.nxt, hrec.queue, fun seg hseg => ?_, fun n a ha => ?_,
      fun ack hack => hstep.received (hrec.acks ack hack)⟩, Or.inr ⟨_, hself⟩⟩
    · rcases (hmem seg).mp hseg with rfl | hseg
      · exact hself
      · exact (Function.update_of_ne (hne seg hseg) _ _).trans (hrec.buf seg hseg)
    · by_cases hn : n = newseg.sn.toNat
      · subst hn
        exact ⟨newseg, (hmem newseg).mpr (Or.inl rfl), rfl, Option.some.inj (hself.symm.trans ha)⟩
      · obtain ⟨seg, hseg, hsn, hpay⟩ :=
          hrec.early n a ((Function.update_of_ne hn _ _).symm.trans ha)
        exact ⟨seg, (hmem seg).mpr (Or.inr hseg), hsn, hpay⟩

/-- **The next segment is delivered.** -/
theorem Receives.moveFirst (hok : kcp.Ok) (hrec : Receives read kcp.receiver h)
    (hbuf : kcp.rcvBuf = seg :: buf) (hsn : seg.sn = kcp.rcvNxt) (hlt : h.got.length < 2 ^ 31) :
    ∃ h', Takes h h' ∧ Receives read (kcp.moveFirst seg buf).receiver h' := by
  have hnxt : kcp.rcvNxt.toNat = h.got.length := hrec.nxt
  have hsnNat : seg.sn.toNat = h.got.length := by rw [hsn, hnxt]
  have hmem : seg ∈ kcp.rcvBuf := hbuf ▸ List.mem_cons_self
  have hearly : h.early h.got.length = some seg.payload := hsnNat ▸ hrec.buf seg hmem
  have hstep : Step h _ := .deliver hearly
  have hsorted : Sorted kcp.rcvNxt (seg :: buf) := hbuf ▸ hok.receiver.sorted
  have hne : ∀ seg' ∈ buf, seg'.sn.toNat ≠ h.got.length := by
    intro seg' hseg' heq
    have hd := List.rel_of_pairwise_cons hsorted hseg'
    have hsn' : seg'.sn = seg.sn := UInt32.toNat_inj.mp (heq.trans hsnNat.symm)
    rw [hsn'] at hd
    exact Nat.lt_irrefl _ hd
  refine ⟨_, .single hstep rfl rfl, ?_, ?_, fun seg' hseg' => ?_, fun n a ha => ?_,
    fun ack hack => hstep.received (hrec.acks ack hack)⟩
  · show (kcp.rcvNxt + 1).toNat = (h.got ++ [seg.payload]).length
    have hone : (1 : UInt32).toNat = 1 := rfl
    rw [UInt32.toNat_add, hnxt, hone, List.length_append, List.length_singleton]
    omega
  · show h.got ++ [seg.payload] = read ++ (kcp.rcvQueue ++ [seg]).map Ikcpseg.payload
    rw [List.map_append, ← List.append_assoc]
    exact congrArg (· ++ [seg.payload]) hrec.queue
  · exact (Function.update_of_ne (hne seg' hseg') _ _).trans
      (hrec.buf seg' (show seg' ∈ kcp.rcvBuf from hbuf ▸ List.mem_cons_of_mem _ hseg'))
  · by_cases hn : n = h.got.length
    · subst hn
      have hself : Function.update h.early h.got.length none h.got.length = none :=
        Function.update_self _ _ _
      exact nomatch hself.symm.trans ha
    · obtain ⟨seg', hseg', hsn', hpay⟩ := hrec.early n a ((Function.update_of_ne hn _ _).symm.trans ha)
      have hmem' : seg' ∈ seg :: buf := hbuf ▸ hseg'
      rcases List.mem_cons.mp hmem' with rfl | hmem'
      · exact absurd (hsn'.symm.trans hsnNat) hn
      · exact ⟨seg', hmem', hsn', hpay⟩

/-- What the other side offers does not concern the receiver. -/
theorem Receives.offers (hrec : Receives read r h) (hoffers : Offers h h') : Receives read r h' where
  nxt := hoffers.got ▸ hrec.nxt
  queue := hoffers.got ▸ hrec.queue
  buf := fun seg hseg => hoffers.early ▸ hrec.buf seg hseg
  early := fun n a ha => hrec.early n a (hoffers.early ▸ ha)
  acks := fun ack hack => hoffers.steps.received (hrec.acks ack hack)

/-! ## An endpoint -/

/-- **A window that can be reached**, while the numbers do not wrap around. -/
structure Live (h : State Payload) : Prop where
  reachable : Reachable h
  bound : h.sent.length < 2 ^ 31

theorem Live.releases (hlive : Live h) (hreleases : Releases h h') : Live h' :=
  ⟨hlive.reachable.trans hreleases.steps, hreleases.sent ▸ hlive.bound⟩

theorem Live.takes (hlive : Live h) (htakes : Takes h h') : Live h' :=
  ⟨hlive.reachable.trans htakes.steps, htakes.sent ▸ hlive.bound⟩

theorem Live.got_lt (hlive : Live h) : h.got.length < 2 ^ 31 :=
  hlive.reachable.got_isPrefix.length_le.trans_lt hlive.bound

/-- **A control block between its two windows**: it sends in one and receives in the other. The
length of a piece is one that a size can be. -/
structure Endpoint (kcp : Ikcpcb) (read : List Payload) (hs hr : State Payload) : Prop where
  ok : kcp.Ok
  cut : 0 < kcp.mss.toNat ∧ kcp.mss.toNat < 2 ^ 31
  sends : Sends kcp.conv kcp.sender hs
  receives : Receives read kcp.receiver hr

/-- **Moving what is available** delivers. -/
theorem Endpoint.moveAvailable (he : Endpoint kcp read hs hr) (hlive : Live hr) :
    ∃ hr', Takes hr hr' ∧ Endpoint (moveAvailable kcp.rcvBuf kcp) read hs hr' := by
  refine moveAvailable_invariant (P := fun k => ∃ hr', Takes hr hr' ∧ Endpoint k read hs hr') ?_
    ⟨hr, .refl, he⟩
  rintro k seg buf hbuf hsn hroom ⟨hr', htakes, hk⟩
  obtain ⟨hr'', htakes', hrec⟩ := hk.receives.moveFirst hk.ok hbuf hsn (hlive.takes htakes).got_lt
  exact ⟨hr'', htakes.trans htakes', hk.ok.moveFirst hbuf hsn hroom, hk.cut, hk.sends, hrec⟩

/-- An acknowledgement that is due does not change what is stored. -/
theorem storeSegment_ackPush (kcp : Ikcpcb) (sn ts : UInt32) (seg : Ikcpseg) : ∃ block,
    ((ikcpAckPush kcp sn ts).storeSegment seg).receiver
      = { (kcp.storeSegment seg).receiver with acks := kcp.acklist ++ [(sn, ts)], block := block }
    ∧ (kcp.storeSegment seg).receiver.acks = kcp.acklist
    ∧ ((ikcpAckPush kcp sn ts).storeSegment seg).sender = kcp.sender
    ∧ ((ikcpAckPush kcp sn ts).storeSegment seg).settings = kcp.settings := by
  have hbuf : (ikcpAckPush kcp sn ts).rcvBuf = kcp.rcvBuf := rfl
  unfold Ikcpcb.storeSegment
  rw [hbuf]
  cases insertSorted seg kcp.rcvBuf.reverse with
  | none => exact ⟨_, rfl, rfl, rfl, rfl⟩
  | some buf => exact ⟨_, rfl, rfl, rfl, rfl⟩

/-- One more acknowledgement is due, of what has come. -/
theorem Receives.ack {sn ts block : UInt32} (hrec : Receives read r h) (hsn : h.Received sn.toNat) :
    Receives read { r with acks := r.acks ++ [(sn, ts)], block := block } h where
  nxt := hrec.nxt
  queue := hrec.queue
  buf := hrec.buf
  early := hrec.early
  acks := by
    intro ack hack
    rcases List.mem_append.mp hack with hack | hack
    · exact hrec.acks ack hack
    · obtain rfl := List.mem_singleton.mp hack
      exact hsn

theorem receiver_parseAck (kcp : Ikcpcb) (sn : UInt32) :
    (ikcpShrinkBuf (ikcpParseAck kcp sn)).receiver = kcp.receiver := by
  unfold ikcpParseAck
  split
  · rfl
  · rfl

theorem measured_views (kcp : Ikcpcb) (ts : UInt32) :
    (kcp.measured ts).sender = kcp.sender ∧ (kcp.measured ts).receiver = kcp.receiver := by
  obtain ⟨rttval, srtt, rto, undefined, heq⟩ := measured_eq kcp ts
  rw [heq]
  exact ⟨rfl, rfl⟩

/-- **A segment from the other side arrives.** -/
theorem Endpoint.inputSegment (he : Endpoint kcp read hs hr) (hlives : Live hs) (hliver : Live hr)
    (hwnd : seg.wnd.toNat < 2 ^ 16) (hc : Carries kcp.conv hr hs seg) (maxack : Option UInt32) :
    ∃ hs' hr', Releases hs hs' ∧ Takes hr hr'
      ∧ Endpoint (inputSegment kcp maxack seg).1 read hs' hr' := by
  have hok := he.ok.inputSegment hwnd maxack
  have hset := settings_inputSegment kcp maxack seg
  have hconv : (Kcp.inputSegment kcp maxack seg).1.conv = kcp.conv := congrArg Settings.conv hset
  have hcut : 0 < (Kcp.inputSegment kcp maxack seg).1.mss.toNat
      ∧ (Kcp.inputSegment kcp maxack seg).1.mss.toNat < 2 ^ 31 := by
    rw [show (Kcp.inputSegment kcp maxack seg).1.mss = kcp.mss from congrArg Settings.mss hset]
    exact he.cut
  -- what every segment acknowledges
  obtain ⟨hs₁, hreleases₁, hsends₁⟩ := he.sends.acknowledged hlives.reachable.inv hlives.bound hc.una
  have hacked := he.ok.acknowledged hwnd
  have hrec : Receives read (kcp.acknowledged seg).receiver hr := he.receives
  have hnxt : (kcp.acknowledged seg).rcvNxt.toNat = hr.got.length := hrec.nxt
  have hgot := hliver.got_lt
  rcases inputSegment_cases kcp maxack seg with
    ⟨hcmd, heq⟩ | ⟨hcmd, hwindow, hge, heq⟩ | ⟨hcmd, hlt, heq⟩ | ⟨probe, heq⟩
  · obtain ⟨hsender, hreceiver⟩ := measured_views (kcp.acknowledged seg) seg.ts
    have hmeasured : Sends kcp.conv ((kcp.acknowledged seg).measured seg.ts).sender hs₁ :=
      hsender ▸ hsends₁
    obtain ⟨hs₂, hreleases₂, hsends₂⟩ := hmeasured.parseAck (hreleases₁.steps.net_subset (hc.ack hcmd))
    rw [heq] at hok hcut hconv ⊢
    refine ⟨hs₂, hr, hreleases₁.trans hreleases₂, .refl, hok, hcut, hconv ▸ hsends₂, ?_⟩
    show Receives read (ikcpShrinkBuf (ikcpParseAck _ seg.sn)).receiver hr
    rw [receiver_parseAck, hreceiver]
    exact hrec
  · have hdata := hc.push hcmd
    have hsn : seg.sn.toNat < hr.sent.length :=
      (List.getElem?_eq_some_iff.mp (hliver.reachable.inv.data _ _ hdata)).1
    have hbound := hliver.bound
    have hle : hr.got.length ≤ seg.sn.toNat := by
      have hdiff := hge
      rw [itimediff_of_lt (by omega) (by omega), hnxt] at hdiff
      omega
    obtain ⟨hr₁, htakes, hstored, hcome⟩ := hrec.store hacked hdata hle hge
    obtain ⟨block, hreceiver, hacks, hsender, hsettings⟩ :=
      storeSegment_ackPush (kcp.acknowledged seg) seg.sn seg.ts seg
    have hstored' : Endpoint ((ikcpAckPush (kcp.acknowledged seg) seg.sn seg.ts).storeSegment seg)
        read hs₁ hr₁ := by
      refine ⟨(hacked.ackPush seg.sn seg.ts).storeSegment hge, ?_, ?_, ?_⟩
      · rw [show ((ikcpAckPush (kcp.acknowledged seg) seg.sn seg.ts).storeSegment seg).mss = kcp.mss
          from congrArg Settings.mss hsettings]
        exact he.cut
      · rw [hsender, show ((ikcpAckPush (kcp.acknowledged seg) seg.sn seg.ts).storeSegment seg).conv
          = kcp.conv from congrArg Settings.conv hsettings]
        exact hsends₁
      · rw [hreceiver, ← hacks]
        exact hstored.ack hcome
    obtain ⟨hr₂, htakes', hmoved⟩ := hstored'.moveAvailable (hliver.takes htakes)
    refine ⟨hs₁, hr₂, hreleases₁, htakes.trans htakes', ?_⟩
    rw [heq]
    show Endpoint (ikcpParseData (ikcpAckPush (kcp.acknowledged seg) seg.sn seg.ts) seg) read hs₁ hr₂
    rw [ikcpParseData_eq (ikcpAckPush (kcp.acknowledged seg) seg.sn seg.ts) hwindow hge]
    exact hmoved
  · have hdata := hc.push hcmd
    have hsn : seg.sn.toNat < hr.sent.length :=
      (List.getElem?_eq_some_iff.mp (hliver.reachable.inv.data _ _ hdata)).1
    have hbound := hliver.bound
    have hcome : hr.Received seg.sn.toNat := by
      rw [itimediff_of_lt (by omega) (by omega), hnxt] at hlt
      exact Or.inl (by omega)
    rw [heq] at hok hcut ⊢
    exact ⟨hs₁, hr, hreleases₁, .refl, hok, hcut, hsends₁, hrec.ack hcome⟩
  · rw [heq] at hok hcut ⊢
    exact ⟨hs₁, hr, hreleases₁, .refl, hok, hcut, hsends₁, hrec⟩

/-- What was sent is what is read. -/
theorem Carries.received (hc : Carries conv hs hr seg) : Carries conv hs hr seg.received := by
  have hcmd : seg.received.cmd = seg.cmd := hc.readable.cmd.toUInt8
  have hfrg : seg.received.frg = seg.frg := by
    refine UInt32.toNat_inj.mp ?_
    show seg.frg.toNat % 256 = seg.frg.toNat
    exact Nat.mod_eq_of_lt hc.frg
  have hpayload : seg.received.payload = seg.payload := Prod.ext (congrArg UInt32.toNat hfrg) rfl
  refine ⟨⟨hc.readable.conv, hcmd ▸ hc.readable.cmd, hc.readable.len⟩, hfrg ▸ hc.frg, ?_, ?_, hc.una⟩
  · rw [hcmd, hpayload]
    exact hc.push
  · rw [hcmd]
    exact hc.ack

/-- **A datagram from the other side arrives**, some of whose segments were taken in already. -/
theorem Endpoint.inputSegments : ∀ (segs : List Ikcpseg) {kcp : Ikcpcb} {hs hr : State Payload}
    (maxack : Option UInt32), Endpoint kcp read hs hr → Live hs → Live hr →
    (∀ seg ∈ segs, Carries kcp.conv hr hs seg) → ∃ hs' hr', Releases hs hs' ∧ Takes hr hr'
      ∧ Endpoint (inputSegments kcp maxack (segs.map Ikcpseg.received)).1 read hs' hr' := by
  intro segs
  induction segs with
  | nil => exact fun _ he _ _ _ => ⟨_, _, .refl, .refl, he⟩
  | cons seg segs ih =>
    intro kcp hs hr maxack he hlives hliver hc
    have hwnd : seg.received.wnd.toNat < 2 ^ 16 := UInt16.toNat_lt _
    obtain ⟨hs₁, hr₁, hreleases, htakes, he₁⟩ :=
      he.inputSegment hlives hliver hwnd (hc seg List.mem_cons_self).received maxack
    have hconv : (Kcp.inputSegment kcp maxack seg.received).1.conv = kcp.conv := inputSegment_conv _ _ _
    obtain ⟨hs₂, hr₂, hreleases', htakes', he₂⟩ := ih (Kcp.inputSegment kcp maxack seg.received).2
      he₁ (hlives.releases hreleases) (hliver.takes htakes) (fun seg' hseg' =>
        hconv ▸ (hc seg' (List.mem_cons_of_mem _ hseg')).mono htakes.steps hreleases.steps)
    exact ⟨hs₂, hr₂, hreleases.trans hreleases', htakes.trans htakes', he₂⟩

/-- What was skipped and how far the congestion window has come does not matter. -/
theorem Endpoint.parseMaxack {cwnd incr : UInt32} (he : Endpoint kcp read hs hr)
    (maxack : Option UInt32)
    (hok : ({ parseMaxack kcp maxack with cwnd := cwnd, incr := incr } : Ikcpcb).Ok) :
    Endpoint { parseMaxack kcp maxack with cwnd := cwnd, incr := incr } read hs hr := by
  have hviews : (Kcp.parseMaxack kcp maxack).settings = kcp.settings
      ∧ (Kcp.parseMaxack kcp maxack).receiver = kcp.receiver := by
    cases maxack with
    | none => exact ⟨rfl, rfl⟩
    | some sn =>
      show (ikcpParseFastack kcp sn).settings = _ ∧ (ikcpParseFastack kcp sn).receiver = _
      unfold ikcpParseFastack
      split
      · exact ⟨rfl, rfl⟩
      · exact ⟨rfl, rfl⟩
  have hconv : (Kcp.parseMaxack kcp maxack).conv = kcp.conv := congrArg Settings.conv hviews.1
  have hmss : (Kcp.parseMaxack kcp maxack).mss = kcp.mss := congrArg Settings.mss hviews.1
  refine ⟨hok, ?_, ?_, ?_⟩
  · show 0 < (Kcp.parseMaxack kcp maxack).mss.toNat ∧ (Kcp.parseMaxack kcp maxack).mss.toNat < 2 ^ 31
    rw [hmss]
    exact he.cut
  · show Sends (Kcp.parseMaxack kcp maxack).conv (Kcp.parseMaxack kcp maxack).sender hs
    rw [hconv]
    exact he.sends.parseMaxack maxack
  · show Receives read (Kcp.parseMaxack kcp maxack).receiver hr
    rw [hviews.2]
    exact he.receives

/-- **`ikcp_input`** of a datagram that the other side sent. -/
theorem Endpoint.input {segs : List Ikcpseg} (he : Endpoint kcp read hs hr) (hlives : Live hs)
    (hliver : Live hr) (hne : segs ≠ []) (hc : ∀ seg ∈ segs, Carries kcp.conv hr hs seg) :
    ∃ hs' hr', Releases hs hs' ∧ Takes hr hr' ∧ (ikcpInput kcp (datagram segs)).1 = 0
      ∧ Endpoint (ikcpInput kcp (datagram segs)).2 read hs' hr' := by
  obtain ⟨hs', hr', hreleases, htakes, he'⟩ := he.inputSegments segs none hlives hliver hc
  obtain ⟨maxack, cwnd, incr, heq⟩ := ikcpInput_datagram hne (fun seg hseg => (hc seg hseg).readable)
  have hok := he.ok.input (datagram segs)
  rw [heq] at hok ⊢
  exact ⟨hs', hr', hreleases, htakes, rfl, he'.parseMaxack maxack hok⟩

/-! ## A flush -/

/-- **All the segments to be sent**: those that have numbers, and those of the queue. -/
def offered (kcp : Ikcpcb) (h : State Payload) : List Payload :=
  h.sent ++ kcp.sndQueue.map Ikcpseg.payload

/-- **A segment is given a number.** -/
theorem Sends.admitFirst {wnd : UInt32} {queue : List Ikcpseg} (hsends : Sends kcp.conv kcp.sender h)
    (hqueue : kcp.sndQueue = seg :: queue) (hbound : h.sent.length + 1 < 2 ^ 31) :
    Sends kcp.conv (kcp.admitFirst wnd seg queue).sender
      { h with sent := h.sent ++ [seg.payload], held := insert h.sent.length h.held } := by
  have hnxt : kcp.sndNxt.toNat = h.sent.length := hsends.nxt
  have hfits : ∀ seg' ∈ seg :: queue, seg'.Fits := fun seg' hseg' =>
    hsends.queue seg' (show seg' ∈ kcp.sndQueue from hqueue ▸ hseg')
  refine ⟨?_, fun seg' hseg' => hfits seg' (List.mem_cons_of_mem _ hseg'), fun seg' hseg' => ?_,
    fun n hn => ?_⟩
  · show (kcp.sndNxt + 1).toNat = (h.sent ++ [seg.payload]).length
    have hone : (1 : UInt32).toNat = 1 := rfl
    rw [UInt32.toNat_add, hnxt, hone, List.length_append, List.length_singleton]
    omega
  · rcases List.mem_append.mp hseg' with hmem | hmem
    · obtain ⟨hsent, hrest⟩ := hsends.buf seg' hmem
      exact ⟨getElem?_of_isPrefix (List.prefix_append _ _) hsent, hrest⟩
    · obtain rfl := List.mem_singleton.mp hmem
      obtain ⟨hfrg, hlen⟩ := hfits seg List.mem_cons_self
      refine ⟨?_, rfl, rfl, hfrg, hlen⟩
      show (h.sent ++ [seg.payload])[kcp.sndNxt.toNat]? = some seg.payload
      rw [hnxt, List.getElem?_append_right le_rfl, Nat.sub_self]
      rfl
  · rcases Set.mem_insert_iff.mp hn with rfl | hn
    · exact ⟨kcp.numbered wnd seg, List.mem_append_right _ (List.mem_singleton.mpr rfl), hnxt⟩
    · obtain ⟨seg', hseg', heq⟩ := hsends.held n hn
      exact ⟨seg', List.mem_append_left _ hseg', heq⟩

/-- **The window is filled**: some segments are given numbers. -/
theorem Sends.admitted (hsends : Sends kcp.conv kcp.sender h) : ∃ h', Offers h h'
    ∧ offered kcp.admitted h' = offered kcp h ∧ kcp.admitted.conv = kcp.conv
    ∧ (h'.sent.length < 2 ^ 31 → Sends kcp.conv kcp.admitted.sender h') := by
  refine admitSegments_invariant (P := fun k => ∃ h', Offers h h' ∧ offered k h' = offered kcp h
    ∧ k.conv = kcp.conv ∧ (h'.sent.length < 2 ^ 31 → Sends kcp.conv k.sender h')) ?_ ?_
  · rintro k seg queue hqueue - ⟨h', hoffers, hoffered, hconv, hk⟩
    refine ⟨_, hoffers.trans (.single (.number seg.payload) rfl rfl), ?_, hconv, fun hbound => ?_⟩
    · refine Eq.trans ?_ hoffered
      show h'.sent ++ [seg.payload] ++ queue.map Ikcpseg.payload = h'.sent ++ k.sndQueue.map Ikcpseg.payload
      rw [hqueue, List.append_assoc]
      rfl
    · have hlen : (h'.sent ++ [seg.payload]).length = h'.sent.length + 1 := List.length_append
      have hbound' : (h'.sent ++ [seg.payload]).length < 2 ^ 31 := hbound
      have hk' := hk (by omega)
      rw [← hconv] at hk' ⊢
      exact hk'.admitFirst hqueue (by omega)
  · obtain ⟨wait, ts, probe, heq⟩ := probeWindow_eq { kcp with acklist := [] }
    unfold Ikcpcb.started
    rw [heq]
    exact ⟨h, .refl, rfl, rfl, fun _ => hsends⟩

/-- The acknowledgements that were due are out. -/
theorem Receives.flushed (hrec : Receives read kcp.receiver h) : Receives read kcp.admitted.receiver h := by
  obtain ⟨_, _, _, _, _, _, _, heq⟩ := admitted_eq kcp
  rw [heq]
  exact ⟨hrec.nxt, hrec.queue, hrec.buf, hrec.early, fun ack hack => absurd hack List.not_mem_nil⟩

/-- Sending changes nothing but what may arrive. -/
theorem Sends.net (hsends : Sends conv s h) (heq : h' = { h with net := h'.net }) : Sends conv s h' := by
  rw [heq]
  exact ⟨hsends.nxt, hsends.queue, hsends.buf, hsends.held⟩

theorem Receives.net (hrec : Receives read r h) (heq : h' = { h with net := h'.net }) :
    Receives read r h' := by
  rw [heq]
  exact ⟨hrec.nxt, hrec.queue, hrec.buf, hrec.early, hrec.acks⟩

/-- **What a flush puts into the buffer is carried**, once it was sent. -/
theorem Ikcpcb.Puts.carries (hputs : kcp.Puts seg) (hsends : Sends kcp.conv kcp.admitted.sender hs)
    (hrec : Receives read kcp.receiver hr)
    (hdata : ∀ seg ∈ kcp.admitted.sndBuf, .data seg.sn.toNat seg.payload ∈ hs.net)
    (hacks : ∀ ack ∈ kcp.acklist, .ack ack.1.toNat ∈ hr.net) (hup : .upTo hr.got.length ∈ hr.net) :
    Carries kcp.conv hs hr seg := by
  have huna : .upTo kcp.rcvNxt.toNat ∈ hr.net := by
    rw [show kcp.rcvNxt.toNat = hr.got.length from hrec.nxt]
    exact hup
  have hlen : ([] : List UInt8).length < 2 ^ 31 := by decide
  have hfrg : (0 : UInt32).toNat < 256 := by decide
  have hne : IKCP_CMD_ACK ≠ IKCP_CMD_PUSH := by decide
  cases hputs with
  | @ack sn ts hmem =>
    exact ⟨⟨rfl, Or.inr (Or.inl rfl), hlen⟩, hfrg, fun hcmd => absurd hcmd hne,
      fun _ => hacks _ hmem, huna⟩
  | @probe cmd sn ts hcmd =>
    have hpush : cmd ≠ IKCP_CMD_PUSH := by
      rcases hcmd with rfl | rfl
      · decide
      · decide
    have hack : cmd ≠ IKCP_CMD_ACK := by
      rcases hcmd with rfl | rfl
      · decide
      · decide
    exact ⟨⟨rfl, Or.inr (Or.inr hcmd), hlen⟩, hfrg, fun h => absurd h hpush,
      fun h => absurd h hack, huna⟩
  | @push seg' _ hmem hcore heq =>
    obtain ⟨-, hconv, hcmd, hfrg, hlen⟩ := hsends.buf seg' hmem
    have hsn : seg.sn = seg'.sn := congrArg (fun c => c.2.2.2.1) hcore
    have hcmd' : seg.cmd = seg'.cmd := congrArg (fun c => c.2.1) hcore
    refine ⟨⟨(congrArg (fun c => c.1) hcore).trans hconv, Or.inl (hcmd'.trans hcmd), ?_⟩, ?_,
      fun _ => ?_, fun h => ?_, heq ▸ huna⟩
    · rw [show seg.data = seg'.data from congrArg (fun c => c.2.2.2.2) hcore]
      exact hlen
    · rw [show seg.frg = seg'.frg from congrArg (fun c => c.2.2.1) hcore]
      exact hfrg
    · rw [hsn, payload_of_core hcore]
      exact hdata seg' hmem
    · exact absurd ((hcmd'.trans hcmd).symm.trans h) (by decide)

/-- **`ikcp_flush`**: segments are given numbers, and every segment that is sent carries what
was sent in the windows. -/
theorem Endpoint.flush (he : Endpoint kcp read hs hr) : ∃ hs' hr', Offers hs hs' ∧ Takes hr hr'
    ∧ offered (ikcpFlush kcp).2 hs' = offered kcp hs
    ∧ (hs'.sent.length < 2 ^ 31 → Endpoint (ikcpFlush kcp).2 read hs' hr'
      ∧ (kcp.updated ≠ 0 → ∀ seg, kcp.Puts seg → Carries kcp.conv hs' hr' seg)) := by
  by_cases hupdated : kcp.updated = 0
  · unfold ikcpFlush
    rw [if_pos hupdated]
    exact ⟨hs, hr, .refl, .refl, rfl, fun _ => ⟨he, fun hne => absurd hupdated hne⟩⟩
  · obtain ⟨hs₁, hoffers, hoffered, hconv, hadmitted⟩ := he.sends.admitted
    obtain ⟨hr', htakes, hnet, hup, hacks⟩ := exists_acknowledge (kcp.acklist.map (fun ack => ack.1.toNat))
      (fun n hn => by
        obtain ⟨ack, hack, rfl⟩ := List.mem_map.mp hn
        exact he.receives.acks ack hack)
    obtain ⟨ssthresh, cwnd, incr, heq⟩ := ikcpFlush_eq hupdated
    by_cases hbound : hs₁.sent.length < 2 ^ 31
    · have hsends := hadmitted hbound
      obtain ⟨hs', hreleases, hnets, hdata⟩ := exists_transmit (s := hs₁)
        (kcp.admitted.sndBuf.map (fun seg => (seg.sn.toNat, seg.payload))) (fun item hitem => by
          obtain ⟨seg, hseg, rfl⟩ := List.mem_map.mp hitem
          exact (hsends.buf seg hseg).1)
      refine ⟨hs', hr', hoffers.trans hreleases.toOffers, htakes, ?_, fun _ => ⟨?_, fun _ seg hputs => ?_⟩⟩
      · rw [heq]
        show hs'.sent ++ kcp.admitted.sndQueue.map Ikcpseg.payload = _
        rw [hreleases.sent]
        exact hoffered
      · have hok := he.ok.flush
        have hcore : kcp.flushing.done.map Ikcpseg.core = kcp.admitted.sndBuf.map Ikcpseg.core :=
          map_core_flushing _ _ _ _ _ _
        have hmss : (ikcpFlush kcp).2.mss = kcp.mss := congrArg Settings.mss (settings_flush kcp)
        refine ⟨hok, hmss ▸ he.cut, ?_, ?_⟩
        · rw [heq]
          show Sends kcp.admitted.conv _ hs'
          rw [hconv]
          exact (hsends.congr hcore).net hnets
        · rw [heq]
          exact he.receives.flushed.net hnet
      · refine hputs.carries (hsends.net hnets) (he.receives.net hnet)
          (fun seg' hseg' => ?_) (fun ack hack => ?_) ?_
        · exact hdata _ (List.mem_map_of_mem hseg')
        · exact hacks _ (List.mem_map_of_mem hack)
        · rw [hnet]
          exact hup
    · refine ⟨hs₁, hr', hoffers, htakes, ?_, fun h => absurd h hbound⟩
      rw [heq]
      exact hoffered

end Kcp
