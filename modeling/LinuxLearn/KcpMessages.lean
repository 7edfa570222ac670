import LinuxLearn.KcpRefine

/-!
# Messages

`ikcp_send` cuts a message into segments, each of which says in `frg` how many follow.
`ikcp_recv` takes segments off its queue up to one with `frg` 0, if there are as many as
the first one says, and gives their data. So it gives whole messages, each as it was sent
(`Endpoint.recv_message`).

In stream mode every segment says that none follows, and the last one that has no number
yet is filled up first. Then messages mean nothing, and only the bytes stay what they are.
There the call may fail when it has already filled up that segment, and so has sent some
of its bytes (`accepted`).
-/

open SlidingWindow Fragmentation

namespace Kcp

variable {kcp : Ikcpcb} {hs hr : State Payload} {read : List Payload} {buffer : List UInt8}

/-! ## Cutting -/

/-- The segments that some data is cut into, and what each of them says of those behind it. -/
def fragments (mss : ℕ) (frg : ℕ → UInt32) : ℕ → List UInt8 → List Ikcpseg
  | 0, _ => []
  | n + 1, buffer => .new (frg n) (buffer.take mss) :: fragments mss frg n (buffer.drop mss)

/-- What a segment says of those behind it, in either mode. -/
def frgOf (stream : Int32) (n : ℕ) : UInt32 := if stream = 0 then UInt32.ofNat n else 0

/-- **The loop of `ikcp_send`** puts the segments that the data is cut into behind the queue. -/
theorem sendFragments_eq (kcp : Ikcpcb) (hmss : kcp.mss.toNat < 2 ^ 31) (n : ℕ) (buffer : List UInt8) : ∃ nQue,
    sendFragments n buffer kcp = { kcp with
      sndQueue := kcp.sndQueue ++ fragments kcp.mss.toNat (frgOf kcp.stream) n buffer
      nsndQue := nQue } := by
  induction n generalizing buffer kcp with
  | zero =>
    refine ⟨kcp.nsndQue, ?_⟩
    show kcp = { kcp with sndQueue := kcp.sndQueue ++ [] }
    rw [List.append_nil]
  | succ n ih =>
    have hint : toInt kcp.mss = kcp.mss.toNat := toInt_of_lt hmss
    -- both ways to find the size take the same part of the data
    have hsize : buffer.take (if (buffer.length : ℤ) > toInt kcp.mss then toInt kcp.mss
          else (buffer.length : ℤ)).toNat = buffer.take kcp.mss.toNat
        ∧ buffer.drop (if (buffer.length : ℤ) > toInt kcp.mss then toInt kcp.mss
          else (buffer.length : ℤ)).toNat = buffer.drop kcp.mss.toNat := by
      rw [hint]
      split
      · exact ⟨by rw [Int.toNat_natCast], by rw [Int.toNat_natCast]⟩
      · have hle : buffer.length ≤ kcp.mss.toNat := by omega
        rw [Int.toNat_natCast]
        exact ⟨by rw [List.take_length, List.take_of_length_le hle],
          by rw [List.drop_length, List.drop_of_length_le hle]⟩
    unfold sendFragments
    dsimp only
    rw [hsize.1, hsize.2]
    obtain ⟨nQue, heq⟩ := ih { kcp with
      sndQueue := kcp.sndQueue ++ [.new (frgOf kcp.stream n) (buffer.take kcp.mss.toNat)]
      nsndQue := kcp.nsndQue + 1 } hmss (buffer.drop kcp.mss.toNat)
    refine ⟨nQue, heq.trans ?_⟩
    dsimp only
    rw [List.append_assoc]
    rfl

/-- As many segments as are needed hold all the data. -/
theorem flatMap_fragments {mss : ℕ} (frg : ℕ → UInt32) {n : ℕ} (h : buffer.length ≤ mss * n) :
    (fragments mss frg n buffer).flatMap Ikcpseg.data = buffer := by
  induction n generalizing buffer with
  | zero => exact (List.length_eq_zero_iff.mp (by omega)).symm
  | succ n ih =>
    have hrest : (buffer.drop mss).length ≤ mss * n := by
      rw [List.length_drop]
      rw [Nat.mul_succ] at h
      omega
    show buffer.take mss ++ (fragments mss frg n (buffer.drop mss)).flatMap Ikcpseg.data = buffer
    rw [ih hrest, List.take_append_drop]

theorem map_fst_fragments (mss : ℕ) {n : ℕ} (hn : n < 256) (buffer : List UInt8) :
    ((fragments mss (frgOf 0) n buffer).map Ikcpseg.payload).map Prod.fst = (List.range n).reverse := by
  induction n generalizing buffer with
  | zero => rfl
  | succ n ih =>
    rw [List.range_succ, List.reverse_append]
    have hfrg : (frgOf 0 n).toNat = n :=
      UInt32.toNat_ofNat_of_lt' (show n < 2 ^ 32 by omega)
    show (frgOf 0 n).toNat :: _ = n :: (List.range n).reverse
    rw [hfrg]
    exact congrArg (n :: ·) (ih (by omega) _)

theorem length_fragments (mss : ℕ) (frg : ℕ → UInt32) (n : ℕ) (buffer : List UInt8) :
    (fragments mss frg n buffer).length = n := by
  induction n generalizing buffer with
  | zero => rfl
  | succ n ih => exact congrArg (· + 1) (ih _)

/-- **The segments of a message are its pieces.** -/
theorem isMessage_fragments {mss n : ℕ} (hpos : 0 < n) (hn : n < 256) (h : buffer.length ≤ mss * n) :
    IsMessage buffer ((fragments mss (frgOf 0) n buffer).map Ikcpseg.payload) where
  ne_nil := by
    refine List.ne_nil_of_length_pos ?_
    rwa [List.length_map, length_fragments]
  countdown := by
    rw [map_fst_fragments mss hn, List.length_map, length_fragments]
  content := by
    rw [List.flatMap_map]
    exact flatMap_fragments _ h

/-- Each of them fits a header. -/
theorem fits_fragments {mss : ℕ} (hmss : mss < 2 ^ 31) (stream : Int32) {n : ℕ} (hn : n ≤ 256)
    (buffer : List UInt8) : ∀ seg ∈ fragments mss (frgOf stream) n buffer, seg.Fits := by
  induction n generalizing buffer with
  | zero => exact fun _ hseg => absurd hseg List.not_mem_nil
  | succ n ih =>
    intro seg hseg
    rcases List.mem_cons.mp hseg with rfl | hseg
    · refine ⟨?_, ?_⟩
      · show (frgOf stream n).toNat < 256
        unfold frgOf
        split
        · rw [UInt32.toNat_ofNat_of_lt' (show n < 2 ^ 32 by omega)]
          omega
        · decide
      · show (buffer.take mss).length < 2 ^ 31
        rw [List.length_take]
        omega
    · exact ih (by omega) _ seg hseg

/-- **There are enough segments for the data**, at least one, and less than a window of them if
the call does not fail. -/
theorem fragmentCount_spec {mss : UInt32} {len : ℕ} (hpos : 0 < mss.toNat) (hmss : mss.toNat < 2 ^ 31)
    (hlen : len < 2 ^ 31) : 0 < fragmentCount mss len
      ∧ (len : ℤ) ≤ mss.toNat * fragmentCount mss len := by
  unfold fragmentCount
  rw [toInt_of_lt hmss]
  split
  · next hle => exact ⟨Int.one_pos, by omega⟩
  · next hlt =>
    have hlenNat : (UInt32.ofNat len).toNat = len :=
      UInt32.toNat_ofNat_of_lt' (show len < 2 ^ 32 by omega)
    have hone : (1 : UInt32).toNat = 1 := rfl
    have hsum : (UInt32.ofNat len + mss - 1).toNat = len + mss.toNat - 1 := by
      simp only [UInt32.toNat_sub, UInt32.toNat_add, hlenNat, hone]
      omega
    have hdiv : ((UInt32.ofNat len + mss - 1) / mss).toNat = (len + mss.toNat - 1) / mss.toNat := by
      rw [UInt32.toNat_div, hsum]
    have hle : len ≤ mss.toNat * ((len + mss.toNat - 1) / mss.toNat) := by
      have hmod := Nat.div_add_mod (len + mss.toNat - 1) mss.toNat
      have hlt' := Nat.mod_lt (len + mss.toNat - 1) hpos
      omega
    have hquot : 0 < (len + mss.toNat - 1) / mss.toNat := Nat.div_pos (by omega) hpos
    have hsmall : (len + mss.toNat - 1) / mss.toNat < 2 ^ 31 := by
      refine (Nat.div_lt_iff_lt_mul hpos).mpr ?_
      omega
    rw [toInt_of_lt (hdiv ▸ hsmall), hdiv]
    exact ⟨by exact_mod_cast hquot, by exact_mod_cast hle⟩

/-! ## Sending -/

/-- A control block with another queue of what is to be sent. -/
def Ikcpcb.queued (kcp : Ikcpcb) (queue : List Ikcpseg) (nQue : UInt32) : Ikcpcb :=
  { kcp with sndQueue := queue, nsndQue := nQue }

/-- **The last segment is filled up** with the first bytes of the data, or there are none. -/
theorem appendStream_eq (hmss : kcp.mss.toNat < 2 ^ 31) (hfits : ∀ seg ∈ kcp.sndQueue, seg.Fits)
    (buffer : List UInt8) : ∃ k queue, appendStream kcp buffer = (buffer.drop k, kcp.queued queue kcp.nsndQue)
      ∧ queue.flatMap Ikcpseg.data = kcp.sndQueue.flatMap Ikcpseg.data ++ buffer.take k
      ∧ ∀ seg ∈ queue, seg.Fits := by
  have hnone : ∃ k queue, (buffer, kcp) = (buffer.drop k, kcp.queued queue kcp.nsndQue)
      ∧ queue.flatMap Ikcpseg.data = kcp.sndQueue.flatMap Ikcpseg.data ++ buffer.take k
      ∧ ∀ seg ∈ queue, seg.Fits := ⟨0, kcp.sndQueue, rfl, (List.append_nil _).symm, hfits⟩
  unfold appendStream
  cases hlast : kcp.sndQueue.getLast? with
  | none => exact hnone
  | some old =>
    dsimp only
    split
    · next hroom =>
      obtain ⟨front, hfront⟩ : ∃ front, kcp.sndQueue = front ++ [old] :=
        List.getLast?_eq_some_iff.mp hlast
      have hold : old.Fits := hfits old (hfront ▸ List.mem_append_right _ (List.mem_singleton.mpr rfl))
      have holdlen := hold.len
      have hlen : old.len.toNat = old.data.length :=
        UInt32.toNat_ofNat_of_lt' (show old.data.length < 2 ^ 32 by omega)
      have hlt : old.data.length < kcp.mss.toNat := hlen ▸ UInt32.lt_iff_toNat_lt.mp hroom
      have hcap : (kcp.mss - old.len).toNat = kcp.mss.toNat - old.data.length := by
        rw [UInt32.toNat_sub_of_le _ _ (UInt32.le_of_lt hroom), hlen]
      rw [toInt_of_lt (show (kcp.mss - old.len).toNat < 2 ^ 31 by omega), hcap]
      generalize hextend : (if (buffer.length : ℤ) < ((kcp.mss.toNat - old.data.length : ℕ) : ℤ)
        then (buffer.length : ℤ) else ((kcp.mss.toNat - old.data.length : ℕ) : ℤ)).toNat = k
      have hk : k ≤ kcp.mss.toNat - old.data.length := by
        rw [← hextend]
        split
        · omega
        · omega
      refine ⟨k, kcp.sndQueue.dropLast ++ [.new 0 (old.data ++ buffer.take k)], rfl, ?_, fun seg hseg => ?_⟩
      · rw [hfront, List.dropLast_concat, List.flatMap_append, List.flatMap_append, List.append_assoc]
        simp [Ikcpseg.new]
      · rw [hfront, List.dropLast_concat] at hseg
        rcases List.mem_append.mp hseg with hseg | hseg
        · exact hfits seg (hfront ▸ List.mem_append_left _ hseg)
        · obtain rfl := List.mem_singleton.mp hseg
          refine ⟨show (0 : UInt32).toNat < 256 by decide, ?_⟩
          show (old.data ++ buffer.take k).length < 2 ^ 31
          rw [List.length_append, List.length_take]
          omega
    · exact hnone

/-- **The bytes that `ikcp_send` takes**: all of them, unless it fails; in stream mode it may
have filled up the last segment before it does. -/
def accepted (kcp : Ikcpcb) (buffer : List UInt8) : List UInt8 :=
  if (ikcpSend kcp buffer).1 = 0 then buffer
  else if kcp.stream = 0 then []
  else buffer.take (buffer.length - (appendStream kcp buffer).1.length)

/-- **`ikcp_send` in message mode** fails and does nothing, or puts the pieces of the message
behind the queue. -/
theorem ikcpSend_message (hcut : 0 < kcp.mss.toNat ∧ kcp.mss.toNat < 2 ^ 31) (hstream : kcp.stream = 0)
    (hlen : buffer.length < 2 ^ 31) : ikcpSend kcp buffer = (-2, kcp)
      ∨ ∃ segs nQue, ikcpSend kcp buffer = (0, kcp.queued (kcp.sndQueue ++ segs) nQue)
        ∧ IsMessage buffer (segs.map Ikcpseg.payload) ∧ ∀ seg ∈ segs, seg.Fits := by
  obtain ⟨hpos, hle⟩ := fragmentCount_spec hcut.1 hcut.2 hlen
  unfold ikcpSend
  rw [if_neg (not_not.mpr hstream)]
  dsimp only
  rw [if_neg (fun h => h.1 hstream)]
  split
  · exact Or.inl rfl
  · next hfew =>
    right
    rw [if_neg hpos.ne']
    obtain ⟨n, hn⟩ := Int.eq_ofNat_of_zero_le hpos.le
    have hwnd : toInt IKCP_WND_RCV = 128 := rfl
    rw [hn] at hpos hle hfew ⊢
    rw [Int.toNat_natCast]
    have hsmall : n < 256 := by omega
    have hmany : buffer.length ≤ kcp.mss.toNat * n := by exact_mod_cast hle
    obtain ⟨nQue, heq⟩ := sendFragments_eq kcp hcut.2 n buffer
    refine ⟨_, nQue, congrArg (Prod.mk 0) heq, ?_, fits_fragments hcut.2 _ (by omega) _⟩
    rw [hstream]
    exact isMessage_fragments (by omega) hsmall hmany

/-- **`ikcp_send` in stream mode** fills up the last segment, and then is done, or fails, or puts
segments for the rest behind the queue. -/
theorem ikcpSend_stream (hcut : 0 < kcp.mss.toNat ∧ kcp.mss.toNat < 2 ^ 31)
    (hfits : ∀ seg ∈ kcp.sndQueue, seg.Fits) (hstream : kcp.stream ≠ 0) (hlen : buffer.length < 2 ^ 31) :
    ∃ k queue, (appendStream kcp buffer).1 = buffer.drop k ∧ (∀ seg ∈ queue, seg.Fits)
      ∧ queue.flatMap Ikcpseg.data = kcp.sndQueue.flatMap Ikcpseg.data ++ buffer.take k
      ∧ ((buffer.drop k = [] ∧ ikcpSend kcp buffer = (0, kcp.queued queue kcp.nsndQue))
        ∨ ikcpSend kcp buffer = (-2, kcp.queued queue kcp.nsndQue)
        ∨ ∃ segs nQue, ikcpSend kcp buffer = (0, kcp.queued (queue ++ segs) nQue)
          ∧ segs.flatMap Ikcpseg.data = buffer.drop k ∧ ∀ seg ∈ segs, seg.Fits) := by
  obtain ⟨k, queue, happend, hbytes, hqueue⟩ := appendStream_eq hcut.2 hfits buffer
  have hrest : (buffer.drop k).length < 2 ^ 31 := by
    rw [List.length_drop]
    omega
  obtain ⟨hpos, hle⟩ := fragmentCount_spec hcut.1 hcut.2 hrest
  refine ⟨k, queue, congrArg Prod.fst happend, hqueue, hbytes, ?_⟩
  unfold ikcpSend
  rw [if_pos hstream, happend]
  dsimp only
  by_cases hempty : (kcp.queued queue kcp.nsndQue).stream ≠ 0 ∧ (buffer.drop k).length ≤ 0
  · rw [if_pos hempty]
    exact Or.inl ⟨List.length_eq_zero_iff.mp (Nat.le_zero.mp hempty.2), rfl⟩
  · rw [if_neg hempty]
    split
    · exact Or.inr (Or.inl rfl)
    · next hfew =>
      right; right
      have hmss : (kcp.queued queue kcp.nsndQue).mss = kcp.mss := rfl
      rw [hmss] at hfew ⊢
      rw [if_neg hpos.ne']
      obtain ⟨n, hn⟩ := Int.eq_ofNat_of_zero_le hpos.le
      have hwnd : toInt IKCP_WND_RCV = 128 := rfl
      rw [hn] at hpos hle hfew ⊢
      rw [Int.toNat_natCast]
      have hmany : (buffer.drop k).length ≤ kcp.mss.toNat * n := by exact_mod_cast hle
      obtain ⟨nQue, heq⟩ := sendFragments_eq (kcp.queued queue kcp.nsndQue) hcut.2 n (buffer.drop k)
      exact ⟨_, nQue, congrArg (Prod.mk 0) heq, flatMap_fragments _ hmany,
        fits_fragments hcut.2 _ (by omega) _⟩

/-- **What `ikcp_send` does in either mode**: it puts the bytes that it takes behind those of the
queue. -/
theorem ikcpSend_eq (hcut : 0 < kcp.mss.toNat ∧ kcp.mss.toNat < 2 ^ 31)
    (hfits : ∀ seg ∈ kcp.sndQueue, seg.Fits) (hlen : buffer.length < 2 ^ 31) : ∃ queue nQue,
      (ikcpSend kcp buffer).2 = kcp.queued queue nQue
      ∧ queue.flatMap Ikcpseg.data = kcp.sndQueue.flatMap Ikcpseg.data ++ accepted kcp buffer
      ∧ ∀ seg ∈ queue, seg.Fits := by
  have hfailed : ¬ (-2 : ℤ) = 0 := by decide
  by_cases hstream : kcp.stream = 0
  · rcases ikcpSend_message hcut hstream hlen with heq | ⟨segs, nQue, heq, hmsg, hsegs⟩
    · refine ⟨kcp.sndQueue, kcp.nsndQue, congrArg Prod.snd heq, ?_, hfits⟩
      simp only [accepted, heq, if_neg hfailed, if_pos hstream, List.append_nil]
    · refine ⟨kcp.sndQueue ++ segs, nQue, congrArg Prod.snd heq, ?_, fun seg hseg => ?_⟩
      · have hcontent := hmsg.content
        rw [List.flatMap_map] at hcontent
        simp only [accepted, heq, if_true, List.flatMap_append]
        exact congrArg _ hcontent
      · exact (List.mem_append.mp hseg).elim (hfits seg) (hsegs seg)
  · obtain ⟨k, queue, hrest, hqueue, hbytes, ⟨hnil, heq⟩ | heq | ⟨segs, nQue, heq, hsegs, hfits'⟩⟩ :=
      ikcpSend_stream hcut hfits hstream hlen
    · refine ⟨queue, kcp.nsndQue, congrArg Prod.snd heq, ?_, hqueue⟩
      have hall : buffer.take k = buffer := by
        conv_rhs => rw [← List.take_append_drop k buffer, hnil, List.append_nil]
      simp only [accepted, heq, if_true]
      rw [hbytes, hall]
    · refine ⟨queue, kcp.nsndQue, congrArg Prod.snd heq, ?_, hqueue⟩
      have htaken : buffer.take (buffer.length - (buffer.drop k).length) = buffer.take k := by
        rw [List.length_drop]
        by_cases hk : k ≤ buffer.length
        · rw [Nat.sub_sub_self hk]
        · rw [List.take_of_length_le (by omega), List.take_of_length_le (by omega)]
      simp only [accepted, heq, if_neg hfailed, if_neg hstream]
      rw [hrest, htaken, hbytes]
    · refine ⟨queue ++ segs, nQue, congrArg Prod.snd heq, ?_, fun seg hseg => ?_⟩
      · simp only [accepted, heq, if_true]
        rw [List.flatMap_append, hsegs, hbytes, List.append_assoc, List.take_append_drop]
      · exact (List.mem_append.mp hseg).elim (hqueue seg) (hfits' seg)

/-- **`ikcp_send`** of an endpoint. -/
theorem Endpoint.send (he : Endpoint kcp read hs hr) (hlen : buffer.length < 2 ^ 31) :
    Endpoint (ikcpSend kcp buffer).2 read hs hr
      ∧ (ikcpSend kcp buffer).2.sndQueue.flatMap Ikcpseg.data
        = kcp.sndQueue.flatMap Ikcpseg.data ++ accepted kcp buffer := by
  have hok := he.ok.send buffer
  obtain ⟨queue, nQue, heq, hbytes, hfits⟩ := ikcpSend_eq he.cut he.sends.queue hlen
  rw [heq] at hok ⊢
  exact ⟨⟨hok, he.cut, ⟨he.sends.nxt, hfits, he.sends.buf, he.sends.held⟩, he.receives⟩, hbytes⟩

/-! ## Reading -/

/-- **Taking a message off the queue** is reading until the last piece. -/
theorem map_mergeFragment (queue : List Ikcpseg) :
    ((mergeFragment queue).1.map Ikcpseg.payload, (mergeFragment queue).2.map Ikcpseg.payload)
      = untilLast (queue.map Ikcpseg.payload) := by
  induction queue with
  | nil => rfl
  | cons seg queue ih =>
    have hzero : seg.frg = 0 ↔ seg.payload.1 = 0 := by
      rw [← UInt32.toNat_inj]
      rfl
    unfold mergeFragment
    rw [List.map_cons]
    unfold untilLast
    by_cases hfrg : seg.frg = 0
    · rw [if_pos hfrg, if_pos (hzero.mp hfrg)]
      rfl
    · rw [if_neg hfrg, if_neg (fun h => hfrg (hzero.mpr h)), ← ih]
      rfl

/-- **What is read is as long as it was said to be**, as `ikcp_recv` asserts. -/
theorem ikcpPeeksize_eq (h : 0 ≤ ikcpPeeksize kcp) :
    totalLen (mergeFragment kcp.rcvQueue).1 = ikcpPeeksize kcp := by
  unfold ikcpPeeksize at h ⊢
  cases hqueue : kcp.rcvQueue with
  | nil =>
    rw [hqueue] at h
    exact absurd h (show ¬ (0 : ℤ) ≤ -1 by decide)
  | cons seg queue =>
    rw [hqueue] at h
    dsimp only at h ⊢
    by_cases hfrg : seg.frg = 0
    · rw [if_pos hfrg]
      unfold mergeFragment
      rw [if_pos hfrg]
      show toInt (0 + seg.len) = toInt seg.len
      rw [UInt32.zero_add]
    · rw [if_neg hfrg] at h ⊢
      by_cases hfew : kcp.nrcvQue < seg.frg + 1
      · rw [if_pos hfew] at h
        exact absurd h (by decide)
      · rw [if_neg hfew]

/-- **All the pieces of the first message are there** if its size is known. -/
theorem frg_lt_of_peeksize {seg : Ikcpseg} {queue : List Ikcpseg} (hok : kcp.Ok)
    (hqueue : kcp.rcvQueue = seg :: queue) (hfrg : seg.frg.toNat < 256) (h : 0 ≤ ikcpPeeksize kcp) :
    seg.frg.toNat < kcp.rcvQueue.length := by
  unfold ikcpPeeksize at h
  rw [hqueue] at h ⊢
  dsimp only at h
  by_cases hzero : seg.frg = 0
  · rw [hzero]
    exact Nat.zero_lt_succ _
  · rw [if_neg hzero] at h
    by_cases hfew : kcp.nrcvQue < seg.frg + 1
    · rw [if_pos hfew] at h
      exact absurd h (by decide)
    · have hle := UInt32.le_iff_toNat_le.mp (UInt32.not_lt.mp hfew)
      have hone : (1 : UInt32).toNat = 1 := rfl
      have hcount : kcp.nrcvQue.toNat = kcp.rcvQueue.length := hok.receiver.nQue
      rw [UInt32.toNat_add, hone, hcount, hqueue] at hle
      omega

/-- What was read off the queue is no longer there. -/
theorem Receives.take (hrec : Receives read kcp.receiver hr) {len : ℤ} (hlen : 0 ≤ len) :
    Receives (read ++ (mergeFragment kcp.rcvQueue).1.map Ikcpseg.payload)
      (kcp.takeMessage len).receiver hr := by
  unfold Ikcpcb.takeMessage
  rw [if_neg (not_lt.mpr hlen)]
  refine ⟨hrec.nxt, ?_, hrec.buf, hrec.early, hrec.acks⟩
  show hr.got = read ++ (mergeFragment kcp.rcvQueue).1.map Ikcpseg.payload
    ++ (mergeFragment kcp.rcvQueue).2.map Ikcpseg.payload
  rw [List.append_assoc, ← List.map_append, mergeFragment_append]
  exact hrec.queue

/-- **`ikcp_recv`** of an endpoint: it takes what it returns, unless it fails or only looks. -/
theorem Endpoint.recv (he : Endpoint kcp read hs hr) (hlive : Live hr) (len : ℤ) : ∃ hr', Takes hr hr'
    ∧ ((0 ≤ (ikcpRecv kcp len).1 ∧ 0 ≤ len ∧ kcp.rcvQueue ≠ [] ∧ 0 ≤ ikcpPeeksize kcp
        ∧ (ikcpRecv kcp len).2.1 = (mergeFragment kcp.rcvQueue).1.flatMap Ikcpseg.data
        ∧ Endpoint (ikcpRecv kcp len).2.2
          (read ++ (mergeFragment kcp.rcvQueue).1.map Ikcpseg.payload) hs hr')
      ∨ (¬ (0 ≤ (ikcpRecv kcp len).1 ∧ 0 ≤ len) ∧ Endpoint (ikcpRecv kcp len).2.2 read hs hr')) := by
  rcases ikcpRecv_cases kcp len with ⟨heq, -⟩ | ⟨heq, -⟩ | ⟨heq, -⟩ | ⟨probe, hne, hsize, -, heq⟩
  · rw [heq]
    exact ⟨hr, .refl, Or.inr ⟨fun h => absurd h.1 (show ¬ (0 : ℤ) ≤ -1 by decide), he⟩⟩
  · rw [heq]
    exact ⟨hr, .refl, Or.inr ⟨fun h => absurd h.1 (show ¬ (0 : ℤ) ≤ -2 by decide), he⟩⟩
  · rw [heq]
    exact ⟨hr, .refl, Or.inr ⟨fun h => absurd h.1 (show ¬ (0 : ℤ) ≤ -3 by decide), he⟩⟩
  · have hok := he.ok.takeMessage len
    by_cases hlen : 0 ≤ len
    · have htaken : Endpoint (kcp.takeMessage len)
          (read ++ (mergeFragment kcp.rcvQueue).1.map Ikcpseg.payload) hs hr := by
        have hrec := he.receives.take hlen
        unfold Ikcpcb.takeMessage at hok hrec ⊢
        rw [if_neg (not_lt.mpr hlen)] at hok hrec ⊢
        exact ⟨hok, he.cut, he.sends, hrec⟩
      obtain ⟨hr', htakes, hmoved⟩ := htaken.moveAvailable hlive
      refine ⟨hr', htakes, Or.inl ?_⟩
      rw [heq]
      refine ⟨?_, hlen, hne, hsize, rfl, ⟨hmoved.ok.sender, hmoved.ok.receiver⟩, hmoved.cut,
        hmoved.sends, hmoved.receives⟩
      show 0 ≤ totalLen (mergeFragment kcp.rcvQueue).1
      rw [ikcpPeeksize_eq hsize]
      exact hsize
    · have hsame : kcp.takeMessage len = kcp := if_pos (not_le.mp hlen)
      rw [hsame] at heq
      obtain ⟨hr', htakes, hmoved⟩ := he.moveAvailable hlive
      refine ⟨hr', htakes, Or.inr ⟨fun h => hlen h.2, ?_⟩⟩
      rw [heq]
      exact ⟨⟨hmoved.ok.sender, hmoved.ok.receiver⟩, hmoved.cut, hmoved.sends, hmoved.receives⟩

/-- **`ikcp_recv` returns the next message** of those that were sent, if what was read before
were messages. -/
theorem Endpoint.recv_message {said heard : List (List UInt8)} {sent : List Payload}
    (he : Endpoint kcp read hs hr) (hlive : Live hr) (hsent : hr.sent <+: sent)
    (hfrg : ∀ p ∈ sent, p.1 < 256) (hsaid : Messages said sent) (hheard : Messages heard read)
    (hne : kcp.rcvQueue ≠ []) (hsize : 0 ≤ ikcpPeeksize kcp) :
    Messages (heard ++ [(mergeFragment kcp.rcvQueue).1.flatMap Ikcpseg.data])
      (read ++ (mergeFragment kcp.rcvQueue).1.map Ikcpseg.payload) := by
  obtain ⟨rest, hrest⟩ := hlive.reachable.got_isPrefix.trans hsent
  have hgot : hr.got = read ++ kcp.rcvQueue.map Ikcpseg.payload := he.receives.queue
  rw [hgot, List.append_assoc] at hrest
  obtain ⟨later, -, hlater⟩ := hheard.cancel (hrest ▸ hsaid)
  obtain ⟨seg, queue, hqueue⟩ := List.exists_cons_of_ne_nil hne
  rw [hqueue] at hlater
  -- the pieces of the next message are all in the queue
  obtain ⟨m, _, _, -, hm, -, -⟩ := hlater.first
  have hseg : seg.payload ∈ sent := by
    rw [← hrest, hqueue]
    exact List.mem_append_right _ List.mem_cons_self
  have hmany := frg_lt_of_peeksize he.ok hqueue (hfrg _ hseg) hsize
  have hm' : IsMessage m ((kcp.rcvQueue.map Ikcpseg.payload ++ rest).take (seg.payload.1 + 1)) := by
    rw [hqueue]
    exact hm
  rw [List.take_append_of_le_length (by rw [List.length_map]; exact hmany)] at hm'
  have hread := untilLast_append hm' ((kcp.rcvQueue.map Ikcpseg.payload).drop (seg.payload.1 + 1))
  rw [List.take_append_drop, ← map_mergeFragment] at hread
  have htaken := congrArg Prod.fst hread
  dsimp only at htaken
  refine hheard.append (.single ?_)
  have hcontent : m = (mergeFragment kcp.rcvQueue).1.flatMap Ikcpseg.data := by
    rw [← hm'.content, ← htaken, List.flatMap_map]
    rfl
  rw [← hcontent, htaken]
  exact hm'

end Kcp
