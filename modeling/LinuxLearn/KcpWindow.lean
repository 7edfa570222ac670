import LinuxLearn.Kcp

/-!
# Windows

What a control block sends and what it receives do not meet, apart from the numbers that
go into headers. Its **sender** is the queue and the buffer of what it sends, its
**receiver** those of what comes in, each with its counters and its place in the sequence
of the numbers.

Numbers wrap around, so a buffer is in order as seen from its first place: the distances
from there grow, and they are less than the window (`Sender.Ok`, `Receiver.Ok`). Whatever
datagrams come in, the calls keep this, and the counters count what is there.
-/

namespace Kcp

/-! ## Counters -/

theorem ofNat_succ_sub_one (n : ℕ) : UInt32.ofNat (n + 1) - 1 = UInt32.ofNat n := by
  rw [UInt32.ofNat_add]
  exact UInt32.add_sub_cancel _ _

/-- A counter from which what was removed is taken away counts what is left. -/
theorem ofNat_sub_ofNat {m n : ℕ} (h : n ≤ m) :
    UInt32.ofNat m - UInt32.ofNat (m - n) = UInt32.ofNat n := by
  obtain ⟨k, rfl⟩ := Nat.exists_eq_add_of_le h
  rw [Nat.add_sub_cancel_left, UInt32.ofNat_add, UInt32.add_sub_cancel]

/-! ## Views -/

/-- **What is sent**: the first number that is not acknowledged, the next one to be given, the
window of the other side, the counters, the queue and the buffer. -/
structure Sender where
  una : UInt32
  nxt : UInt32
  rmtWnd : UInt32
  nBuf : UInt32
  nQue : UInt32
  queue : List Ikcpseg
  buf : List Ikcpseg

/-- **What is received**: the next number, the window, the counters, the queue and the buffer,
and the acknowledgements that are due, with the capacity for them. -/
structure Receiver where
  nxt : UInt32
  wnd : UInt32
  nBuf : UInt32
  nQue : UInt32
  queue : List Ikcpseg
  buf : List Ikcpseg
  acks : List (UInt32 × UInt32)
  block : UInt32

def Ikcpcb.sender (kcp : Ikcpcb) : Sender :=
  ⟨kcp.sndUna, kcp.sndNxt, kcp.rmtWnd, kcp.nsndBuf, kcp.nsndQue, kcp.sndQueue, kcp.sndBuf⟩

def Ikcpcb.receiver (kcp : Ikcpcb) : Receiver :=
  ⟨kcp.rcvNxt, kcp.rcvWnd, kcp.nrcvBuf, kcp.nrcvQue, kcp.rcvQueue, kcp.rcvBuf, kcp.acklist,
    kcp.ackblock⟩

/-- How far a number is from a base. -/
def dist (base sn : UInt32) : ℕ := (sn - base).toNat

/-- **In order**, as seen from a base. -/
def Sorted (base : UInt32) (buf : List Ikcpseg) : Prop :=
  buf.Pairwise (fun a b => dist base a.sn < dist base b.sn)

/-- **The sender is in order**: its first number is that of the first segment that is not
acknowledged, those of the buffer grow from there to the next one, which is in the window, and
the counters are right. -/
structure Sender.Ok (s : Sender) : Prop where
  una : s.una = (s.buf.map Ikcpseg.sn).headD s.nxt
  sorted : Sorted s.una s.buf
  below : ∀ seg ∈ s.buf, dist s.una seg.sn < dist s.una s.nxt
  window : dist s.una s.nxt < 2 ^ 16
  rmtWnd : s.rmtWnd.toNat < 2 ^ 16
  nBuf : s.nBuf = UInt32.ofNat s.buf.length
  nQue : s.nQue = UInt32.ofNat s.queue.length

/-- **The receiver is in order**: the numbers of the buffer grow from the next one on, the
counters are right, the queue is within what a window can be, and there is room for the
acknowledgements, as long as a size can count them. -/
structure Receiver.Ok (r : Receiver) : Prop where
  sorted : Sorted r.nxt r.buf
  below : ∀ seg ∈ r.buf, dist r.nxt seg.sn < 2 ^ 31
  wnd_ge : 128 ≤ r.wnd.toNat
  wnd_lt : r.wnd.toNat < 2 ^ 31
  nBuf : r.nBuf = UInt32.ofNat r.buf.length
  nQue : r.nQue.toNat = r.queue.length
  full : r.queue.length < 2 ^ 31
  block : r.acks.length ≤ 2 ^ 31 → r.acks.length ≤ r.block.toNat

section

variable {base sn sn' : UInt32} {seg newseg : Ikcpseg} {buf buf' queue rev out : List Ikcpseg}
  {kcp : Ikcpcb} {s : Sender} {r : Receiver}

@[simp] theorem dist_self (base : UInt32) : dist base base = 0 := by
  unfold dist
  rw [UInt32.sub_self]
  rfl

/-- Numbers at the same distance are the same. -/
theorem dist_inj (h : dist base sn = dist base sn') : sn = sn' := by
  have hsub := UInt32.toNat_inj.mp h
  exact (UInt32.sub_left_inj base).mp hsub

/-- **From a base further on**, distances are that much less. -/
theorem dist_sub (h : dist base sn ≤ dist base sn') : dist sn sn' = dist base sn' - dist base sn := by
  unfold dist at *
  have := sn.toNat_lt
  have := sn'.toNat_lt
  have := base.toNat_lt
  simp only [UInt32.toNat_sub] at *
  omega

/-- One further on. -/
theorem dist_succ (h : dist base sn < 2 ^ 32 - 1) : dist base (sn + 1) = dist base sn + 1 := by
  unfold dist at *
  have := sn.toNat_lt
  have := base.toNat_lt
  have hone : (1 : UInt32).toNat = 1 := rfl
  simp only [UInt32.toNat_sub, UInt32.toNat_add, hone] at *
  omega

theorem dist_add (n : UInt32) : dist base (base + n) = n.toNat := by
  unfold dist
  rw [UInt32.add_comm, UInt32.add_sub_cancel]

/-- Numbers within half the range of a base compare as their distances. -/
theorem itimediff_dist (hsn : dist base sn < 2 ^ 31) (hsn' : dist base sn' < 2 ^ 31) :
    itimediff sn sn' = (dist base sn : ℤ) - dist base sn' := by
  unfold dist at *
  exact itimediff_eq base (by omega) (by omega)

theorem Sorted.sublist (h : Sorted base buf) (hsub : buf'.Sublist buf) : Sorted base buf' :=
  List.Pairwise.sublist hsub h

/-- From a base further on, what is not before it stays in order. -/
theorem Sorted.rebase (h : Sorted base buf) (hle : ∀ seg ∈ buf, dist base sn ≤ dist base seg.sn) :
    Sorted sn buf := by
  refine List.Pairwise.imp_of_mem (fun {a b} ha hb hab => ?_) h
  rw [dist_sub (hle a ha), dist_sub (hle b hb)]
  have := hle a ha
  omega

/-- Order is that of the numbers alone. -/
theorem sorted_congr (h : buf.map Ikcpseg.sn = buf'.map Ikcpseg.sn) :
    Sorted base buf ↔ Sorted base buf' := by
  have hmap : ∀ l : List Ikcpseg,
      Sorted base l ↔ (l.map Ikcpseg.sn).Pairwise (fun a b => dist base a < dist base b) := by
    intro l
    rw [List.pairwise_map]
    rfl
  rw [hmap, hmap, h]

/-! ## The sender -/

/-- What of the buffer is left when some was acknowledged, and the first number is found again. -/
def Sender.keep (s : Sender) (buf : List Ikcpseg) : Sender :=
  { s with
    una := (buf.map Ikcpseg.sn).headD s.nxt
    nBuf := UInt32.ofNat buf.length
    buf := buf }

/-- **Acknowledged segments may go** from any place. -/
theorem Sender.Ok.keep (h : s.Ok) (hsub : buf.Sublist s.buf) : (s.keep buf).Ok := by
  -- the new first number is at least as far as the old one and not beyond the rest
  have hfirst : dist s.una ((buf.map Ikcpseg.sn).headD s.nxt) ≤ dist s.una s.nxt
      ∧ ∀ seg ∈ buf, dist s.una ((buf.map Ikcpseg.sn).headD s.nxt) ≤ dist s.una seg.sn := by
    cases buf with
    | nil => exact ⟨le_rfl, fun seg hseg => absurd hseg List.not_mem_nil⟩
    | cons first buf =>
      refine ⟨(h.below first (hsub.subset List.mem_cons_self)).le, fun seg hseg => ?_⟩
      rcases List.mem_cons.mp hseg with rfl | hseg
      · exact le_rfl
      · exact (List.rel_of_pairwise_cons (h.sorted.sublist hsub) hseg).le
  obtain ⟨hnxt, hle⟩ := hfirst
  refine ⟨rfl, (h.sorted.sublist hsub).rebase hle, fun seg hseg => ?_, ?_, h.rmtWnd, rfl, h.nQue⟩
  · show dist ((buf.map Ikcpseg.sn).headD s.nxt) seg.sn < dist ((buf.map Ikcpseg.sn).headD s.nxt) s.nxt
    rw [dist_sub (hle seg hseg), dist_sub hnxt]
    have := h.below seg (hsub.subset hseg)
    have := hle seg hseg
    omega
  · show dist ((buf.map Ikcpseg.sn).headD s.nxt) s.nxt < 2 ^ 16
    rw [dist_sub hnxt]
    have := h.window
    omega

/-- The window of the other side may change, as far as a header can say. -/
theorem Sender.Ok.rmt (h : s.Ok) {wnd : UInt32} (hwnd : wnd.toNat < 2 ^ 16) :
    ({ s with rmtWnd := wnd } : Sender).Ok :=
  ⟨h.una, h.sorted, h.below, h.window, hwnd, h.nBuf, h.nQue⟩

/-- Only the numbers of the segments in the buffer matter. -/
theorem Sender.Ok.congr (h : s.Ok) (hsn : buf.map Ikcpseg.sn = s.buf.map Ikcpseg.sn) :
    ({ s with buf := buf } : Sender).Ok := by
  have hlen : buf.length = s.buf.length := by simpa using congrArg List.length hsn
  refine ⟨?_, (sorted_congr hsn).mpr h.sorted, fun seg hseg => ?_, h.window, h.rmtWnd, ?_, h.nQue⟩
  · show s.una = (buf.map Ikcpseg.sn).headD s.nxt
    rw [hsn]
    exact h.una
  · have hmem : seg.sn ∈ s.buf.map Ikcpseg.sn := hsn ▸ List.mem_map_of_mem hseg
    obtain ⟨seg', hseg', heq⟩ := List.mem_map.mp hmem
    exact heq ▸ h.below seg' hseg'
  · show s.nBuf = UInt32.ofNat buf.length
    rw [hlen]
    exact h.nBuf

/-- **A segment is given the next number** and goes from the queue into the buffer, if the
window allows one more. -/
theorem Sender.Ok.admitFirst {cwnd : UInt32} (h : s.Ok) (hqueue : s.queue = seg :: queue)
    (hcwnd : cwnd.toNat < 2 ^ 16) (hdiff : itimediff s.nxt (s.una + cwnd) < 0)
    (hsn : newseg.sn = s.nxt) :
    ({ s with
        nxt := s.nxt + 1
        nBuf := s.nBuf + 1
        nQue := s.nQue - 1
        queue := queue
        buf := s.buf ++ [newseg] } : Sender).Ok := by
  have hwindow := h.window
  have hcwnd' : dist s.una (s.una + cwnd) = cwnd.toNat := dist_add cwnd
  have hsub : itimediff s.nxt (s.una + cwnd) = (dist s.una s.nxt : ℤ) - dist s.una (s.una + cwnd) :=
    itimediff_dist (by omega) (by omega)
  rw [hsub, hcwnd'] at hdiff
  have hnxt : dist s.una (s.nxt + 1) = dist s.una s.nxt + 1 := dist_succ (by omega)
  refine ⟨?_, ?_, fun seg' hseg' => ?_, ?_, h.rmtWnd, ?_, ?_⟩
  · show s.una = ((s.buf ++ [newseg]).map Ikcpseg.sn).headD (s.nxt + 1)
    have huna := h.una
    cases hbuf : s.buf with
    | nil =>
      rw [hbuf] at huna
      exact huna.trans hsn.symm
    | cons first buf =>
      rw [hbuf] at huna
      exact huna
  · refine List.pairwise_append.mpr ⟨h.sorted, List.pairwise_singleton _ _, fun a ha b hb => ?_⟩
    obtain rfl := List.mem_singleton.mp hb
    rw [hsn]
    exact h.below a ha
  · show dist s.una seg'.sn < dist s.una (s.nxt + 1)
    rcases List.mem_append.mp hseg' with hmem | hmem
    · have := h.below seg' hmem
      omega
    · obtain rfl := List.mem_singleton.mp hmem
      rw [hsn]
      omega
  · show dist s.una (s.nxt + 1) < 2 ^ 16
    omega
  · show s.nBuf + 1 = UInt32.ofNat (s.buf ++ [newseg]).length
    rw [h.nBuf, List.length_append, UInt32.ofNat_add]
    rfl
  · show s.nQue - 1 = UInt32.ofNat queue.length
    rw [h.nQue, hqueue]
    exact ofNat_succ_sub_one queue.length

/-! ## The receiver -/

/-- **The next segment is moved** to the queue. -/
theorem Receiver.Ok.move (h : r.Ok) (hbuf : r.buf = seg :: buf) (hsn : seg.sn = r.nxt)
    (hroom : r.nQue < r.wnd) :
    ({ r with
        nxt := r.nxt + 1
        nBuf := r.nBuf - 1
        nQue := r.nQue + 1
        queue := r.queue ++ [seg]
        buf := buf } : Receiver).Ok := by
  have hsorted := h.sorted
  have hbelow := h.below
  rw [hbuf] at hsorted hbelow
  have hone : dist r.nxt (r.nxt + 1) = 1 := by rw [dist_add]; rfl
  have hle : ∀ seg' ∈ buf, dist r.nxt (r.nxt + 1) ≤ dist r.nxt seg'.sn := by
    intro seg' hseg'
    have hlt := List.rel_of_pairwise_cons hsorted hseg'
    rw [hsn, dist_self] at hlt
    omega
  have hlt : r.queue.length < r.wnd.toNat := h.nQue ▸ UInt32.lt_iff_toNat_lt.mp hroom
  have hwnd := h.wnd_lt
  have hlen : (r.queue ++ [seg]).length = r.queue.length + 1 := List.length_append
  refine ⟨Sorted.rebase (List.Pairwise.of_cons hsorted) hle, fun seg' hseg' => ?_, h.wnd_ge, hwnd, ?_, ?_,
    ?_, h.block⟩
  · show dist (r.nxt + 1) seg'.sn < 2 ^ 31
    rw [dist_sub (hle seg' hseg')]
    have := hbelow seg' (List.mem_cons_of_mem _ hseg')
    omega
  · show r.nBuf - 1 = UInt32.ofNat buf.length
    rw [h.nBuf, hbuf]
    exact ofNat_succ_sub_one buf.length
  · show (r.nQue + 1).toNat = (r.queue ++ [seg]).length
    have hone : (1 : UInt32).toNat = 1 := rfl
    rw [UInt32.toNat_add, h.nQue, hlen, hone]
    omega
  · show (r.queue ++ [seg]).length < 2 ^ 31
    omega

/-- A message is taken off the queue. -/
theorem Receiver.Ok.take {message : List Ikcpseg} (h : r.Ok) (hqueue : r.queue = message ++ queue) :
    ({ r with nQue := r.nQue - UInt32.ofNat message.length, queue := queue } : Receiver).Ok := by
  have hlen : r.queue.length = message.length + queue.length := by rw [hqueue, List.length_append]
  have hfull := h.full
  have hnQue := h.nQue
  refine ⟨h.sorted, h.below, h.wnd_ge, h.wnd_lt, h.nBuf, ?_, ?_, h.block⟩
  · show (r.nQue - UInt32.ofNat message.length).toNat = queue.length
    have hmessage : (UInt32.ofNat message.length).toNat = message.length :=
      UInt32.toNat_ofNat_of_lt' (show message.length < 2 ^ 32 by omega)
    rw [UInt32.toNat_sub_of_le _ _ (UInt32.le_iff_toNat_le.mpr (by omega)), hmessage]
    omega
  · show queue.length < 2 ^ 31
    omega

/-- **Where a segment goes**: those behind it are later, and the one before it is not; nowhere
if there is one with its number. -/
theorem insertSorted_eq_some (h : insertSorted newseg rev = some out) :
    ∃ later before, rev = later ++ before ∧ out = later ++ newseg :: before
      ∧ (∀ seg ∈ later, seg.sn ≠ newseg.sn ∧ itimediff newseg.sn seg.sn ≤ 0)
      ∧ ∀ seg ∈ before.head?, itimediff newseg.sn seg.sn > 0 := by
  induction rev generalizing out with
  | nil =>
    obtain rfl := Option.some.inj h
    exact ⟨[], [], rfl, rfl, fun _ hseg => absurd hseg List.not_mem_nil, fun _ hseg => nomatch hseg⟩
  | cons seg prev ih =>
    unfold insertSorted at h
    split at h
    · cases h
    · next hne =>
      split at h
      · next hdiff =>
        obtain rfl := Option.some.inj h
        refine ⟨[], seg :: prev, rfl, rfl, fun _ hseg => absurd hseg List.not_mem_nil, fun _ hseg => ?_⟩
        obtain rfl := Option.some.inj hseg
        exact hdiff
      · next hdiff =>
        obtain ⟨out', hout', rfl⟩ := Option.map_eq_some_iff.mp h
        obtain ⟨later, before, rfl, rfl, hlater, hbefore⟩ := ih hout'
        refine ⟨seg :: later, before, rfl, rfl, fun seg' hseg' => ?_, hbefore⟩
        rcases List.mem_cons.mp hseg' with rfl | hseg'
        · exact ⟨hne, not_lt.mp hdiff⟩
        · exact hlater seg' hseg'

theorem insertSorted_eq_none (h : insertSorted newseg rev = none) : ∃ seg ∈ rev, seg.sn = newseg.sn := by
  induction rev with
  | nil => cases h
  | cons seg prev ih =>
    unfold insertSorted at h
    split at h
    · next heq => exact ⟨seg, List.mem_cons_self, heq⟩
    · split at h
      · cases h
      · obtain ⟨seg', hseg', heq⟩ := ih (Option.map_eq_none_iff.mp h)
        exact ⟨seg', List.mem_cons_of_mem _ hseg', heq⟩

/-- **In a buffer that is in order** a new segment goes between those before and those after it. -/
theorem insertSorted_sorted (hsorted : Sorted base buf) (hbelow : ∀ seg ∈ buf, dist base seg.sn < 2 ^ 31)
    (hnew : dist base newseg.sn < 2 ^ 31) (h : insertSorted newseg buf.reverse = some out) :
    ∃ before later, buf = before ++ later ∧ out.reverse = before ++ newseg :: later
      ∧ (∀ seg ∈ before, dist base seg.sn < dist base newseg.sn)
      ∧ ∀ seg ∈ later, dist base newseg.sn < dist base seg.sn := by
  obtain ⟨later, before, hrev, rfl, hlater, hbefore⟩ := insertSorted_eq_some h
  have hbuf : buf = before.reverse ++ later.reverse := by
    rw [← List.reverse_append, ← hrev, List.reverse_reverse]
  subst hbuf
  refine ⟨before.reverse, later.reverse, rfl, by simp, fun seg hseg => ?_, fun seg hseg => ?_⟩
  · cases hcases : before with
    | nil =>
      rw [hcases] at hseg
      cases hseg
    | cons first before' =>
      subst hcases
      have hfirst : dist base first.sn < dist base newseg.sn := by
        have hdiff := hbefore first rfl
        rw [itimediff_dist hnew (hbelow first (by simp))] at hdiff
        omega
      rcases List.mem_cons.mp (List.mem_reverse.mp hseg) with rfl | hmem
      · exact hfirst
      · have hlt : dist base seg.sn < dist base first.sn := by
          have hs := (List.pairwise_append.mp hsorted).1
          rw [List.reverse_cons] at hs
          exact (List.pairwise_append.mp hs).2.2 seg (List.mem_reverse.mpr hmem) first
            (List.mem_singleton.mpr rfl)
        exact hlt.trans hfirst
  · obtain ⟨hne, hdiff⟩ := hlater seg (List.mem_reverse.mp hseg)
    have hlt := hbelow seg (List.mem_append_right _ hseg)
    rw [itimediff_dist hnew hlt] at hdiff
    have hdist : dist base seg.sn ≠ dist base newseg.sn := fun heq => hne (dist_inj heq)
    omega

/-- **A new segment is put in its place.** -/
theorem Receiver.Ok.insert (h : r.Ok) (hnew : dist r.nxt newseg.sn < 2 ^ 31)
    (hins : insertSorted newseg r.buf.reverse = some out) :
    ({ r with buf := out.reverse, nBuf := r.nBuf + 1 } : Receiver).Ok := by
  obtain ⟨before, later, hbuf, hout, hbefore, hlater⟩ :=
    insertSorted_sorted h.sorted h.below hnew hins
  have hsorted := h.sorted
  have hbelow := h.below
  rw [hbuf] at hsorted hbelow
  obtain ⟨hs, hs', hcross⟩ := List.pairwise_append.mp hsorted
  refine ⟨?_, fun seg hseg => ?_, h.wnd_ge, h.wnd_lt, ?_, h.nQue, h.full, h.block⟩
  · show Sorted r.nxt out.reverse
    rw [hout]
    refine List.pairwise_append.mpr ⟨hs, List.pairwise_cons.mpr ⟨hlater, hs'⟩, fun a ha b hb => ?_⟩
    rcases List.mem_cons.mp hb with rfl | hb
    · exact hbefore a ha
    · exact hcross a ha b hb
  · show dist r.nxt seg.sn < 2 ^ 31
    have hmem : seg ∈ before ++ newseg :: later := hout ▸ hseg
    rcases List.mem_append.mp hmem with hmem | hmem
    · exact hbelow seg (List.mem_append_left _ hmem)
    · rcases List.mem_cons.mp hmem with rfl | hmem
      · exact hnew
      · exact hbelow seg (List.mem_append_right _ hmem)
  · show r.nBuf + 1 = UInt32.ofNat out.reverse.length
    rw [h.nBuf, hbuf, hout, List.length_append, List.length_append, List.length_cons, ← Nat.add_assoc,
      UInt32.ofNat_add (_ + _) 1]
    rfl

end

end Kcp
