import LinuxLearn.UstackHistory

/-!
# The numbers of a stream

A stream keeps two numbers. `rcv_nxt` goes into the acknowledgements it
sends, and `snd_nxt` is what its own fragments carry.

Whoever sends does not advance `snd_nxt`: it is the sequence number of the
SYN-ACK until a PSH or a FIN is taken in, and from then on the number that
the last of them acknowledged. What is sent is contiguous as long as the
peer has acknowledged all of it, in a PSH or a FIN, whenever the next
fragment is sent (`contiguous_iff`).
-/

namespace Ustack

/-- A flag is set. -/
def TcpFragment.Has (f : TcpFragment) (flag : UInt8) : Prop := f.tcpFlags &&& flag ≠ 0

instance (f : TcpFragment) (flag : UInt8) : Decidable (f.Has flag) :=
  inferInstanceAs (Decidable (f.tcpFlags &&& flag ≠ 0))

/-- **What was put into the ring that is sent from.** -/
def queuedIn (h : List StreamNote) : List TcpFragment :=
  h.filterMap (fun n => match n with
    | .queued f => some f
    | _ => none)

/-- **Contiguous sequence space.** Data starts at `iss + 1`, goes on where the data
before it ended, and a FIN is where the data ended, if there was any. -/
def Contiguous (iss : UInt32) : Option UInt32 → List TcpFragment → Prop
  | _, [] => True
  | last, f :: fs =>
    (f.Has RTE_TCP_PSH_FLAG → f.seqnum = last.getD (iss + 1))
    ∧ (f.Has RTE_TCP_FIN_FLAG → ∀ n ∈ last, f.seqnum = n)
    ∧ Contiguous iss
      (if f.Has RTE_TCP_PSH_FLAG then some (f.seqnum + UInt32.ofNat f.length) else last) fs

/-- It can be decided. -/
def Contiguous.dec (iss : UInt32) :
    ∀ (last : Option UInt32) (fs : List TcpFragment), Decidable (Contiguous iss last fs)
  | _, [] => inferInstanceAs (Decidable True)
  | last, f :: fs =>
    have := Contiguous.dec iss
      (if f.Has RTE_TCP_PSH_FLAG then some (f.seqnum + UInt32.ofNat f.length) else last) fs
    inferInstanceAs (Decidable (_ ∧ _ ∧ _))

instance (iss : UInt32) (last : Option UInt32) (fs : List TcpFragment) :
    Decidable (Contiguous iss last fs) := Contiguous.dec iss last fs

/-- A PSH or a FIN. -/
def TcpSegment.Moves (seg : TcpSegment) : Prop :=
  seg.Has RTE_TCP_PSH_FLAG ∨ seg.Has RTE_TCP_FIN_FLAG

instance (seg : TcpSegment) : Decidable seg.Moves :=
  inferInstanceAs (Decidable (_ ∨ _))

/-- **The peer keeps up**: whenever data is put into the ring, or a FIN after some,
the last PSH or FIN taken in has acknowledged all that was put there. `acked` is the
number in it, and `total` how much data there was, if there was any. -/
def KeepsUp (iss : UInt32) : UInt32 → Option ℕ → List StreamNote → Prop
  | _, _, [] => True
  | acked, total, .taken seg :: h => KeepsUp iss (if seg.Moves then seg.recvAck else acked) total h
  | acked, total, .queued f :: h =>
    (f.Has RTE_TCP_PSH_FLAG → acked = iss + 1 + UInt32.ofNat (total.getD 0))
    ∧ (f.Has RTE_TCP_FIN_FLAG → ∀ n ∈ total, acked = iss + 1 + UInt32.ofNat n)
    ∧ KeepsUp iss acked
      (if f.Has RTE_TCP_PSH_FLAG then some (total.getD 0 + f.length) else total) h
  | acked, total, _ :: h => KeepsUp iss acked total h

/-- It can be decided. -/
def KeepsUp.dec (iss : UInt32) :
    ∀ (acked : UInt32) (total : Option ℕ) (h : List StreamNote), Decidable (KeepsUp iss acked total h)
  | _, _, [] => inferInstanceAs (Decidable True)
  | acked, total, .taken seg :: h => KeepsUp.dec iss (if seg.Moves then seg.recvAck else acked) total h
  | acked, total, .queued f :: h =>
    have := KeepsUp.dec iss acked
      (if f.Has RTE_TCP_PSH_FLAG then some (total.getD 0 + f.length) else total) h
    inferInstanceAs (Decidable (_ ∧ _ ∧ _))
  | acked, total, .established _ :: h => KeepsUp.dec iss acked total h
  | acked, total, .filled _ :: h => KeepsUp.dec iss acked total h
  | acked, total, .sent _ :: h => KeepsUp.dec iss acked total h
  | acked, total, .accepted _ :: h => KeepsUp.dec iss acked total h

instance (iss acked : UInt32) (total : Option ℕ) (h : List StreamNote) :
    Decidable (KeepsUp iss acked total h) := KeepsUp.dec iss acked total h

/-- **No segment acknowledges more than was sent.** -/
def AcksSent (iss : UInt32) : ℕ → List StreamNote → Prop
  | _, [] => True
  | total, .taken seg :: h => (seg.recvAck - iss).toNat ≤ total + 1 ∧ AcksSent iss total h
  | total, .queued f :: h =>
    AcksSent iss (if f.Has RTE_TCP_PSH_FLAG then total + f.length else total) h
  | total, _ :: h => AcksSent iss total h

/-- The number that the last PSH or FIN acknowledged. -/
def lastAcked (acked : UInt32) (h : List StreamNote) : UInt32 :=
  h.foldl (fun acked n => match n with
    | .taken seg => if seg.Moves then seg.recvAck else acked
    | _ => acked) acked

/-- **What is sent carries the last number acknowledged.** -/
def CarriesAcked : UInt32 → List StreamNote → Prop
  | _, [] => True
  | acked, .taken seg :: h => CarriesAcked (if seg.Moves then seg.recvAck else acked) h
  | acked, .queued f :: h =>
    (f.Has RTE_TCP_PSH_FLAG ∨ f.Has RTE_TCP_FIN_FLAG → f.seqnum = acked) ∧ CarriesAcked acked h
  | acked, _ :: h => CarriesAcked acked h

theorem lastAcked_append (acked : UInt32) (h h' : List StreamNote) :
    lastAcked acked (h ++ h') = lastAcked (lastAcked acked h) h' := List.foldl_append

theorem carriesAcked_append {acked : UInt32} {h h' : List StreamNote} :
    CarriesAcked acked (h ++ h') ↔ CarriesAcked acked h ∧ CarriesAcked (lastAcked acked h) h' := by
  induction h generalizing acked with
  | nil => exact (iff_of_eq (true_and _)).symm
  | cons n h ih =>
    cases n with
    | queued f => exact (and_congr_right fun _ => ih).trans and_assoc.symm
    | _ => exact ih

/-- **Contiguous, if and only if the peer keeps up.** -/
theorem contiguous_iff_keepsUp {iss acked : UInt32} {total : Option ℕ} {h : List StreamNote}
    (hcarries : CarriesAcked acked h) :
    Contiguous iss (total.map (fun n => iss + 1 + UInt32.ofNat n)) (queuedIn h)
      ↔ KeepsUp iss acked total h := by
  induction h generalizing acked total with
  | nil => exact Iff.rfl
  | cons n h ih =>
    cases n with
    | queued f =>
      obtain ⟨hf, hrest⟩ := hcarries
      have hnext : (f.Has RTE_TCP_PSH_FLAG → f.seqnum
            = (total.map (fun n => iss + 1 + UInt32.ofNat n)).getD (iss + 1))
          ↔ (f.Has RTE_TCP_PSH_FLAG → acked = iss + 1 + UInt32.ofNat (total.getD 0)) := by
        refine imp_congr_right (fun hpsh => ?_)
        rw [hf (Or.inl hpsh)]
        cases total with
        | none => exact iff_of_eq (congrArg (acked = ·) (UInt32.add_zero _).symm)
        | some n => exact Iff.rfl
      have hfin : (f.Has RTE_TCP_FIN_FLAG →
            ∀ n ∈ total.map (fun n => iss + 1 + UInt32.ofNat n), f.seqnum = n)
          ↔ (f.Has RTE_TCP_FIN_FLAG → ∀ n ∈ total, acked = iss + 1 + UInt32.ofNat n) := by
        refine imp_congr_right (fun hfin => ?_)
        rw [hf (Or.inr hfin)]
        cases total <;> simp
      show (_ ∧ _ ∧ Contiguous _ _ (queuedIn h)) ↔ (_ ∧ _ ∧ KeepsUp _ _ _ h)
      rw [hnext, hfin]
      refine and_congr_right (fun hacked => and_congr_right (fun _ => ?_))
      by_cases hpsh : f.Has RTE_TCP_PSH_FLAG
      · rw [if_pos hpsh, if_pos hpsh, ← ih hrest, hf (Or.inl hpsh), hacked hpsh]
        have hend : iss + 1 + UInt32.ofNat (total.getD 0) + UInt32.ofNat f.length
            = iss + 1 + UInt32.ofNat (total.getD 0 + f.length) := by
          rw [UInt32.ofNat_add, UInt32.add_assoc]
        rw [hend]
        rfl
      · rw [if_neg hpsh, if_neg hpsh]
        exact ih hrest
    | _ => exact ih hcarries

/-! ## What the rings get -/

section Grown

variable {x : TcpStream} {rings : List TcpFragment × List TcpFragment} {acked : UInt32}

theorem queuedIn_append (h h' : List StreamNote) : queuedIn (h ++ h') = queuedIn h ++ queuedIn h' :=
  List.filterMap_append

theorem queuedIn_grown (x : TcpStream) (rings : List TcpFragment × List TcpFragment) :
    queuedIn (x.grown rings) = x.sndbuf.drop rings.2.length := by
  unfold queuedIn TcpStream.grown
  rw [List.filterMap_append, List.filterMap_map, List.filterMap_map]
  have hfilled : ∀ fs : List TcpFragment, fs.filterMap ((fun n => match n with
      | .queued f => some f
      | _ => none) ∘ StreamNote.filled) = [] :=
    fun fs => List.filterMap_eq_nil_iff.mpr (fun _ _ => rfl)
  rw [hfilled, List.nil_append]
  exact List.filterMap_some

theorem lastAcked_grown (x : TcpStream) (rings : List TcpFragment × List TcpFragment)
    (acked : UInt32) : lastAcked acked (x.grown rings) = acked := by
  unfold lastAcked TcpStream.grown
  rw [List.foldl_append, List.foldl_map, List.foldl_map, List.foldl_fixed, List.foldl_fixed]

theorem carriesAcked_grown :
    CarriesAcked acked (x.grown rings) ↔ ∀ f ∈ x.sndbuf.drop rings.2.length,
      f.Has RTE_TCP_PSH_FLAG ∨ f.Has RTE_TCP_FIN_FLAG → f.seqnum = acked := by
  have hqueued : ∀ fs : List TcpFragment, CarriesAcked acked (fs.map .queued)
      ↔ ∀ f ∈ fs, f.Has RTE_TCP_PSH_FLAG ∨ f.Has RTE_TCP_FIN_FLAG → f.seqnum = acked := by
    intro fs
    induction fs with
    | nil => simp [CarriesAcked]
    | cons f fs ih =>
      rw [List.forall_mem_cons, ← ih]
      exact Iff.rfl
  have hfilled : ∀ (fs : List TcpFragment) (h : List StreamNote),
      CarriesAcked acked (fs.map .filled ++ h) ↔ CarriesAcked acked h := by
    intro fs h
    induction fs with
    | nil => exact Iff.rfl
    | cons f fs ih => exact ih
  unfold TcpStream.grown
  rw [hfilled, hqueued]

/-- What is in a ring that has got another fragment. -/
theorem mem_drop_ringEnqueue {ring : List TcpFragment} {f g : TcpFragment} {n : ℕ}
    (h : f ∈ (ringEnqueue ring g).drop n) : f ∈ ring.drop n ∨ f = g := by
  rcases ringEnqueue_cases ring g with hring | hring
  · rw [hring] at h
    exact Or.inl h
  · rw [hring, List.drop_append] at h
    refine (List.mem_append.mp h).imp_right (fun h => ?_)
    exact List.mem_singleton.mp (List.mem_of_mem_drop h)

/-- What is in it that was not before. -/
theorem eq_of_mem_drop_length {ring : List TcpFragment} {f g : TcpFragment}
    (h : f ∈ (ringEnqueue ring g).drop ring.length) : f = g := by
  rcases mem_drop_ringEnqueue h with h | h
  · rw [List.drop_length] at h
    exact absurd h List.not_mem_nil
  · exact h

/-- What the ring has got where a PSH or a FIN was taken in. -/
theorem mem_drop_advance (seg : TcpSegment) (tcplen : ℤ) (advance : UInt32) (malloc : ℕ → Bool)
    {f : TcpFragment} {n : ℕ} (h : f ∈ (x.advance seg tcplen advance malloc).sndbuf.drop n) :
    f ∈ x.sndbuf.drop n ∨ ∃ seqnum acknum, f = ackFragment seg seqnum acknum := by
  unfold TcpStream.advance at h
  simp only at h
  split at h
  · exact (mem_drop_ringEnqueue h).imp_right (fun hf => ⟨_, _, hf⟩)
  · exact Or.inl h

end Grown

/-- The ACK has no other flag. -/
theorem ackFragment_flags (seg : TcpSegment) (seqnum acknum : UInt32) :
    ¬ (ackFragment seg seqnum acknum).Has RTE_TCP_SYN_FLAG
    ∧ ¬ (ackFragment seg seqnum acknum).Has RTE_TCP_PSH_FLAG
    ∧ ¬ (ackFragment seg seqnum acknum).Has RTE_TCP_FIN_FLAG := by
  show ¬ (RTE_TCP_ACK_FLAG &&& RTE_TCP_SYN_FLAG ≠ 0) ∧ ¬ (RTE_TCP_ACK_FLAG &&& RTE_TCP_PSH_FLAG ≠ 0)
    ∧ ¬ (RTE_TCP_ACK_FLAG &&& RTE_TCP_FIN_FLAG ≠ 0)
  decide

theorem dataFragment_flags (x : TcpStream) (buf : List UInt8) (len : ℕ) :
    ¬ (dataFragment x buf len).Has RTE_TCP_SYN_FLAG := by
  show ¬ ((RTE_TCP_ACK_FLAG ||| RTE_TCP_PSH_FLAG) &&& RTE_TCP_SYN_FLAG ≠ 0)
  decide

theorem finFragment_flags (x : TcpStream) (garbage : TcpFragment) :
    ¬ (finFragment x garbage).Has RTE_TCP_SYN_FLAG := by
  show ¬ ((RTE_TCP_FIN_FLAG ||| RTE_TCP_ACK_FLAG) &&& RTE_TCP_SYN_FLAG ≠ 0)
  decide

theorem synAckFragment_has (seg : TcpSegment) (iss : UInt32) :
    (synAckFragment seg iss).Has RTE_TCP_SYN_FLAG ∧ (synAckFragment seg iss).Has RTE_TCP_ACK_FLAG := by
  show (RTE_TCP_SYN_FLAG ||| RTE_TCP_ACK_FLAG) &&& RTE_TCP_SYN_FLAG ≠ 0
    ∧ (RTE_TCP_SYN_FLAG ||| RTE_TCP_ACK_FLAG) &&& RTE_TCP_ACK_FLAG ≠ 0
  decide

theorem synAckFragment_flags (seg : TcpSegment) (iss : UInt32) :
    ¬ ((synAckFragment seg iss).Has RTE_TCP_PSH_FLAG
      ∨ (synAckFragment seg iss).Has RTE_TCP_FIN_FLAG) := by
  show ¬ ((RTE_TCP_SYN_FLAG ||| RTE_TCP_ACK_FLAG) &&& RTE_TCP_PSH_FLAG ≠ 0
    ∨ (RTE_TCP_SYN_FLAG ||| RTE_TCP_ACK_FLAG) &&& RTE_TCP_FIN_FLAG ≠ 0)
  decide

/-! ## What is sent -/

namespace Stack

section Numbers

variable {s s' : Stack} {e : Event} {p : Ptr} {x x' : TcpStream} {notes : List StreamNote}

/-- Nothing is behind the whole of a ring. -/
theorem not_mem_drop_length (ring : List TcpFragment) (f : TcpFragment) :
    f ∉ ring.drop ring.length := by
  rw [List.drop_length]
  exact List.not_mem_nil

/-- Nothing is put into a ring but what is in it then. -/
theorem Evolves.queuedIn_notes (hevolves : Evolves s p x e notes x') : queuedIn notes = [] := by
  cases hevolves <;> rfl

/-- **What an event puts into the ring of a stream**: data or a FIN, by a call that does
nothing else to it, or ACKs. -/
theorem Evolves.put (hevolves : Evolves s p x e notes x') {f : TcpFragment}
    (hf : f ∈ x'.sndbuf.drop x.sndbuf.length) :
    (notes = [] ∧ ((∃ buf len, len ≤ buf.length ∧ f = dataFragment x buf len)
        ∨ ∃ garbage, f = finFragment x garbage))
      ∨ ∃ seg seqnum acknum, f = ackFragment seg seqnum acknum := by
  have hnone : f ∉ x.sndbuf.drop x.sndbuf.length := not_mem_drop_length _ f
  cases hevolves with
  | send hhost hle => exact Or.inl ⟨rfl, Or.inl ⟨_, _, hle, eq_of_mem_drop_length hf⟩⟩
  | close hhost hnonneg hstatus => exact Or.inl ⟨rfl, Or.inr ⟨_, eq_of_mem_drop_length hf⟩⟩
  | push hcksum hdispatch hstatus hpsh hfin =>
    exact Or.inr ⟨_, (mem_drop_advance _ _ _ _ hf).resolve_left hnone⟩
  | fin hcksum hdispatch hstatus hpsh hfin =>
    exact Or.inr ⟨_, (mem_drop_advance _ _ _ _ hf).resolve_left hnone⟩
  | @pushFin seg env hcksum hdispatch hstatus hpsh hfin =>
    refine Or.inr ⟨seg, (mem_drop_advance _ _ _ _ hf).elim (fun hpush => ?_) id⟩
    exact (mem_drop_advance seg seg.tcplen _ env.malloc hpush).resolve_left hnone
  | _ => exact absurd hf hnone

/-- **No SYN** is put into the ring of a stream that is there. -/
theorem Evolves.not_syn (hevolves : Evolves s p x e notes x') :
    ∀ f ∈ queuedIn (notes ++ x'.grown (x.rcvbuf, x.sndbuf)), ¬ f.Has RTE_TCP_SYN_FLAG := by
  intro f hf
  rw [queuedIn_append, hevolves.queuedIn_notes, List.nil_append, queuedIn_grown] at hf
  obtain ⟨-, ⟨buf, len, -, rfl⟩ | ⟨garbage, rfl⟩⟩ | ⟨seg, seqnum, acknum, rfl⟩ := hevolves.put hf
  · exact dataFragment_flags x buf len
  · exact finFragment_flags x garbage
  · exact (ackFragment_flags seg seqnum acknum).1

/-- The number of a stream is the last that was acknowledged. -/
theorem Evolves.sndNxt_eq (hevolves : Evolves s p x e notes x') :
    x'.sndNxt = lastAcked x.sndNxt notes := by
  cases hevolves with
  | @ignore seg env hcksum hdispatch hstatus hpsh hfin =>
    have hmoves : ¬ seg.Moves := not_or.mpr ⟨hpsh, hfin⟩
    exact (if_neg hmoves).symm
  | @push seg env hcksum hdispatch hstatus hpsh hfin =>
    have hmoves : seg.Moves := Or.inl hpsh
    exact (if_pos hmoves).symm
  | @fin seg env hcksum hdispatch hstatus hpsh hfin =>
    have hmoves : seg.Moves := Or.inr hfin
    exact (if_pos hmoves).symm
  | @pushFin seg env hcksum hdispatch hstatus hpsh hfin =>
    have hmoves : seg.Moves := Or.inl hpsh
    exact (if_pos hmoves).symm
  | _ => rfl

/-- **What an event writes carries the number of the stream**, and the number is
the last that was acknowledged. -/
theorem Evolves.carriesAcked (hevolves : Evolves s p x e notes x') :
    CarriesAcked x.sndNxt (notes ++ x'.grown (x.rcvbuf, x.sndbuf))
      ∧ x'.sndNxt = lastAcked x.sndNxt (notes ++ x'.grown (x.rcvbuf, x.sndbuf)) := by
  refine ⟨carriesAcked_append.mpr ⟨?_, carriesAcked_grown.mpr (fun f hf hflags => ?_)⟩, ?_⟩
  · cases hevolves <;> trivial
  · obtain ⟨rfl, ⟨buf, len, -, rfl⟩ | ⟨garbage, rfl⟩⟩ | ⟨seg, seqnum, acknum, rfl⟩ := hevolves.put hf
    · rfl
    · rfl
    · obtain ⟨-, hpsh, hfin⟩ := ackFragment_flags seg seqnum acknum
      exact (hflags.elim hpsh hfin).elim
  · rw [lastAcked_append, lastAcked_grown]
    exact hevolves.sndNxt_eq

/-- **The numbers of a stream that was opened by a SYN**: what was sent since
carries the last number acknowledged, and so will the next. -/
def Numbered (h : List StreamNote) (o : Option TcpStream) : Prop :=
  (∀ f ∈ queuedIn h, ¬ f.Has RTE_TCP_SYN_FLAG)
    ∨ ∃ synAck rest, queuedIn h = synAck :: rest ∧ CarriesAcked synAck.seqnum h
      ∧ ∀ x, o = some x → x.sndNxt = lastAcked synAck.seqnum h

/-- More is noted of a stream. -/
theorem Numbered.append {h h' : List StreamNote} (hnumbered : Numbered h (some x)) {o : Option TcpStream}
    (hcarries : CarriesAcked x.sndNxt h') (ho : ∀ x', o = some x' → x'.sndNxt = lastAcked x.sndNxt h')
    (hsyn : ∀ f ∈ queuedIn h', ¬ f.Has RTE_TCP_SYN_FLAG) : Numbered (h ++ h') o := by
  rcases hnumbered with hnone | ⟨synAck, rest, hfirst, hcarried, hx⟩
  · refine Or.inl (fun f hf => ?_)
    rw [queuedIn_append] at hf
    exact (List.mem_append.mp hf).elim (hnone f) (hsyn f)
  · have hsndNxt := hx x rfl
    refine Or.inr ⟨synAck, rest ++ queuedIn h', ?_, carriesAcked_append.mpr ⟨hcarried, ?_⟩, ?_⟩
    · rw [queuedIn_append, hfirst]
      rfl
    · rw [← hsndNxt]
      exact hcarries
    · intro x' hx'
      rw [lastAcked_append, ← hsndNxt]
      exact ho x' hx'

/-- Nothing of what is sent on is put into the ring. -/
theorem sent_carries (x : TcpStream) (macaddr : UInt32 → Option Mac) (p : Ptr) (acked : UInt32) :
    CarriesAcked acked (((x.out macaddr p).1.filterMap OutPacket.sent?).map Prod.snd)
      ∧ lastAcked acked (((x.out macaddr p).1.filterMap OutPacket.sent?).map Prod.snd) = acked
      ∧ queuedIn (((x.out macaddr p).1.filterMap OutPacket.sent?).map Prod.snd) = [] := by
  unfold TcpStream.out
  split
  · exact ⟨trivial, rfl, rfl⟩
  · split
    · exact ⟨trivial, rfl, rfl⟩
    · exact ⟨trivial, rfl, rfl⟩

/-- **Whatever becomes of a stream**, it stays so. -/
theorem Becomes.numbered {o o' : Option TcpStream} {h out : List StreamNote}
    (hbecomes : Becomes s e p o out o') (hnew : s.next ≤ p → h = []) (hnumbered : Numbered h o) :
    Numbered (h ++ out) o' := by
  cases hbecomes with
  | absent =>
    rw [List.append_nil]
    exact hnumbered
  | stays x =>
    rw [List.append_nil]
    exact hnumbered
  | evolves hevolves =>
    obtain ⟨hcarries, hx'⟩ := hevolves.carriesAcked
    refine hnumbered.append hcarries ?_ hevolves.not_syn
    rintro _ ⟨⟩
    exact hx'
  | born hp hborn =>
    obtain rfl := hnew hp.ge
    cases hborn with
    | made => exact Or.inl (fun f hf => absurd hf List.not_mem_nil)
    | halfOpened hcksum hdispatch hstatus hsyn hmalloc =>
      exact Or.inl (fun f hf => absurd hf List.not_mem_nil)
    | @opened seg env q listener hcksum hdispatch hstatus hsyn hmalloc =>
      refine Or.inr ⟨synAckFragment seg env.iss, [], rfl, ?_, ?_⟩
      · exact ⟨fun hflags => absurd hflags (synAckFragment_flags seg env.iss), trivial⟩
      · rintro _ ⟨⟩
        rfl
  | removed hstatus =>
    refine hnumbered.append ?_ (fun _ hx => nomatch hx) (fun f hf => absurd hf List.not_mem_nil)
    exact trivial
  | @out x macaddr he =>
    obtain ⟨hcarries, hlast, hnone⟩ := sent_carries x macaddr p x.sndNxt
    refine hnumbered.append hcarries ?_ ?_
    · rintro _ ⟨⟩
      rw [hlast]
      obtain ⟨sndbuf, hout⟩ := out_eq x macaddr p
      rw [hout]
    · intro f hf
      rw [hnone] at hf
      exact absurd hf List.not_mem_nil

end Numbers

/-- **What is sent is contiguous exactly if the peer keeps up**, in every run, for
every stream whose first fragment is a SYN-ACK. -/
theorem contiguous_iff {log : List TcpNote} {s : Stack}
    (hreach : tcpMachine.Reach (fun _ _ => True) init log s) {p : Ptr} {synAck : TcpFragment}
    {rest : List TcpFragment} (hfirst : queuedIn (history p log) = synAck :: rest)
    (hsyn : synAck.Has RTE_TCP_SYN_FLAG) :
    Contiguous synAck.seqnum none (queuedIn (history p log))
      ↔ KeepsUp synAck.seqnum synAck.seqnum none (history p log) := by
  have hnumbered : Numbered (history p log) (s.stream? p) := by
    refine reach_stream (I := fun p log o => Numbered (history p log) o) (fun p => Or.inl ?_) ?_
      hreach p
    · exact fun f hf => absurd hf List.not_mem_nil
    · intro log s e s' p hallotted hnew _ hbecomes hnumbered
      rw [history_append]
      exact hbecomes.numbered hnew hnumbered
  rcases hnumbered with hnone | ⟨synAck', rest', hfirst', hcarries, -⟩
  · rw [hfirst] at hnone
    exact absurd hsyn (hnone synAck List.mem_cons_self)
  · obtain ⟨rfl, rfl⟩ := List.cons.inj (hfirst.symm.trans hfirst')
    show Contiguous _ (Option.map (fun n : ℕ => synAck.seqnum + 1 + UInt32.ofNat n) none) _ ↔ _
    exact contiguous_iff_keepsUp hcarries

/-- A server that answers each request once, and closes after the last answer was
acknowledged. -/
def answersOnce : List Event :=
  connects ++ [.segment (peerSegment (RTE_TCP_PSH_FLAG ||| RTE_TCP_ACK_FLAG) 501 1001 [104]) peerEnv,
    .nsend 5 [65, 66] 2 (fun _ => true),
    .segment (peerSegment (RTE_TCP_PSH_FLAG ||| RTE_TCP_ACK_FLAG) 502 1003 [105]) peerEnv,
    .nsend 5 [67] 1 (fun _ => true),
    .segment (peerSegment (RTE_TCP_FIN_FLAG ||| RTE_TCP_ACK_FLAG) 503 1004 []) peerEnv,
    .nclose 5 true TcpFragment.zero]

set_option maxRecDepth 8000 in
/-- What it sends is contiguous. -/
theorem contiguous_iff_answersOnce :
    ∃ log s, tcpMachine.Reach (fun _ _ => True) init log s
      ∧ (queuedIn (history 3 log)).map TcpFragment.seqnum
        = [1000, 1001, 1001, 1003, 1003, 1004, 1004]
      ∧ Contiguous 1000 none (queuedIn (history 3 log)) := by
  obtain ⟨outs, s, hrun, hseqnum, ⟨synAck, rest, hfirst, hsyn, hiss⟩, hkeeps⟩ :
      ∃ outs s, tcpMachine.run init answersOnce = some (outs, s)
      ∧ (queuedIn (history 3 outs.flatten)).map TcpFragment.seqnum
        = [1000, 1001, 1001, 1003, 1003, 1004, 1004]
      ∧ (∃ synAck rest, queuedIn (history 3 outs.flatten) = synAck :: rest
        ∧ synAck.Has RTE_TCP_SYN_FLAG ∧ synAck.seqnum = 1000)
      ∧ KeepsUp 1000 1000 none (history 3 outs.flatten) :=
    ⟨_, _, rfl, rfl, ⟨_, _, rfl, by decide, rfl⟩, by decide⟩
  have hreach := Machine.Reach.of_run hrun
  refine ⟨outs.flatten, s, hreach, hseqnum, ?_⟩
  have hiff := contiguous_iff hreach hfirst hsyn
  rw [hiss] at hiff
  exact hiff.mpr hkeeps

set_option maxRecDepth 8000 in
/-- Two answers to one request carry the same number. -/
theorem not_contiguous :
    ¬ ∀ log s, tcpMachine.Reach (fun _ _ => True) init log s →
      ∀ p synAck rest, queuedIn (history p log) = synAck :: rest →
        synAck.Has RTE_TCP_SYN_FLAG → AcksSent synAck.seqnum 0 (history p log) →
        Contiguous synAck.seqnum none (queuedIn (history p log)) := by
  intro h
  obtain ⟨outs, s, hrun, synAck, rest, hfirst, hsyn, hacks, hnot⟩ :
      ∃ outs s, tcpMachine.run init (connects ++
        [.segment (peerSegment (RTE_TCP_PSH_FLAG ||| RTE_TCP_ACK_FLAG) 501 1001 [104]) peerEnv,
          .nsend 5 [65] 1 (fun _ => true), .nsend 5 [66] 1 (fun _ => true)]) = some (outs, s)
      ∧ ∃ synAck rest, queuedIn (history 3 outs.flatten) = synAck :: rest
        ∧ synAck.Has RTE_TCP_SYN_FLAG ∧ AcksSent synAck.seqnum 0 (history 3 outs.flatten)
        ∧ ¬ Contiguous synAck.seqnum none (queuedIn (history 3 outs.flatten)) :=
    ⟨_, _, rfl, _, _, rfl, by decide, by exact And.intro (by decide) trivial, by decide⟩
  exact hnot (h _ _ (Machine.Reach.of_run hrun) 3 synAck rest hfirst hsyn hacks)

end Stack

end Ustack
