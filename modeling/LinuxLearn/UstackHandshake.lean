import LinuxLearn.UstackSequence

/-!
# Who is established, and who is accepted

A SYN opens a stream, an ACK establishes it, and `naccept` gives it a
descriptor. Nothing of this is checked: the number that the ACK
acknowledges is compared and not used, `get_accept_tcb` takes the first
stream of the port that has no descriptor, and `nclose` puts a stream into
LAST_ACK from any state but LISTEN.

What is to hold holds in runs where all this does not matter (`Careful`):
ACKs to half-open streams acknowledge the SYN-ACK, the latest stream of the
port that is not accepted yet has got its ACK when `naccept` is called, and
no stream is closed before it is established. No stream is accepted twice,
whatever happens.
-/

namespace Ustack

/-- **ESTABLISHED or a later state.** -/
def TcpStatus.Late : TcpStatus → Prop
  | .closed | .listen | .synRcvd | .synSent => False
  | _ => True

instance : DecidablePred TcpStatus.Late := fun status => by
  cases status <;> unfold TcpStatus.Late <;> infer_instance

/-- **A segment has the four-tuple of a stream.** -/
structure TcpStream.NamedBy (x : TcpStream) (seg : TcpSegment) : Prop where
  sip : x.sip = seg.srcAddr
  dip : x.dip = seg.dstAddr
  sport : x.sport = seg.srcPort
  dport : x.dport = seg.dstPort

/-- **The handshake of a stream**: its SYN-ACK was acknowledged, by a segment with
its four-tuple. -/
def Shook (log : List TcpNote) (p : Ptr) (x : TcpStream) : Prop :=
  ∃ synAck ack, .stream p (.queued synAck) ∈ log ∧ synAck.Has RTE_TCP_SYN_FLAG
    ∧ .received ack ∈ log ∧ ack.Has RTE_TCP_ACK_FLAG ∧ ack.recvAck = synAck.seqnum + 1
    ∧ x.NamedBy ack

/-- **Three-way handshake and accept.** A stream in ESTABLISHED or a later state had
its handshake, and one that was given a descriptor had been established before, and
had not been given another. -/
structure Handshakes (log : List TcpNote) (s : Stack) : Prop where
  shook : ∀ p x, (p, x) ∈ s.tcbSet → x.status.Late → Shook log p x
  established : ∀ before p fd after, log = before ++ .stream p (.accepted fd) :: after → 0 ≤ fd →
    ∃ ack, .stream p (.established ack) ∈ before
  once : ∀ before p fd after, log = before ++ .stream p (.accepted fd) :: after → 0 ≤ fd →
    ∀ fd', 0 ≤ fd' → .stream p (.accepted fd') ∉ before

/-! ## Histories -/

theorem mem_history {p : Ptr} {n : StreamNote} {log : List TcpNote} :
    n ∈ history p log ↔ .stream p n ∈ log := by
  unfold history
  rw [List.mem_filterMap]
  constructor
  · rintro ⟨m, hm, hn⟩
    cases m with
    | received seg => cases hn
    | stream q note =>
      simp only at hn
      split at hn
      · next hq =>
        subst hq
        exact Option.some.inj hn ▸ hm
      · cases hn
  · exact fun hm => ⟨_, hm, if_pos rfl⟩

/-- Established, and not accepted yet. -/
def Acceptable (h : List StreamNote) : Prop :=
  (∃ ack, .established ack ∈ h) ∧ ∀ fd, 0 ≤ fd → .accepted fd ∉ h

/-- **Whenever a stream was given a descriptor, it was to be accepted.** -/
def AcceptsOnce (h : List StreamNote) : Prop :=
  ∀ before fd after, h = before ++ .accepted fd :: after → 0 ≤ fd → Acceptable before

/-- It is accepted again only where it is to be. -/
theorem AcceptsOnce.append {h out : List StreamNote} (honce : AcceptsOnce h)
    (hout : ∀ before fd after, out = before ++ .accepted fd :: after → 0 ≤ fd →
      Acceptable (h ++ before)) : AcceptsOnce (h ++ out) := by
  intro before fd after heq hfd
  rcases List.append_eq_append_iff.mp heq with ⟨before', rfl, hout'⟩ | ⟨rest, rfl, hrest⟩
  · exact hout before' fd after hout' hfd
  · cases rest with
    | nil =>
      have hacceptable := hout [] fd after hrest.symm hfd
      rwa [List.append_nil, List.append_nil] at hacceptable
    | cons n rest =>
      obtain ⟨rfl, -⟩ := List.cons.inj hrest
      exact honce before fd rest rfl hfd

/-- Or not at all. -/
theorem AcceptsOnce.append_of_not_mem {h out : List StreamNote} (honce : AcceptsOnce h)
    (hout : ∀ fd, .accepted fd ∉ out) : AcceptsOnce (h ++ out) :=
  honce.append (fun _ fd _ heq _ => absurd (heq ▸ List.mem_append_right _ List.mem_cons_self) (hout fd))

theorem accepted_not_mem_grown (x : TcpStream) (rings : List TcpFragment × List TcpFragment) (fd : ℤ) :
    StreamNote.accepted fd ∉ x.grown rings := by
  intro hmem
  rcases List.mem_append.mp hmem with hmem | hmem
  · obtain ⟨f, -, hf⟩ := List.mem_map.mp hmem
    cases hf
  · obtain ⟨f, -, hf⟩ := List.mem_map.mp hmem
    cases hf

namespace Stack

section Handshake

variable {s s' : Stack} {e : Event} {p : Ptr} {x x' : TcpStream} {notes : List StreamNote}
  {log more : List TcpNote}

/-- **A run that takes care.** -/
def Careful (s : Stack) : Event → Prop
  | .segment seg _ =>
    match s.ngTcpStreamSearch seg.srcAddr seg.dstAddr seg.srcPort seg.dstPort with
    | some (_, x) => seg.cksumOk = true → x.status = .synRcvd → seg.Has RTE_TCP_ACK_FLAG →
      seg.recvAck = x.sndNxt + 1
    | none => True
  | .naccept sockfd =>
    match s.getHostinfoFromfd sockfd with
    | some (.tcp _ listener) =>
      match s.getAcceptTcb listener.dport with
      | some (_, x) => 0 ≤ s.fdTable.getFdFrombitmap.1 → x.status.Late
      | none => True
    | _ => True
  | .nclose fd _ _ =>
    match s.getHostinfoFromfd fd with
    | some (.tcp _ x) => x.status = .listen ∨ x.status.Late
    | _ => True
  | _ => True

/-- It can be decided. -/
def Careful.dec (s : Stack) : ∀ e : Event, Decidable (Careful s e)
  | .segment seg _ =>
    match h : s.ngTcpStreamSearch seg.srcAddr seg.dstAddr seg.srcPort seg.dstPort with
    | some (_, x) =>
      decidable_of_iff (seg.cksumOk = true → x.status = .synRcvd → seg.Has RTE_TCP_ACK_FLAG →
        seg.recvAck = x.sndNxt + 1) (by simp only [Careful, h])
    | none => isTrue (by simp only [Careful, h])
  | .naccept sockfd =>
    match h : s.getHostinfoFromfd sockfd with
    | some (.tcp _ listener) =>
      match h' : s.getAcceptTcb listener.dport with
      | some (_, x) =>
        decidable_of_iff (0 ≤ s.fdTable.getFdFrombitmap.1 → x.status.Late)
          (by simp only [Careful, h, h'])
      | none => isTrue (by simp only [Careful, h, h'])
    | some (.udp _ _) | some (.epoll _ _) | none => isTrue (by simp only [Careful, h])
  | .nclose fd _ _ =>
    match h : s.getHostinfoFromfd fd with
    | some (.tcp _ x) =>
      decidable_of_iff (x.status = .listen ∨ x.status.Late) (by simp only [Careful, h])
    | some (.udp _ _) | some (.epoll _ _) | none => isTrue (by simp only [Careful, h])
  | .nsocket _ _ | .nbind _ _ | .nlisten _ | .nsend _ _ _ _ | .nrecv _ _ | .nepollCreate _ _
  | .nepollCtl _ _ _ _ _ | .nepollWait _ _ _ | .out _ => isTrue trivial

instance (s : Stack) (e : Event) : Decidable (Careful s e) := Careful.dec s e

/-- Where a segment goes to a stream that does not listen, it has its four-tuple. -/
theorem namedBy_of_dispatches {seg : TcpSegment} (hdispatch : s.Dispatches seg p x)
    (hstatus : x.status ≠ .listen) : x.NamedBy seg := by
  unfold Dispatches ngTcpStreamSearch at hdispatch
  rcases Option.or_eq_some_iff.mp hdispatch with h | ⟨-, h⟩
  · obtain ⟨hsip, hdip, hsport, hdport⟩ := NodeList.holds_of_first h
    exact ⟨hsip, hdip, hsport, hdport⟩
  · exact absurd (NodeList.holds_of_first h).2 hstatus

/-- **What is known of a stream**: which SYN-ACK is out while it is half open, that it
had its handshake afterwards, and that it was not given a descriptor while it has
none. -/
structure Shaken (log : List TcpNote) (p : Ptr) (x : TcpStream) : Prop where
  synRcvd : x.status = .synRcvd → ∃ synAck, .queued synAck ∈ history p log
    ∧ synAck.Has RTE_TCP_SYN_FLAG ∧ synAck.seqnum = x.sndNxt
  late : x.status.Late → Shook log p x ∧ ∃ ack, .established ack ∈ history p log
  unaccepted : x.fd < 0 → ∀ fd, 0 ≤ fd → .accepted fd ∉ history p log

/-- More is noted. -/
theorem Shook.append (hshook : Shook log p x) (more : List TcpNote) : Shook (log ++ more) p x := by
  obtain ⟨synAck, ack, hsynAck, hsyn, hack, hrest⟩ := hshook
  exact ⟨synAck, ack, List.mem_append_left _ hsynAck, hsyn, List.mem_append_left _ hack, hrest⟩

/-- A stream keeps what it had while its name, its state and its descriptor stay, or
its state goes back. -/
theorem Shaken.append (h : Shaken log p x)
    (hsynRcvd : x'.status = .synRcvd → x.status = .synRcvd ∧ x'.sndNxt = x.sndNxt)
    (hlate : x'.status.Late → x.status.Late ∧ ∀ seg, x.NamedBy seg → x'.NamedBy seg)
    (hfd : x'.fd < 0 → x.fd < 0)
    (hmore : x'.fd < 0 → ∀ fd, 0 ≤ fd → .accepted fd ∉ history p more) :
    Shaken (log ++ more) p x' where
  synRcvd := by
    intro hstatus
    obtain ⟨hx, hsndNxt⟩ := hsynRcvd hstatus
    obtain ⟨synAck, hmem, hsyn, hseqnum⟩ := h.synRcvd hx
    rw [history_append]
    exact ⟨synAck, List.mem_append_left _ hmem, hsyn, hseqnum.trans hsndNxt.symm⟩
  late := by
    intro hstatus
    obtain ⟨hx, hnamed⟩ := hlate hstatus
    obtain ⟨⟨synAck, ack, hsynAck, hsyn, hack, hflag, hnumber, hname⟩, hestablished⟩ := h.late hx
    refine ⟨⟨synAck, ack, List.mem_append_left _ hsynAck, hsyn, List.mem_append_left _ hack, hflag,
      hnumber, hnamed ack hname⟩, ?_⟩
    rw [history_append]
    exact hestablished.imp (fun _ hmem => List.mem_append_left _ hmem)
  unaccepted := by
    intro hneg fd hfd'
    rw [history_append, List.mem_append]
    exact not_or.mpr ⟨h.unaccepted (hfd hneg) fd hfd', hmore hneg fd hfd'⟩

/-- What is noted of an event where nothing is accepted. -/
theorem accepted_not_mem (hnotes : ∀ fd, .accepted fd ∉ notes)
    (rings : List TcpFragment × List TcpFragment) (fd : ℤ) :
    StreamNote.accepted fd ∉ notes ++ x'.grown rings :=
  fun hmem => (List.mem_append.mp hmem).elim (hnotes fd) (accepted_not_mem_grown x' rings fd)

/-- **The invariant of one stream.** -/
def HandshakeInv (p : Ptr) (log : List TcpNote) (o : Option TcpStream) : Prop :=
  AcceptsOnce (history p log) ∧ ∀ x, o = some x → Shaken log p x

/-- Nothing is accepted, and the stream keeps what it had. -/
theorem HandshakeInv.frame (h : HandshakeInv p log (some x))
    (hmore : ∀ fd, .accepted fd ∉ history p more)
    (hsynRcvd : x'.status = .synRcvd → x.status = .synRcvd ∧ x'.sndNxt = x.sndNxt)
    (hlate : x'.status.Late → x.status.Late ∧ ∀ seg, x.NamedBy seg → x'.NamedBy seg)
    (hfd : x'.fd = x.fd) : HandshakeInv p (log ++ more) (some x') := by
  refine ⟨?_, ?_⟩
  · rw [history_append]
    exact h.1.append_of_not_mem hmore
  · rintro _ ⟨⟩
    exact (h.2 x rfl).append hsynRcvd hlate (fun hneg => hfd ▸ hneg) (fun _ fd _ => hmore fd)

/-- **A stream is accepted.** -/
theorem HandshakeInv.accept (h : HandshakeInv p log (some x)) {fd : ℤ} (hneg : x.fd < 0)
    (hlate : 0 ≤ fd → x.status.Late) (hmore : history p more = [.accepted fd]) :
    HandshakeInv p (log ++ more) (some { x with fd := fd }) := by
  have hshaken := h.2 x rfl
  refine ⟨?_, ?_⟩
  · rw [history_append, hmore]
    refine h.1.append (fun before fd' after heq hfd' => ?_)
    cases before with
    | nil =>
      obtain ⟨rfl, -⟩ : fd = fd' ∧ _ := by simpa using heq
      rw [List.append_nil]
      exact ⟨(hshaken.late (hlate hfd')).2, hshaken.unaccepted hneg⟩
    | cons n before =>
      have hnil := (List.cons.inj heq).2
      simp at hnil
  · rintro _ ⟨⟩
    refine hshaken.append (fun hstatus => ⟨hstatus, rfl⟩)
      (fun hstatus => ⟨hstatus, fun seg hname => ⟨hname.sip, hname.dip, hname.sport, hname.dport⟩⟩)
      (fun _ => hneg) (fun hneg' fd' hfd' hmem => ?_)
    rw [hmore] at hmem
    obtain rfl : fd' = fd := by simpa using hmem
    exact absurd hneg' (not_lt.mpr hfd')

/-- **A stream is established.** -/
theorem HandshakeInv.handshake (h : HandshakeInv p log (some x)) {seg : TcpSegment}
    (hstatus : x.status = .synRcvd) (hack : seg.Has RTE_TCP_ACK_FLAG)
    (hnumber : seg.recvAck = x.sndNxt + 1) (hname : x.NamedBy seg) (hreceived : .received seg ∈ more)
    (hmore : history p more = [.established seg]) :
    HandshakeInv p (log ++ more) (some { x with status := .established }) := by
  have hshaken := h.2 x rfl
  have hnot : ∀ fd, .accepted fd ∉ history p more := by
    intro fd
    rw [hmore]
    simp
  refine ⟨?_, ?_⟩
  · rw [history_append]
    exact h.1.append_of_not_mem hnot
  · rintro _ ⟨⟩
    refine ⟨(fun he => nomatch he), fun _ => ⟨?_, seg, ?_⟩, fun hneg fd hfd hmem => ?_⟩
    · obtain ⟨synAck, hsynAck, hsyn, hseqnum⟩ := hshaken.synRcvd hstatus
      refine ⟨synAck, seg, List.mem_append_left _ (mem_history.mp hsynAck), hsyn,
        List.mem_append_right _ hreceived, hack, ?_, ?_⟩
      · rw [hnumber, hseqnum]
      · exact ⟨hname.sip, hname.dip, hname.sport, hname.dport⟩
    · rw [history_append, hmore]
      exact List.mem_append_right _ (List.mem_singleton_self _)
    · rw [history_append] at hmem
      exact (List.mem_append.mp hmem).elim (hshaken.unaccepted hneg fd hfd) (hnot fd)

/-- **An event that writes to a stream.** -/
theorem HandshakeInv.evolves (h : HandshakeInv p log (some x)) (hevolves : Evolves s p x e notes x')
    (hcareful : Careful s e) (hreceived : ∀ n ∈ e.received, n ∈ more)
    (hmore : history p more = notes ++ x'.grown (x.rcvbuf, x.sndbuf)) :
    HandshakeInv p (log ++ more) (some x') := by
  have hquiet : (∀ fd, .accepted fd ∉ notes) → ∀ fd, .accepted fd ∉ history p more := by
    intro hnotes fd
    rw [hmore]
    exact accepted_not_mem hnotes _ fd
  have hsame : ∀ {y : TcpStream}, y.sip = x.sip → y.dip = x.dip → y.sport = x.sport →
      y.dport = x.dport → ∀ seg, x.NamedBy seg → y.NamedBy seg :=
    fun hsip hdip hsport hdport seg hname => ⟨hsip.trans hname.sip, hdip.trans hname.dip,
      hsport.trans hname.sport, hdport.trans hname.dport⟩
  cases hevolves with
  | bind hhost =>
    exact h.frame (hquiet (by simp)) (fun he => by cases he) (fun hlate => hlate.elim) rfl
  | listen hhost =>
    exact h.frame (hquiet (by simp)) (fun he => by cases he) (fun hlate => hlate.elim) rfl
  | @accept sockfd q listener hhost htarget =>
    refine h.accept ?_ ?_ ?_
    · rw [(NodeList.holds_of_first htarget).2]
      decide
    · intro hfd
      unfold Careful at hcareful
      simp only [hhost, htarget] at hcareful
      exact hcareful hfd
    · rw [hmore]
      exact congrArg _ (grown_self x)
  | send hhost hle =>
    exact h.frame (hquiet (by simp)) (fun he => ⟨he, rfl⟩)
      (fun hlate => ⟨hlate, hsame rfl rfl rfl rfl⟩) rfl
  | recv hhost hlength =>
    exact h.frame (hquiet (by simp)) (fun he => ⟨he, rfl⟩)
      (fun hlate => ⟨hlate, hsame rfl rfl rfl rfl⟩) rfl
  | close hhost hnonneg hstatus =>
    refine h.frame (hquiet (by simp)) (fun he => by cases he)
      (fun _ => ⟨?_, hsame rfl rfl rfl rfl⟩) rfl
    unfold Careful at hcareful
    simp only [hhost] at hcareful
    exact hcareful.resolve_left hstatus
  | @handshake seg env hcksum hdispatch hstatus hack =>
    refine h.handshake hstatus hack ?_ (namedBy_of_dispatches hdispatch (by rw [hstatus]; decide)) ?_ ?_
    · unfold Careful at hcareful
      simp only at hcareful
      rw [hdispatch] at hcareful
      exact hcareful hcksum hstatus hack
    · refine hreceived _ ?_
      unfold Event.received
      simp only
      rw [if_pos hcksum]
      exact List.mem_singleton_self _
    · rw [hmore]
      exact congrArg _ (grown_self x)
  | ignore hcksum hdispatch hstatus hpsh hfin =>
    exact h.frame (hquiet (by simp)) (fun he => ⟨he, rfl⟩)
      (fun hlate => ⟨hlate, hsame rfl rfl rfl rfl⟩) rfl
  | push hcksum hdispatch hstatus hpsh hfin =>
    refine h.frame (hquiet (by simp)) (fun he => ?_) (fun hlate => ⟨hlate, hsame rfl rfl rfl rfl⟩) rfl
    cases hstatus.symm.trans he
  | fin hcksum hdispatch hstatus hpsh hfin =>
    refine h.frame (hquiet (by simp)) (fun he => by cases he) (fun _ => ⟨?_, hsame rfl rfl rfl rfl⟩) rfl
    rw [hstatus]
    trivial
  | pushFin hcksum hdispatch hstatus hpsh hfin =>
    refine h.frame (hquiet (by simp)) (fun he => by cases he) (fun _ => ⟨?_, hsame rfl rfl rfl rfl⟩) rfl
    rw [hstatus]
    trivial

/-- A new stream. -/
theorem HandshakeInv.born (hborn : Born s e x) (hnew : history p log = [])
    (hmore : history p more = x.grown ([], [])) : HandshakeInv p (log ++ more) (some x) := by
  have hhistory : history p (log ++ more) = x.grown ([], []) := by
    rw [history_append, hnew, hmore, List.nil_append]
  have hnot : ∀ fd, .accepted fd ∉ history p (log ++ more) := by
    rw [hhistory]
    exact accepted_not_mem_grown x _
  refine ⟨?_, ?_⟩
  · exact fun before fd after heq _ =>
      absurd (heq ▸ List.mem_append_right _ List.mem_cons_self) (hnot fd)
  · rintro _ ⟨⟩
    have hunaccepted : x.fd < 0 → ∀ fd, 0 ≤ fd → .accepted fd ∉ history p (log ++ more) :=
      fun _ fd _ => hnot fd
    cases hborn with
    | made => exact ⟨(fun he => nomatch he), fun hlate => hlate.elim, hunaccepted⟩
    | halfOpened hcksum hdispatch hstatus hsyn hmalloc =>
      exact ⟨(fun he => nomatch he), fun hlate => hlate.elim, hunaccepted⟩
    | @opened seg env q listener hcksum hdispatch hstatus hsyn hmalloc =>
      refine ⟨fun _ => ⟨synAckFragment seg env.iss, ?_, (synAckFragment_has seg env.iss).1, rfl⟩,
        fun hlate => hlate.elim, hunaccepted⟩
      rw [hhistory]
      exact List.mem_singleton_self _

/-- **Whatever becomes of a stream**, the invariant is kept. -/
theorem Becomes.handshakeInv {o o' : Option TcpStream}
    (hbecomes : Becomes s e p o (history p more) o') (hnew : s.next ≤ p → history p log = [])
    (hcareful : Careful s e) (hreceived : ∀ n ∈ e.received, n ∈ more) (h : HandshakeInv p log o) :
    HandshakeInv p (log ++ more) o' := by
  have hnone : history p more = [] → AcceptsOnce (history p (log ++ more)) := by
    intro hmore
    rw [history_append, hmore, List.append_nil]
    exact h.1
  generalize hmore : history p more = out at hbecomes
  cases hbecomes with
  | absent => exact ⟨hnone hmore, fun _ hx => nomatch hx⟩
  | removed hstatus => exact ⟨hnone hmore, fun _ hx => nomatch hx⟩
  | stays x =>
    refine h.frame (fun fd => ?_) (fun he => ⟨he, rfl⟩) (fun hlate => ⟨hlate, fun _ hname => hname⟩) rfl
    rw [hmore]
    exact List.not_mem_nil
  | evolves hevolves => exact h.evolves hevolves hcareful hreceived hmore
  | born hp hborn => exact .born hborn (hnew hp.ge) hmore
  | @out x macaddr he =>
    obtain ⟨sndbuf, hout⟩ := out_eq x macaddr p
    refine h.frame (fun fd => ?_) ?_ ?_ ?_
    · rw [hmore]
      intro hmem
      obtain ⟨y, hy, hn⟩ := List.mem_map.mp hmem
      obtain ⟨packet, -, hpacket⟩ := List.mem_filterMap.mp hy
      cases packet with
      | arp sip dip => cases hpacket
      | tcp q dstmac f =>
        obtain rfl := Option.some.inj hpacket
        cases hn
    · rw [hout]
      exact fun he => ⟨he, rfl⟩
    · rw [hout]
      exact fun hlate => ⟨hlate, fun seg hname => ⟨hname.sip, hname.dip, hname.sport, hname.dport⟩⟩
    · rw [hout]

/-- **Three-way handshake and accept**, in every run that takes care. -/
theorem handshakes (hreach : tcpMachine.Reach Careful init log s) : Handshakes log s := by
  have hinv : ∀ p, HandshakeInv p log (s.stream? p) := by
    refine reach_stream (fun p => ?_) ?_ hreach
    · exact ⟨fun before fd after heq _ => by simp [history] at heq, fun _ hx => nomatch hx⟩
    · intro log s e s' p hallotted hnew hcareful hbecomes h
      exact hbecomes.handshakeInv hnew hcareful (fun n hn => List.mem_append_left _ hn) h
  have hsplit : ∀ {before p fd after}, log = before ++ .stream p (.accepted fd) :: after → 0 ≤ fd →
      Acceptable (history p before) := by
    intro before p fd after heq hfd
    refine (hinv p).1 (history p before) fd (history p after) ?_ hfd
    rw [heq, history_append]
    exact congrArg _ (List.filterMap_cons_some (if_pos rfl))
  refine ⟨fun p x hmem hlate => ?_, fun before p fd after heq hfd => ?_,
    fun before p fd after heq hfd fd' hfd' hmem => ?_⟩
  · have hx := (stream?_eq_some (reach_allotted hreach).1).mpr hmem
    exact ((hinv p).2 x hx |>.late hlate).1
  · obtain ⟨⟨ack, hack⟩, -⟩ := hsplit heq hfd
    exact ⟨ack, mem_history.mp hack⟩
  · exact (hsplit heq hfd).2 fd' hfd' (mem_history.mpr hmem)

set_option maxRecDepth 8000 in
/-- A peer that connects and is accepted. -/
theorem handshakes_connects :
    ∃ log s, tcpMachine.Reach Careful init log s ∧ .stream 3 (.accepted 5) ∈ log
      ∧ Handshakes log s := by
  obtain ⟨outs, s, hrun, hfds⟩ :
      ∃ outs s, (tcpMachine.guard Careful).run init connects = some (outs, s)
      ∧ (history 3 outs.flatten).filterMap (fun n => match n with
        | .accepted fd => some fd
        | _ => none) = [5] := ⟨_, _, rfl, rfl⟩
  have hreach := Machine.Reach.of_run_guard hrun
  refine ⟨outs.flatten, s, hreach, ?_, handshakes hreach⟩
  have hmem : (5 : ℤ) ∈ [5] := List.mem_singleton_self _
  rw [← hfds] at hmem
  obtain ⟨n, hn, hfive⟩ := List.mem_filterMap.mp hmem
  cases n with
  | accepted fd =>
    obtain rfl := Option.some.inj hfive
    exact mem_history.mp hn
  | _ => cases hfive

/-- What is received acknowledges nothing, and what is queued starts at 1000. -/
def acksNothing (n : TcpNote) : Bool :=
  match n with
  | .received seg => seg.recvAck = 0
  | .stream _ (.queued f) => f.seqnum = 1000
  | _ => true

set_option maxRecDepth 8000 in
/-- An ACK of nothing establishes a stream. -/
theorem not_handshakes :
    ¬ ∀ log s, tcpMachine.Reach (fun _ _ => True) init log s → Handshakes log s := by
  intro h
  obtain ⟨outs, s, hrun, x, hmem, hlate, hall⟩ :
      ∃ outs s, tcpMachine.run init
        [.nsocket .stream (fun _ => true), .nbind 3 ⟨4, 0⟩, .nlisten 3, .nepollCreate 1 true,
          .segment (peerSegment RTE_TCP_SYN_FLAG 500 0 []) peerEnv,
          .segment (peerSegment RTE_TCP_ACK_FLAG 501 0 []) peerEnv] = some (outs, s)
      ∧ ∃ x, (3, x) ∈ s.tcbSet ∧ x.status.Late ∧ outs.flatten.all acksNothing = true :=
    ⟨_, _, rfl, _, List.mem_cons_self, trivial, rfl⟩
  obtain ⟨synAck, ack, hqueued, -, hreceived, -, hnumber, -⟩ :=
    (h _ _ (Machine.Reach.of_run hrun)).shook 3 x hmem hlate
  have hack : ack.recvAck = 0 := by simpa [acksNothing] using List.all_eq_true.mp hall _ hreceived
  have hsynAck : synAck.seqnum = 1000 := by simpa [acksNothing] using List.all_eq_true.mp hall _ hqueued
  rw [hack, hsynAck] at hnumber
  exact absurd hnumber (by decide)

end Handshake

end Stack

end Ustack
