import LinuxLearn.UstackHandshake
import LinuxLearn.UstackTcbSet

/-!
# One control block for each connection

A segment is looked up by its four-tuple first, and a listener is found for
it only where no stream has that. A stream that a SYN opens is in LISTEN
while it is made, but not any more when it is found: it is in SYN_RCVD then,
and never in LISTEN again. So, where one listener serves its port, a SYN
that is sent again goes to the stream that it has opened.

`Connected` is the invariant: the listener is in the table, the only one in
LISTEN, and no two streams have one four-tuple. Ports of peers are not zero,
which is what the listener has there.
-/

namespace Ustack

/-- `(sip, dip, sport, dport)`. -/
def TcpStream.fourTuple (x : TcpStream) : UInt32 × UInt32 × UInt16 × UInt16 :=
  (x.sip, x.dip, x.sport, x.dport)

/-- **What an event leaves of a stream**: its four-tuple, whether it listens, and its
descriptor where it has one. -/
structure TcpStream.Keeps (x x' : TcpStream) : Prop where
  fourTuple : x'.fourTuple = x.fourTuple
  listen : x'.status = .listen ↔ x.status = .listen
  fd : x'.fd = x.fd ∨ x.fd = -1

theorem TcpStream.Keeps.refl (x : TcpStream) : x.Keeps x := ⟨rfl, Iff.rfl, Or.inl rfl⟩

namespace Stack

/-- **What happens where one listener serves**, with the descriptor `listenfd`: segments
come from ports other than zero and there is memory for what they bring, the
listener is not closed, and no socket is made besides it. -/
def Serves (listenfd : ℕ) : Event → Prop
  | .segment seg env => seg.srcPort ≠ 0 ∧ ∀ i, env.malloc i = true
  | .nclose fd _ _ => fd ≠ listenfd
  | .nsocket _ _ | .nbind _ _ | .nlisten _ | .nepollCreate _ _ => False
  | _ => True

/-! ## Descriptors that are taken -/

section Taken

variable {s s' : Stack} {e : Event} {n listenfd : ℕ}

/-- Giving out a descriptor takes none back. -/
theorem taken_getFdFrombitmap {t : FdTable} (h : t.Taken n) : t.getFdFrombitmap.2.Taken n := by
  obtain ⟨m, -, -, -, -, htaken⟩ | ⟨hfull, -⟩ := t.getFdFrombitmap_cases
  · exact (htaken n).mpr (Or.inr h)
  · rw [hfull]
    exact h

theorem receive_fdTable {p : Ptr} {x x' : TcpStream} {seg : TcpSegment} {tcplen : ℤ}
    {advance : UInt32} {malloc : ℕ → Bool}
    (hok : receive s p x seg tcplen advance malloc = .ok (x', s')) : s'.fdTable = s.fdTable := by
  obtain ⟨-, q, ep, ret, ep', -, -, rfl⟩ := receive_eq_ok hok
  rfl

/-- A segment gives out no descriptor. -/
theorem processed_fdTable {seg : TcpSegment} (h : Processed s seg s') : s'.fdTable = s.fdTable := by
  cases h with
  | nothing => rfl
  | opened syn hfd hrcvbuf hstatus => rfl
  | handshake hsearch hstatus hack hlistener hcallback =>
    obtain ⟨q, ep, ret, ep', -, -, rfl⟩ := callback_eq_ok hcallback
    rfl
  | pushed hsearch hstatus hpsh hfin hreceive => exact receive_fdTable hreceive
  | finished hsearch hstatus hpsh hfin hreceive => exact receive_fdTable hreceive
  | both hsearch hstatus hpsh hfin hreceive hreceive' =>
    exact (receive_fdTable hreceive').trans (receive_fdTable hreceive)
  | removed hsearch hstatus => rfl

/-- Accepting gives out a descriptor, and takes none back. -/
theorem taken_naccept {sockfd ret : ℤ} {addr : Option SockaddrIn}
    (hok : s.naccept sockfd = .ok (ret, addr, s')) (h : s.fdTable.Taken n) :
    s'.fdTable.Taken n := by
  unfold naccept at hok
  split at hok
  · cases hok
    exact h
  · cases hok
    exact h
  · split at hok
    · cases hok
    · cases hok
      exact taken_getFdFrombitmap h
  · split at hok
    · cases hok
    · cases hok
      exact h

theorem nsend_fdTable {sockfd ret : ℤ} {buf : List UInt8} {len : ℕ} {malloc : ℕ → Bool}
    (hok : s.nsend sockfd buf len malloc = .ok (ret, s')) : s'.fdTable = s.fdTable := by
  unfold nsend at hok
  split at hok
  · cases hok
    rfl
  · cases hok
    rfl
  · split at hok
    · cases hok
      rfl
    split at hok
    · cases hok
      rfl
    split at hok
    · cases hok
    · cases hok
      rfl
  · split at hok
    · cases hok
    · cases hok
      rfl

theorem nrecv_fdTable {sockfd ret : ℤ} {len : ℕ} {copied : List UInt8}
    (hok : s.nrecv sockfd len = .ok (ret, copied, s')) : s'.fdTable = s.fdTable := by
  unfold nrecv at hok
  split at hok
  · cases hok
    rfl
  · cases hok
    rfl
  · obtain ⟨⟨ret', copied', x'⟩, hrecv, hok⟩ := exists_of_bind_eq_ok hok
    cases hok
    rfl
  · split at hok
    · cases hok
    · cases hok
      rfl

/-- Closing takes back the descriptor that is closed, and no other. -/
theorem taken_nclose {fd ret : ℤ} {ok : Bool} {garbage : TcpFragment}
    (hok : s.nclose fd ok garbage = .ok (ret, s')) (hne : (n : ℤ) ≠ fd) (h : s.fdTable.Taken n) :
    s'.fdTable.Taken n := by
  unfold nclose at hok
  split at hok
  · cases hok
    exact h
  · obtain ⟨⟨ret', fdTable⟩, hset, hok⟩ := exists_of_bind_eq_ok hok
    cases hok
    exact (FdTable.taken_of_setFdFrombitmap hset).2 n hne h
  · split at hok
    · split at hok
      · cases hok
        exact h
      · obtain ⟨⟨ret', fdTable⟩, hset, hok⟩ := exists_of_bind_eq_ok hok
        cases hok
        exact (FdTable.taken_of_setFdFrombitmap hset).2 n hne h
    · cases hok
      exact h
  · split at hok
    · cases hok
    · cases hok
      exact h

theorem nepollCtl_fdTable {epfd sockid ret : ℤ} {op : CtlOp} {event : Option EpollEvent}
    {ok : Bool} (hok : s.nepollCtl epfd op sockid event ok = .ok (ret, s')) :
    s'.fdTable = s.fdTable := by
  unfold nepollCtl at hok
  split at hok
  · cases hok
    rfl
  · obtain ⟨⟨ret', ep⟩, hctl, hok⟩ := exists_of_bind_eq_ok hok
    cases hok
    rfl
  · split at hok
    · cases hok
      rfl
    · cases hok

theorem nepollWait_fdTable {epfd maxevents timeout ret : ℤ} {events : List EpollEvent}
    (hok : s.nepollWait epfd maxevents timeout = .ok (ret, events, s')) :
    s'.fdTable = s.fdTable := by
  unfold nepollWait at hok
  split at hok
  · cases hok
    rfl
  · obtain ⟨⟨cnt, events', ep⟩, hwait, hok⟩ := exists_of_bind_eq_ok hok
    cases hok
    rfl
  · split at hok
    · cases hok
      rfl
    · cases hok

/-- **The descriptor of the listener stays taken.** -/
theorem taken_handle (hok : s.handle e = .ok s') (hserves : Serves n e)
    (h : s.fdTable.Taken n) : s'.fdTable.Taken n := by
  cases e with
  | nsocket type malloc => exact hserves.elim
  | nbind sockfd addr => exact hserves.elim
  | nlisten sockfd => exact hserves.elim
  | naccept sockfd =>
    obtain ⟨⟨ret, addr, s₁⟩, hr, rfl⟩ := exists_of_map_eq_ok hok
    exact taken_naccept hr h
  | nsend sockfd buf len malloc =>
    obtain ⟨⟨ret, s₁⟩, hr, rfl⟩ := exists_of_map_eq_ok hok
    rw [nsend_fdTable hr]
    exact h
  | nrecv sockfd len =>
    obtain ⟨⟨ret, copied, s₁⟩, hr, rfl⟩ := exists_of_map_eq_ok hok
    rw [nrecv_fdTable hr]
    exact h
  | nclose fd ok garbage =>
    obtain ⟨⟨ret, s₁⟩, hr, rfl⟩ := exists_of_map_eq_ok hok
    exact taken_nclose hr (fun heq => hserves heq.symm) h
  | nepollCreate size ok => exact hserves.elim
  | nepollCtl epfd op sockid event ok =>
    obtain ⟨⟨ret, s₁⟩, hr, rfl⟩ := exists_of_map_eq_ok hok
    rw [nepollCtl_fdTable hr]
    exact h
  | nepollWait epfd maxevents timeout =>
    obtain ⟨⟨ret, events, s₁⟩, hr, rfl⟩ := exists_of_map_eq_ok hok
    rw [nepollWait_fdTable hr]
    exact h
  | segment seg env =>
    obtain ⟨⟨ret, s₁⟩, hr, rfl⟩ := exists_of_map_eq_ok hok
    rw [processed_fdTable (ngTcpProcess_processed hr)]
    exact h
  | out macaddr =>
    obtain rfl := Except.ok.inj hok
    exact h

end Taken

/-! ## The invariant -/

/-- **One listener, and streams with four-tuples of their own.** -/
structure Connected (p₀ : Ptr) (listenfd : ℕ) (s : Stack) : Prop where
  listener : ∃ x, (p₀, x) ∈ s.tcbSet ∧ x.status = .listen ∧ x.sport = 0 ∧ x.fd = listenfd
  opened : ∀ p x, (p, x) ∈ s.tcbSet → p ≠ p₀ → x.status ≠ .listen ∧ x.sport ≠ 0
  unique : ∀ p x q y, (p, x) ∈ s.tcbSet → (q, y) ∈ s.tcbSet → x.fourTuple = y.fourTuple → p = q
  taken : s.fdTable.Taken listenfd

section Connected

variable {s s' : Stack} {e : Event} {p p₀ : Ptr} {x x' : TcpStream} {listenfd : ℕ}
  {notes : List StreamNote} {log : List TcpNote}

/-- **What is written to a stream** leaves its four-tuple, and does not make it listen. -/
theorem Evolves.keeps (hevolves : Evolves s p x e notes x') (hserves : Serves listenfd e) :
    x.Keeps x' := by
  cases hevolves with
  | bind hhost => exact hserves.elim
  | listen hhost => exact hserves.elim
  | accept hhost htarget => exact ⟨rfl, Iff.rfl, Or.inr (NodeList.holds_of_first htarget).2⟩
  | send hhost hle => exact ⟨rfl, Iff.rfl, Or.inl rfl⟩
  | recv hhost hlength => exact ⟨rfl, Iff.rfl, Or.inl rfl⟩
  | close hhost hnonneg hstatus => exact ⟨rfl, iff_of_false (fun he => nomatch he) hstatus, Or.inl rfl⟩
  | handshake hcksum hdispatch hstatus hack =>
    refine ⟨rfl, iff_of_false (fun he => nomatch he) ?_, Or.inl rfl⟩
    rw [hstatus]
    decide
  | ignore hcksum hdispatch hstatus hpsh hfin => exact .refl x
  | push hcksum hdispatch hstatus hpsh hfin => exact ⟨rfl, Iff.rfl, Or.inl rfl⟩
  | fin hcksum hdispatch hstatus hpsh hfin =>
    refine ⟨rfl, iff_of_false (fun he => nomatch he) ?_, Or.inl rfl⟩
    rw [hstatus]
    decide
  | pushFin hcksum hdispatch hstatus hpsh hfin =>
    refine ⟨rfl, iff_of_false (fun he => nomatch he) ?_, Or.inl rfl⟩
    rw [hstatus]
    decide

/-- **A segment that goes to a listener** has the four-tuple of no stream, if it has not
the port of the listener. -/
theorem not_namedBy_of_dispatches {seg : TcpSegment} (hdispatch : s.Dispatches seg p x)
    (hsport : x.sport ≠ seg.srcPort) {q : Ptr} {y : TcpStream} (hmem : (q, y) ∈ s.tcbSet) :
    ¬ y.NamedBy seg := by
  unfold Dispatches ngTcpStreamSearch at hdispatch
  rcases Option.or_eq_some_iff.mp hdispatch with hfirst | ⟨hnone, -⟩
  · exact absurd (NodeList.holds_of_first hfirst).2.2.1 hsport
  · rintro ⟨hsip, hdip, hsport, hdport⟩
    exact NodeList.first_eq_none.mp hnone (q, y) hmem ⟨hsip, hdip, hsport, hdport⟩

/-- What listens is the listener. -/
theorem Connected.eq_of_listen (h : Connected p₀ listenfd s) (hallotted : s.Allotted)
    (hmem : (p, x) ∈ s.tcbSet) (hstatus : x.status = .listen) :
    p = p₀ ∧ x.sport = 0 ∧ x.fd = listenfd := by
  have hp : p = p₀ := by
    by_contra hne
    exact (h.opened p x hmem hne).1 hstatus
  subst hp
  obtain ⟨y, hy, -, hsport, hfd⟩ := h.listener
  obtain rfl := hallotted.distinct.eq hmem hy
  exact ⟨rfl, hsport, hfd⟩

/-- Streams are where they were, and what they keep is kept. -/
theorem Connected.frame (h : Connected p₀ listenfd s)
    (hback : ∀ q y', (q, y') ∈ s'.tcbSet → ∃ y, (q, y) ∈ s.tcbSet ∧ y.Keeps y')
    (hlistener : ∀ x, (p₀, x) ∈ s.tcbSet → x.status = .listen →
      ∃ x', (p₀, x') ∈ s'.tcbSet ∧ x.Keeps x')
    (htaken : s'.fdTable.Taken listenfd) : Connected p₀ listenfd s' where
  listener := by
    obtain ⟨x, hx, hstatus, hsport, hfd⟩ := h.listener
    obtain ⟨x', hx', hkeeps⟩ := hlistener x hx hstatus
    refine ⟨x', hx', hkeeps.listen.mpr hstatus, ?_, ?_⟩
    · exact (congrArg (fun t => t.2.2.1) hkeeps.fourTuple).trans hsport
    · refine hkeeps.fd.elim (fun hfd' => hfd'.trans hfd) (fun hneg => absurd (hfd.symm.trans hneg) ?_)
      exact ((show (-1 : ℤ) < 0 by decide).trans_le (Int.natCast_nonneg listenfd)).ne'
  opened := by
    intro q y' hy' hne
    obtain ⟨y, hy, hkeeps⟩ := hback q y' hy'
    obtain ⟨hstatus, hsport⟩ := h.opened q y hy hne
    refine ⟨fun he => hstatus (hkeeps.listen.mp he), fun he => hsport ?_⟩
    exact (congrArg (fun t => t.2.2.1) hkeeps.fourTuple).symm.trans he
  unique := by
    intro q y' r z' hy' hz' heq
    obtain ⟨y, hy, hkeeps⟩ := hback q y' hy'
    obtain ⟨z, hz, hkeeps'⟩ := hback r z' hz'
    exact h.unique q y r z hy hz (hkeeps.fourTuple.symm.trans (heq.trans hkeeps'.fourTuple))
  taken := htaken

/-- **A SYN opens a stream** where no stream has its four-tuple. -/
theorem Connected.cons (h : Connected p₀ listenfd s) {seg : TcpSegment} {iss : UInt32}
    (hsport : seg.srcPort ≠ 0)
    (hnew : ∀ q y, (q, y) ∈ s.tcbSet → ¬ y.NamedBy seg)
    (htcbSet : s'.tcbSet = (s.next, openedStream seg iss) :: s.tcbSet)
    (htaken : s'.fdTable.Taken listenfd) : Connected p₀ listenfd s' where
  listener := by
    rw [htcbSet]
    obtain ⟨x, hx, hrest⟩ := h.listener
    exact ⟨x, List.mem_cons_of_mem _ hx, hrest⟩
  opened := by
    rw [htcbSet]
    intro p x hmem hne
    rcases List.mem_cons.mp hmem with heq | hmem
    · obtain ⟨rfl, rfl⟩ := Prod.mk.inj heq
      exact ⟨(fun he => nomatch he), hsport⟩
    · exact h.opened p x hmem hne
  unique := by
    have hother : ∀ q y, (q, y) ∈ s.tcbSet → y.fourTuple ≠ (openedStream seg iss).fourTuple := by
      intro q y hy heq
      obtain ⟨hsip, hdip, hsport, hdport⟩ : y.sip = seg.srcAddr ∧ y.dip = seg.dstAddr
        ∧ y.sport = seg.srcPort ∧ y.dport = seg.dstPort := by
        simpa [TcpStream.fourTuple, openedStream] using heq
      exact hnew q y hy ⟨hsip, hdip, hsport, hdport⟩
    rw [htcbSet]
    intro p x q y hx hy heq
    rcases List.mem_cons.mp hx with hx | hx
    · obtain ⟨rfl, rfl⟩ := Prod.mk.inj hx
      rcases List.mem_cons.mp hy with hy | hy
      · exact (Prod.mk.inj hy).1.symm
      · exact absurd heq.symm (hother q y hy)
    · rcases List.mem_cons.mp hy with hy | hy
      · obtain ⟨rfl, rfl⟩ := Prod.mk.inj hy
        exact absurd heq (hother p x hx)
      · exact h.unique p x q y hx hy heq
  taken := htaken

/-- **Every event keeps it so.** -/
theorem Connected.step (h : Connected p₀ listenfd s) (hallotted : s.Allotted)
    (hserves : Serves listenfd e) (hok : s.handle e = .ok s') : Connected p₀ listenfd s' := by
  have htaken := taken_handle hok hserves h.taken
  cases handle_changes hallotted hok with
  | quiet htouched htcbSet hnext =>
    refine h.frame (fun q y hy => ⟨y, htcbSet ▸ hy, .refl y⟩) (fun x hx _ => ⟨x, ?_, .refl x⟩) htaken
    rw [htcbSet]
    exact hx
  | @written p x x' notes hmem hevolves htouched htcbSet hnext =>
    have hkeeps := hevolves.keeps hserves
    refine h.frame (fun q y' hy' => ?_) (fun y hy hstatus => ?_) htaken
    · rw [htcbSet] at hy'
      rcases mem_setStream.mp hy' with ⟨-, hy'⟩ | ⟨a, ha, heq⟩
      · exact ⟨y', hy', .refl y'⟩
      · obtain ⟨rfl, rfl⟩ := Prod.mk.inj heq
        exact ⟨x, hmem, hkeeps⟩
    · rw [htcbSet]
      by_cases hp : p₀ = p
      · subst hp
        obtain rfl := hallotted.distinct.eq hmem hy
        exact ⟨x', mem_setStream.mpr (Or.inr ⟨x, hmem, rfl⟩), hkeeps⟩
      · exact ⟨y, mem_setStream.mpr (Or.inl ⟨hp, hy⟩), .refl y⟩
  | added hborn htouched htcbSet hnext =>
    cases hborn with
    | made => exact hserves.elim
    | opened hcksum hdispatch hstatus hsyn hmalloc =>
      obtain ⟨-, hsport, -⟩ := h.eq_of_listen hallotted (mem_of_search hdispatch) hstatus
      refine h.cons hserves.1 (fun q y => not_namedBy_of_dispatches hdispatch ?_) htcbSet htaken
      rw [hsport]
      exact hserves.1.symm
    | halfOpened hcksum hdispatch hstatus hsyn hmalloc =>
      exact absurd (hserves.2 1) (by rw [hmalloc]; decide)
  | @removed p x hmem hdies htouched htcbSet hnext =>
    have hp : p ≠ p₀ := by
      rintro rfl
      cases hdies with
      | closed hhost hstatus =>
        obtain ⟨-, -, hfd⟩ := h.eq_of_listen hallotted hmem hstatus
        exact hserves ((holds_of_getHostinfo hhost).2.symm.trans hfd)
      | lastAck hcksum hdispatch hstatus hack =>
        obtain ⟨y, hy, hlisten, -⟩ := h.listener
        obtain rfl := hallotted.distinct.eq hmem hy
        cases hstatus.symm.trans hlisten
    refine h.frame (fun q y hy => ?_) (fun y hy _ => ?_) htaken
    · rw [htcbSet] at hy
      exact ⟨y, (NodeList.mem_remove.mp hy).1, .refl y⟩
    · rw [htcbSet]
      exact ⟨y, NodeList.mem_remove.mpr ⟨hy, hp.symm⟩, .refl y⟩
  | @out macaddr he hs' =>
    subst hs'
    have hkeeps : ∀ q (y : TcpStream), y.Keeps (y.out macaddr q).2 := by
      intro q y
      obtain ⟨sndbuf, hout⟩ := out_eq y macaddr q
      rw [hout]
      exact ⟨rfl, Iff.rfl, Or.inl rfl⟩
    refine h.frame (fun q y' hy' => ?_) (fun y hy _ => ?_) htaken
    · obtain ⟨⟨r, y⟩, hy, heq⟩ := List.mem_map.mp hy'
      obtain ⟨rfl, rfl⟩ := Prod.mk.inj heq
      exact ⟨y, hy, hkeeps r y⟩
    · exact ⟨_, List.mem_map_of_mem hy, hkeeps p₀ y⟩

/-- **A segment with the four-tuple of a stream goes to this stream.** -/
theorem Connected.dispatches (h : Connected p₀ listenfd s) (hallotted : s.Allotted)
    (hmem : (p, x) ∈ s.tcbSet)
    {seg : TcpSegment} (hname : x.NamedBy seg) : s.Dispatches seg p x := by
  unfold Dispatches ngTcpStreamSearch
  cases hfirst : s.tcbSet.first (fun iter => iter.sip = seg.srcAddr ∧ iter.dip = seg.dstAddr
    ∧ iter.sport = seg.srcPort ∧ iter.dport = seg.dstPort) with
  | none =>
    refine absurd ?_ (NodeList.first_eq_none.mp hfirst (p, x) hmem)
    exact ⟨hname.sip, hname.dip, hname.sport, hname.dport⟩
  | some y =>
    obtain ⟨q, y⟩ := y
    have hy := NodeList.mem_of_first hfirst
    obtain ⟨hsip, hdip, hsport, hdport⟩ := NodeList.holds_of_first hfirst
    obtain rfl := h.unique q y p x hy hmem (by
      unfold TcpStream.fourTuple
      rw [hsip, hdip, hsport, hdport, hname.sip, hname.dip, hname.sport, hname.dport])
    obtain rfl := hallotted.distinct.eq hy hmem
    rfl

/-- **It adds no stream.** -/
theorem Connected.adds_nothing (h : Connected p₀ listenfd s) (hallotted : s.Allotted)
    (hmem : (p, x) ∈ s.tcbSet) {seg : TcpSegment} {env : SegmentEnv} (hname : x.NamedBy seg)
    (hsport : seg.srcPort ≠ 0) (hok : s.handle (.segment seg env) = .ok s') :
    ∀ y ∈ s'.tcbSet, y.1 ∈ s.tcbSet.map Prod.fst := by
  have hlisten : ∀ q y, s.Dispatches seg q y → y.status ≠ .listen := by
    intro q y hdispatch hstatus
    obtain ⟨-, hzero, -⟩ := h.eq_of_listen hallotted (mem_of_search hdispatch) hstatus
    refine not_namedBy_of_dispatches hdispatch ?_ hmem hname
    rw [hzero]
    exact hsport.symm
  intro y hy
  cases handle_changes hallotted hok with
  | quiet htouched htcbSet hnext =>
    rw [htcbSet] at hy
    exact List.mem_map_of_mem hy
  | @written q z z' notes hmem hevolves htouched htcbSet hnext =>
    have hfst : s'.tcbSet.map Prod.fst = s.tcbSet.map Prod.fst := by
      rw [htcbSet]
      exact NodeList.map_fst_update (f := fun _ => z')
    rw [← hfst]
    exact List.mem_map_of_mem hy
  | added hborn htouched htcbSet hnext =>
    cases hborn with
    | opened hcksum hdispatch hstatus hsyn hmalloc => exact absurd hstatus (hlisten _ _ hdispatch)
    | halfOpened hcksum hdispatch hstatus hsyn hmalloc => exact absurd hstatus (hlisten _ _ hdispatch)
  | removed hmem hdies htouched htcbSet hnext =>
    rw [htcbSet] at hy
    exact List.mem_map_of_mem (NodeList.mem_remove.mp hy).1
  | out he hs' => cases he

/-! ## What is accepted -/

/-- A descriptor that is given to a stream was the lowest that was free. -/
theorem accepted_eq (hallotted : s.Allotted) (hok : s.handle e = .ok s') {fd : ℤ}
    (hmem : .stream p (.accepted fd) ∈ s.notes e s') : fd = s.fdTable.getFdFrombitmap.1 := by
  have hbecomes := (handle_changes hallotted hok).becomes hallotted p
  have hhistory := mem_history.mpr hmem
  generalize s.stream? p = o, history p (s.notes e s') = notes, s'.stream? p = o'
    at hbecomes hhistory
  cases hbecomes with
  | absent => exact absurd hhistory List.not_mem_nil
  | stays x => exact absurd hhistory List.not_mem_nil
  | @evolves x x' notes hevolves =>
    have hnotes := (List.mem_append.mp hhistory).resolve_right (accepted_not_mem_grown x' _ fd)
    cases hevolves with
    | accept hhost htarget => exact StreamNote.accepted.inj (List.mem_singleton.mp hnotes)
    | _ => simp at hnotes
  | @born x hp hborn => exact absurd hhistory (accepted_not_mem_grown x _ fd)
  | removed hstatus => exact absurd hhistory List.not_mem_nil
  | @out x macaddr he =>
    obtain ⟨y, hy, hn⟩ := List.mem_map.mp hhistory
    obtain ⟨packet, -, hpacket⟩ := List.mem_filterMap.mp hy
    cases packet with
    | arp sip dip => cases hpacket
    | tcp q dstmac f =>
      obtain rfl := Option.some.inj hpacket
      cases hn

/-- It is not the descriptor of the listener. -/
theorem Connected.getFd_ne (h : Connected p₀ listenfd s) :
    s.fdTable.getFdFrombitmap.1 ≠ listenfd := by
  obtain ⟨n, -, -, hfree, hfst, -⟩ | ⟨hnone, -⟩ := s.fdTable.getFdFrombitmap_cases
  · rw [hfst]
    rintro heq
    rw [Int.ofNat_inj.mp heq] at hfree
    exact hfree h.taken
  · rw [hnone]
    exact ((show (-1 : ℤ) < 0 by decide).trans_le (Int.natCast_nonneg listenfd)).ne

end Connected

/-! ## Runs -/

/-- **A listener, and nothing else**: the stream of `nsocket`, bound and listening. -/
structure Listening (p₀ : Ptr) (listenfd : ℕ) (s : Stack) : Prop where
  tcbSet : ∃ x, s.tcbSet = [(p₀, x)] ∧ x.status = .listen ∧ x.sport = 0 ∧ x.fd = listenfd
  taken : s.fdTable.Taken listenfd

/-- **One control block for each connection**: no two streams have one four-tuple, a
segment with the four-tuple of a stream goes to this stream and to no listener, and
opens no other. -/
structure OneBlockEach (p₀ : Ptr) (s : Stack) : Prop where
  unique : ∀ p x q y, (p, x) ∈ s.tcbSet → (q, y) ∈ s.tcbSet → x.fourTuple = y.fourTuple → p = q
  dispatches : ∀ seg p x, seg.srcPort ≠ 0 → (p, x) ∈ s.tcbSet → x.NamedBy seg →
    s.Dispatches seg p x ∧ p ≠ p₀ ∧ x.status ≠ .listen
  opensNone : ∀ seg env s' p x, seg.srcPort ≠ 0 → (p, x) ∈ s.tcbSet → x.NamedBy seg →
    s.handle (.segment seg env) = .ok s' → ∀ y ∈ s'.tcbSet, y.1 ∈ s.tcbSet.map Prod.fst

section Run

variable {p₀ : Ptr} {listenfd : ℕ} {s₀ s : Stack} {t₀ t : TcbSet} {log : List TcpNote}

theorem Listening.connected (h : Listening p₀ listenfd s) : Connected p₀ listenfd s := by
  obtain ⟨⟨x, htcbSet, hstatus, hsport, hfd⟩, htaken⟩ := h
  have heq : ∀ p y, (p, y) ∈ s.tcbSet → p = p₀ ∧ y = x := by
    intro p y hmem
    rw [htcbSet] at hmem
    exact Prod.mk.inj (List.mem_singleton.mp hmem)
  refine ⟨⟨x, ?_, hstatus, hsport, hfd⟩, ?_, ?_, htaken⟩
  · rw [htcbSet]
    exact List.mem_singleton_self _
  · exact fun p y hmem hne => absurd (heq p y hmem).1 hne
  · exact fun p y q z hy hz _ => (heq p y hy).1.trans (heq q z hz).1.symm

theorem Connected.oneBlockEach (h : Connected p₀ listenfd s) (hallotted : s.Allotted) :
    OneBlockEach p₀ s where
  unique := h.unique
  dispatches := by
    intro seg p x hsport hmem hname
    have hp : p ≠ p₀ := by
      rintro rfl
      obtain ⟨y, hy, -, hzero, -⟩ := h.listener
      obtain rfl := hallotted.distinct.eq hmem hy
      exact hsport (hname.sport.symm.trans hzero)
    exact ⟨h.dispatches hallotted hmem hname, hp, (h.opened p x hmem hp).1⟩
  opensNone := fun _ _ _ _ _ hsport hmem hname hok => h.adds_nothing hallotted hmem hname hsport hok

/-- **In every run of one listener** there is one control block for each connection, and
the list of them is well formed in memory: what the stack does next, it does
without following a pointer to nothing. No stream is given the descriptor of the
listener, so whatever was accepted may be closed. -/
theorem one_block_each (h₀ : Listening p₀ listenfd s₀) (hrepr : t₀.Repr s₀)
    (hreach : TcbSet.machine.Reach (fun _ e => Serves listenfd e) (s₀, t₀) log (s, t)) :
    OneBlockEach p₀ s ∧ DList.Repr t.heap t.tcbSet s.tcbSet
    ∧ (∀ e notes s', tcpMachine s e = some (notes, s') →
      ∃ t', TcbSet.machine (s, t) e = some (notes, s', t'))
    ∧ ∀ p (fd : ℤ), .stream p (.accepted fd) ∈ log → fd ≠ listenfd := by
  have hinv : t.Repr s ∧ Connected p₀ listenfd s
      ∧ ∀ p (fd : ℤ), .stream p (.accepted fd) ∈ log → fd ≠ listenfd := by
    refine hreach.invariant (I := fun log st => st.2.Repr st.1 ∧ Connected p₀ listenfd st.1
      ∧ ∀ p (fd : ℤ), .stream p (.accepted fd) ∈ log → fd ≠ listenfd) ?_ ?_
    · exact ⟨hrepr, h₀.connected, fun p fd hmem => absurd hmem List.not_mem_nil⟩
    · rintro log ⟨s, t⟩ e notes ⟨s', t'⟩ ⟨hrepr, hconnected, haccepted⟩ hserves hstep
      obtain ⟨hs', ht'⟩ := TcbSet.machine_eq_some hstep
      obtain ⟨hok, rfl⟩ := tcpMachine_eq_some hs'
      obtain ⟨t'', ht'', hrepr'⟩ := hrepr.handle hok
      obtain rfl := Option.some.inj (ht''.symm.trans ht')
      refine ⟨hrepr', hconnected.step hrepr.allotted hserves hok, fun p fd hmem => ?_⟩
      rcases List.mem_append.mp hmem with hmem | hmem
      · exact haccepted p fd hmem
      · rw [accepted_eq hrepr.allotted hok hmem]
        exact hconnected.getFd_ne
  obtain ⟨hrepr', hconnected, haccepted⟩ := hinv
  refine ⟨hconnected.oneBlockEach hrepr'.allotted, hrepr'.list, fun e notes s' hstep => ?_, haccepted⟩
  obtain ⟨t', hstep', -⟩ := hrepr'.machine hstep
  exact ⟨t', hstep'⟩

/-- A socket listens on port 4, with the descriptor 3, and epoll is there. -/
def listens : List Event :=
  [.nsocket .stream (fun _ => true), .nbind 3 ⟨4, 0⟩, .nlisten 3, .nepollCreate 1 true]

/-- **A connection and the next**: the SYN comes twice, the stream is accepted and
closed, and the peer connects again. -/
def connectsTwice : List Event :=
  [.segment (peerSegment RTE_TCP_SYN_FLAG 500 0 []) peerEnv,
    .segment (peerSegment RTE_TCP_SYN_FLAG 500 0 []) peerEnv,
    .segment (peerSegment RTE_TCP_ACK_FLAG 501 1001 []) peerEnv, .naccept 3,
    .nclose 5 true TcpFragment.zero,
    .segment (peerSegment RTE_TCP_ACK_FLAG 501 1002 []) peerEnv,
    .segment (peerSegment RTE_TCP_SYN_FLAG 900 0 []) peerEnv]

set_option maxRecDepth 8000 in
/-- The second SYN opens nothing, the third opens the stream at address 4. -/
theorem one_block_each_twice :
    ∃ s₀ t₀ log s t, Listening 1 3 s₀ ∧ t₀.Repr s₀
      ∧ TcbSet.machine.Reach (fun _ e => Serves 3 e) (s₀, t₀) log (s, t)
      ∧ s.tcbSet.map Prod.fst = [4, 1] ∧ OneBlockEach 1 s := by
  obtain ⟨outs₀, s₀, outs, s, hrun₀, hlistening, hrun, hfst⟩ :
      ∃ outs₀ s₀ outs s, tcpMachine.run init listens = some (outs₀, s₀) ∧ Listening 1 3 s₀
        ∧ tcpMachine.run s₀ connectsTwice = some (outs, s) ∧ s.tcbSet.map Prod.fst = [4, 1] :=
    ⟨_, _, _, _, rfl, ⟨⟨_, rfl, rfl, rfl, rfl⟩, by decide⟩, rfl, rfl⟩
  have hserves : ∀ e ∈ connectsTwice, Serves 3 e := by
    unfold connectsTwice
    simp [Serves, peerSegment, peerEnv]
  obtain ⟨t₀, hreach₀⟩ := TcbSet.reach_memory TcbSet.init_repr (Machine.Reach.of_run hrun₀)
  have hrepr := TcbSet.reach_repr TcbSet.init_repr hreach₀
  obtain ⟨t, hreach⟩ := TcbSet.reach_memory hrepr (Machine.Reach.of_run_forall hserves hrun)
  exact ⟨s₀, t₀, _, s, t, hlistening, hrepr, hreach, hfst, (one_block_each hlistening hrepr hreach).1⟩

end Run

end Stack

end Ustack
