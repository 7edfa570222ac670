import LinuxLearn.UstackBurst
import LinuxLearn.UstackSequence

/-!
# The order of what is sent

`ng_tcp_out` takes the first fragment from the ring of a stream, and puts it
back – to the end – where the Ethernet address of the peer is not known. That
would change the order of what is sent. It never comes to it for a stream
that a SYN has opened: the SYN has come through `pkt_process`, which put its
sender into the ARP table first, and nothing takes anybody out.

So the fragments that were put into the ring of such a stream are those that
were sent, followed by those that are still there (`Ordered`), in every run
of the program: packets of any kind, calls of the application and the loop
that sends, in any order (`sent_in_order`).
-/

namespace Ustack

/-! ## The program -/

/-- A call of the application. -/
def Stack.Event.IsCall : Stack.Event → Prop
  | .segment _ _ | .out _ => False
  | _ => True

/-- **What can happen to the program**: a packet of a burst is taken, something is sent,
the application calls, or something is done to the rings of UDP sockets – by
`nsendto`, `nrecvfrom` or `udp_out`, which touch nothing else. -/
inductive WorldEvent where
  | packet (numRecvd i : ℕ) (mbuf : Frame) (env : PacketEnv)
  | ngTcpOut
  | call (e : {e : Stack.Event // e.IsCall})
  | udp (sndbuf rcvbuf : Ptr → List Offload)

/-- **There is memory for the entry of the sender.** -/
def WorldEvent.HasMemory : WorldEvent → Prop
  | .packet _ _ _ env => env.arp = true
  | _ => True

namespace World

/-- **Something happens.** -/
def handle (dpdk : Dpdk) (w : World) : WorldEvent → Except Stop World
  | .packet numRecvd i mbuf env => (w.packet dpdk numRecvd i mbuf env).map Prod.snd
  | .ngTcpOut =>
    .ok { w with
      sockets.stack := (w.sockets.stack.ngTcpOut w.arpt.ngGetDstMacaddr).2 }
  | .call e => (w.sockets.stack.handle e.val).map (fun stack => { w with sockets.stack := stack })
  | .udp sndbuf rcvbuf => .ok { w with sockets := ⟨w.sockets.stack, sndbuf, rcvbuf⟩ }

/-- What that is to the streams, if it is anything. -/
def event (dpdk : Dpdk) (w : World) : WorldEvent → Option Stack.Event
  | .packet _ _ mbuf env =>
    if mbuf.etherType = RTE_ETHER_TYPE_IPV4 ∧ mbuf.nextProtoId = TCP then
      some (.segment (mbuf.segment dpdk) env.tcp)
    else none
  | .ngTcpOut => some (.out w.arpt.ngGetDstMacaddr)
  | .call e => some e.val
  | .udp _ _ => none

theorem event_packet (dpdk : Dpdk) (w : World) (n i : ℕ) (mbuf : Frame) (env : PacketEnv) :
    w.event dpdk (.packet n i mbuf env)
      = if mbuf.etherType = RTE_ETHER_TYPE_IPV4 ∧ mbuf.nextProtoId = TCP then
          some (.segment (mbuf.segment dpdk) env.tcp)
        else none := rfl

/-- **The program as a machine**, with the log of its streams. -/
def machine (dpdk : Dpdk) : Machine World WorldEvent (List TcpNote) := fun w e =>
  ((w.handle dpdk e).map (fun w' =>
    ((w.event dpdk e).elim [] (fun ev => w.sockets.stack.notes ev w'.sockets.stack), w'))).toOption

end World

/-! ## One step -/

section Step

variable {dpdk : Dpdk} {w w' : World} {e : WorldEvent} {out : List TcpNote}

/-- The sender is who the packet says, with or without the checksum. -/
theorem segment_srcAddr (dpdk : Dpdk) (mbuf : Frame) : (mbuf.segment dpdk).srcAddr = mbuf.srcAddr := by
  show (mbuf.bytes.store 50 [0, 0]).word32 26 = mbuf.bytes.word32 26
  unfold Bytes.word32
  rw [Bytes.load_store_of_disjoint (Or.inl (by decide))]

/-- **What a packet does**: its sender is put into the ARP table, if it is an IPv4 packet, and
the streams are given the segment, if it is one of TCP. -/
theorem packet_cases {n i : ℕ} {mbuf : Frame} {env : PacketEnv} {uses : List BurstUse}
    (hok : w.packet dpdk n i mbuf env = .ok (uses, w')) :
    (mbuf.etherType ≠ RTE_ETHER_TYPE_IPV4 ∧ w' = w)
      ∨ (mbuf.etherType = RTE_ETHER_TYPE_IPV4
        ∧ (∃ ret, w.arpt.ngArpEntryInsert mbuf.srcAddr mbuf.sAddr env.arp = .ok (ret, w'.arpt))
        ∧ ((mbuf.nextProtoId = TCP
            ∧ w.sockets.stack.handle (.segment (mbuf.segment dpdk) env.tcp) = .ok w'.sockets.stack)
          ∨ (mbuf.nextProtoId ≠ TCP ∧ w'.sockets.stack = w.sockets.stack))) := by
  unfold World.packet at hok
  split at hok
  · next hip =>
    obtain ⟨⟨ret, arpt⟩, hinsert, hok⟩ := exists_of_bind_eq_ok hok
    refine Or.inr ⟨hip, ?_⟩
    simp only at hok
    split at hok
    · next hudp =>
      obtain ⟨⟨ret', us, sockets⟩, hprocess, hret⟩ := exists_of_bind_eq_ok hok
      cases hret
      refine ⟨⟨ret, hinsert⟩, Or.inr ⟨?_, ?_⟩⟩
      · rw [hudp]
        decide
      · unfold Sockets.udpProcess at hprocess
        split at hprocess
        · cases hprocess
          rfl
        · split at hprocess
          · cases hprocess
            rfl
          · simp only at hprocess
            split at hprocess
            · cases hprocess
              rfl
            · split at hprocess
              · cases hprocess
              · cases hprocess
                rfl
    · split at hok
      · next htcp =>
        obtain ⟨⟨ret', us, sockets⟩, hprocess, hret⟩ := exists_of_bind_eq_ok hok
        obtain ⟨⟨ret'', stack⟩, hstack, hsockets⟩ := exists_of_bind_eq_ok hprocess
        cases hsockets
        cases hret
        refine ⟨⟨ret, hinsert⟩, Or.inl ⟨htcp, ?_⟩⟩
        show (w.sockets.stack.ngTcpProcess (mbuf.segment dpdk) env.tcp).map Prod.snd = _
        rw [hstack]
        rfl
      · next htcp =>
        cases hok
        exact ⟨⟨ret, hinsert⟩, Or.inr ⟨htcp, rfl⟩⟩
  · next hip =>
    cases hok
    exact Or.inl ⟨hip, rfl⟩

/-- **What a step is to the streams**: one of their events, or nothing. -/
theorem machine_stack (hstep : World.machine dpdk w e = some (out, w')) :
    (∃ ev, w.event dpdk e = some ev ∧ w.sockets.stack.handle ev = .ok w'.sockets.stack
        ∧ out = w.sockets.stack.notes ev w'.sockets.stack)
      ∨ (w'.sockets.stack = w.sockets.stack ∧ out = []) := by
  obtain ⟨w₁, hok, hout⟩ := exists_of_map_eq_ok (eq_ok_of_toOption hstep)
  obtain ⟨rfl, rfl⟩ := Prod.mk.inj hout
  cases e with
  | packet n i mbuf env =>
    obtain ⟨⟨uses, w₁⟩, hpacket, rfl⟩ := exists_of_map_eq_ok hok
    rw [World.event_packet]
    obtain ⟨hip, rfl⟩ | ⟨hip, -, ⟨htcp, hstack⟩ | ⟨htcp, hstack⟩⟩ := packet_cases hpacket
    · rw [if_neg (fun h => hip h.1)]
      exact Or.inr ⟨rfl, rfl⟩
    · rw [if_pos ⟨hip, htcp⟩]
      exact Or.inl ⟨_, rfl, hstack, rfl⟩
    · rw [if_neg (fun h => htcp h.2)]
      exact Or.inr ⟨hstack, rfl⟩
  | ngTcpOut =>
    cases hok
    exact Or.inl ⟨_, rfl, rfl, rfl⟩
  | call e =>
    obtain ⟨stack, hstack, rfl⟩ := exists_of_map_eq_ok hok
    exact Or.inl ⟨_, rfl, hstack, rfl⟩
  | udp sndbuf rcvbuf =>
    cases hok
    exact Or.inr ⟨rfl, rfl⟩

/-- **What a step is to the ARP table**: who was known is, and so is the sender of a
segment. -/
theorem machine_arpt (hstep : World.machine dpdk w e = some (out, w')) (hcounted : w.arpt.Counted)
    (hmemory : e.HasMemory) :
    w'.arpt.Counted
      ∧ (∀ dip mac, w.arpt.ngGetDstMacaddr dip = some mac → w'.arpt.ngGetDstMacaddr dip = some mac)
      ∧ (∀ seg env, w.event dpdk e = some (Stack.Event.segment seg env) →
        (w'.arpt.ngGetDstMacaddr seg.srcAddr).isSome) := by
  obtain ⟨w₁, hok, hout⟩ := exists_of_map_eq_ok (eq_ok_of_toOption hstep)
  obtain ⟨-, rfl⟩ := Prod.mk.inj hout
  cases e with
  | packet n i mbuf env =>
    obtain ⟨⟨uses, w₁⟩, hpacket, rfl⟩ := exists_of_map_eq_ok hok
    obtain ⟨hip, rfl⟩ | ⟨hip, ⟨ret, hinsert⟩, -⟩ := packet_cases hpacket
    · refine ⟨hcounted, fun _ _ h => h, fun seg env' hev => ?_⟩
      rw [World.event_packet, if_neg (fun h => hip h.1)] at hev
      cases hev
    · refine ⟨(ArpTable.ngArpEntryInsert_spec hcounted hinsert).1,
        fun dip mac h => ArpTable.ngGetDstMacaddr_insert hcounted hinsert h, fun seg env' hev => ?_⟩
      rw [World.event_packet] at hev
      split at hev
      · cases hev
        rw [segment_srcAddr]
        rw [show env.arp = true from hmemory] at hinsert
        exact ArpTable.isSome_ngGetDstMacaddr_insert hcounted hinsert
      · cases hev
  | ngTcpOut =>
    cases hok
    exact ⟨hcounted, fun _ _ h => h, fun _ _ hev => by cases hev⟩
  | call e =>
    obtain ⟨stack, hstack, rfl⟩ := exists_of_map_eq_ok hok
    refine ⟨hcounted, fun _ _ h => h, fun seg env hev => ?_⟩
    have hcall := e.property
    rw [Option.some.inj hev] at hcall
    exact hcall.elim
  | udp sndbuf rcvbuf =>
    cases hok
    exact ⟨hcounted, fun _ _ h => h, fun _ _ hev => by cases hev⟩

/-- **The loop that sends** looks for addresses in the ARP table. -/
theorem event_eq_out {macaddr : UInt32 → Option Mac} (hev : w.event dpdk e = some (.out macaddr)) :
    macaddr = w.arpt.ngGetDstMacaddr := by
  cases e with
  | packet n i mbuf env =>
    rw [World.event_packet] at hev
    split at hev
    · cases hev
    · cases hev
  | ngTcpOut =>
    cases hev
    rfl
  | call e =>
    have hcall := e.property
    rw [Option.some.inj hev] at hcall
    exact hcall.elim
  | udp sndbuf rcvbuf => cases hev

/-- **A burst is a run** of its packets. -/
theorem World.reach_pktProcess {P : World → WorldEvent → Prop} {w₀ : World} {log : List TcpNote}
    (hreach : (World.machine dpdk).Reach P w₀ log w) {mbufs : List (Frame × PacketEnv)}
    {uses : List BurstUse} (hok : w.pktProcess dpdk mbufs = .ok (uses, w'))
    (hP : ∀ w n i, ∀ b ∈ mbufs, P w (.packet n i b.1 b.2)) :
    ∃ out, (World.machine dpdk).Reach P w₀ (log ++ out) w' := by
  have hfrom : ∀ (mbufs : List (Frame × PacketEnv)) {n i : ℕ} {w : World} {uses : List BurstUse}
      {log : List TcpNote}, (∀ w n i, ∀ b ∈ mbufs, P w (.packet n i b.1 b.2)) →
      (World.machine dpdk).Reach P w₀ log w → w.packets dpdk n i mbufs = .ok (uses, w') →
      ∃ out, (World.machine dpdk).Reach P w₀ (log ++ out) w' := by
    intro mbufs
    induction mbufs with
    | nil =>
      intro n i w uses log _ hreach hok
      cases hok
      exact ⟨[], (List.append_nil log).symm ▸ hreach⟩
    | cons b mbufs ih =>
      intro n i w uses log hP hreach hok
      obtain ⟨mbuf, env⟩ := b
      obtain ⟨us, w₁, rest, hpacket, hpackets, -⟩ := packets_cons hok
      obtain ⟨out₁, hstep⟩ : ∃ out₁, World.machine dpdk w (.packet n i mbuf env) = some (out₁, w₁) := by
        have hhandle : w.handle dpdk (.packet n i mbuf env) = .ok w₁ := by
          show (w.packet dpdk n i mbuf env).map Prod.snd = _
          rw [hpacket]
          rfl
        unfold World.machine
        rw [hhandle]
        exact ⟨_, rfl⟩
      obtain ⟨out, hout⟩ := ih (fun w n i b hb => hP w n i b (List.mem_cons_of_mem _ hb))
        (hreach.step (hP w n i _ List.mem_cons_self) hstep) hpackets
      rw [List.append_assoc] at hout
      exact ⟨out₁ ++ out, hout⟩
  exact hfrom mbufs hP hreach hok

/-- **A run of the program is a run of its streams.** -/
theorem World.reach_stack {P : World → WorldEvent → Prop} {w₀ : World} {log : List TcpNote}
    (hreach : (World.machine dpdk).Reach P w₀ log w) :
    Stack.tcpMachine.Reach (fun _ _ => True) w₀.sockets.stack log w.sockets.stack := by
  induction hreach with
  | refl => exact .refl
  | @step log out w w' e hreach hP hstep ih =>
    obtain ⟨ev, -, hok, rfl⟩ | ⟨hstack, rfl⟩ := machine_stack hstep
    · refine ih.step (i := ev) trivial ?_
      unfold Stack.tcpMachine
      rw [hok]
      rfl
    · rw [List.append_nil, hstack]
      exact ih

end Step

/-! ## One stream -/

/-- **What was sent.** -/
def sentIn (h : List StreamNote) : List TcpFragment :=
  h.filterMap (fun n => match n with
    | .sent f => some f
    | _ => none)

/-- **A stream that a SYN has opened**: only `ng_tcp_handle_listen` puts a SYN into a ring. -/
def Opened (h : List StreamNote) : Prop := ∃ f ∈ queuedIn h, f.Has RTE_TCP_SYN_FLAG

/-- **The order is kept**: what was put into the ring is what was sent, and what is still
there; and the address of the peer is known. -/
structure Ordered (t : ArpTable) (h : List StreamNote) (o : Option TcpStream) : Prop where
  sent : sentIn h <+: queuedIn h
  queued : ∀ x, o = some x → queuedIn h = sentIn h ++ x.sndbuf
  known : ∀ x, o = some x → (t.ngGetDstMacaddr x.sip).isSome

/-- Nobody is forgotten. -/
theorem Ordered.mono {t t' : ArpTable} {h : List StreamNote} {o : Option TcpStream}
    (hordered : Ordered t h o)
    (hknown : ∀ dip mac, t.ngGetDstMacaddr dip = some mac → t'.ngGetDstMacaddr dip = some mac) :
    Ordered t' h o := by
  refine ⟨hordered.sent, hordered.queued, fun x hx => ?_⟩
  obtain ⟨mac, hmac⟩ := Option.isSome_iff_exists.mp (hordered.known x hx)
  rw [hknown x.sip mac hmac]
  rfl

theorem sentIn_append (h h' : List StreamNote) : sentIn (h ++ h') = sentIn h ++ sentIn h' :=
  List.filterMap_append

theorem sentIn_grown (x : TcpStream) (rings : List TcpFragment × List TcpFragment) :
    sentIn (x.grown rings) = [] := by
  unfold sentIn TcpStream.grown
  rw [List.filterMap_append, List.filterMap_map, List.filterMap_map]
  exact List.append_eq_nil_iff.mpr ⟨List.filterMap_eq_nil_iff.mpr (fun _ _ => rfl),
    List.filterMap_eq_nil_iff.mpr (fun _ _ => rfl)⟩

/-- A ring grows at its end. -/
theorem prefix_ringEnqueue (ring : List TcpFragment) (f : TcpFragment) :
    ring <+: ringEnqueue ring f := by
  rcases ringEnqueue_cases ring f with h | h
  · rw [h]
  · rw [h]
    exact List.prefix_append ring [f]

theorem prefix_advance (x : TcpStream) (seg : TcpSegment) (tcplen : ℤ) (advance : UInt32)
    (malloc : ℕ → Bool) : x.sndbuf <+: (x.advance seg tcplen advance malloc).sndbuf := by
  unfold TcpStream.advance
  simp only
  split
  · exact prefix_ringEnqueue _ _
  · exact List.prefix_refl _

namespace Stack

section Ordered

variable {s s' : Stack} {e : Event} {p : Ptr} {x x' : TcpStream} {o o' : Option TcpStream}
  {notes h out : List StreamNote} {t t' : ArpTable}

/-- **What is written to a stream** leaves what is in its ring, and whom it is sent to. -/
theorem Evolves.prefix_sndbuf (hevolves : Evolves s p x e notes x') :
    x.sndbuf <+: x'.sndbuf ∧ x'.sip = x.sip ∧ sentIn notes = [] := by
  cases hevolves with
  | send hhost hle => exact ⟨prefix_ringEnqueue _ _, rfl, rfl⟩
  | close hhost hnonneg hstatus => exact ⟨prefix_ringEnqueue _ _, rfl, rfl⟩
  | push hcksum hdispatch hstatus hpsh hfin => exact ⟨prefix_advance _ _ _ _ _, rfl, rfl⟩
  | fin hcksum hdispatch hstatus hpsh hfin =>
    exact ⟨prefix_advance { x with status := .closeWait } _ _ _ _, rfl, rfl⟩
  | @pushFin seg env hcksum hdispatch hstatus hpsh hfin =>
    have hpush := prefix_advance x seg seg.tcplen (UInt32.ofInt seg.payloadlen) env.malloc
    exact ⟨hpush.trans (prefix_advance
      { x.advance seg seg.tcplen (UInt32.ofInt seg.payloadlen) env.malloc with status := .closeWait }
      _ _ _ _), rfl, rfl⟩
  | _ => exact ⟨List.prefix_refl _, rfl, rfl⟩

/-- **The loop that sends** takes from the front of the ring, where the address is known. -/
theorem sentIn_out {macaddr : UInt32 → Option Mac} {dstmac : Mac} (hmac : macaddr x.sip = some dstmac) :
    sentIn (((x.out macaddr p).1.filterMap OutPacket.sent?).map Prod.snd) ++ (x.out macaddr p).2.sndbuf
      = x.sndbuf ∧ (x.out macaddr p).2.sip = x.sip := by
  unfold TcpStream.out
  split
  · next hring =>
    rw [hring]
    exact ⟨rfl, rfl⟩
  · next f fs hring =>
    rw [hmac, hring]
    exact ⟨rfl, rfl⟩

/-- **Whatever becomes of a stream**, the order is kept, if it was opened by a SYN: who is known
stays known, the sender of a segment is, and the loop that sends looks there. -/
theorem Becomes.ordered (hbecomes : Becomes s e p o out o') (hnew : s.next ≤ p → h = [])
    (hknown : ∀ dip mac, t.ngGetDstMacaddr dip = some mac → t'.ngGetDstMacaddr dip = some mac)
    (hsender : ∀ seg env, e = .segment seg env → (t'.ngGetDstMacaddr seg.srcAddr).isSome)
    (hout : ∀ macaddr, e = .out macaddr → macaddr = t.ngGetDstMacaddr)
    (hordered : Opened h → Ordered t h o) (hopened : Opened (h ++ out)) : Ordered t' (h ++ out) o' := by
  -- no SYN comes into the ring of a stream that is there
  have hbefore : (∀ f ∈ queuedIn out, ¬ f.Has RTE_TCP_SYN_FLAG) → Opened h := by
    intro hnone
    obtain ⟨f, hf, hsyn⟩ := hopened
    rw [queuedIn_append] at hf
    exact ⟨f, (List.mem_append.mp hf).resolve_right (fun hf => hnone f hf hsyn), hsyn⟩
  cases hbecomes with
  | absent =>
    rw [List.append_nil]
    obtain ⟨hsent, -, -⟩ := hordered (hbefore (fun f hf => absurd hf List.not_mem_nil))
    exact ⟨hsent, fun x hx => (nomatch hx), fun x hx => (nomatch hx)⟩
  | stays x =>
    rw [List.append_nil]
    exact (hordered (hbefore (fun f hf => absurd hf List.not_mem_nil))).mono hknown
  | @evolves x x' notes hevolves =>
    obtain ⟨hsent, hqueued, hmac⟩ := (hordered (hbefore hevolves.not_syn)).mono hknown
    obtain ⟨hgrows, hsip, hnotes⟩ := hevolves.prefix_sndbuf
    have hall : queuedIn (h ++ (notes ++ x'.grown (x.rcvbuf, x.sndbuf)))
        = sentIn (h ++ (notes ++ x'.grown (x.rcvbuf, x.sndbuf))) ++ x'.sndbuf := by
      rw [queuedIn_append, queuedIn_append, hevolves.queuedIn_notes, queuedIn_grown, sentIn_append,
        sentIn_append, hnotes, sentIn_grown, hqueued x rfl, List.nil_append, List.nil_append,
        List.append_nil, List.append_assoc, List.prefix_iff_eq_append.mp hgrows]
    refine ⟨⟨_, hall.symm⟩, ?_, ?_⟩
    · rintro _ ⟨⟩
      exact hall
    · rintro _ ⟨⟩
      rw [hsip]
      exact hmac x rfl
  | @born x hp hborn =>
    obtain rfl := hnew hp.ge
    have hnothing : ∀ x : TcpStream, x.sndbuf = [] → Opened ([] ++ x.grown ([], [])) → False := by
      intro x hx hopened
      obtain ⟨f, hf, -⟩ := hopened
      rw [List.nil_append, queuedIn_grown, hx] at hf
      exact absurd hf List.not_mem_nil
    cases hborn with
    | made => exact (hnothing _ rfl hopened).elim
    | halfOpened hcksum hdispatch hstatus hsyn hmalloc => exact (hnothing _ rfl hopened).elim
    | @opened seg env q listener hcksum hdispatch hstatus hsyn hmalloc =>
      refine ⟨⟨_, rfl⟩, ?_, ?_⟩
      · rintro _ ⟨⟩
        rfl
      · rintro _ ⟨⟩
        exact hsender seg env rfl
  | removed hstatus =>
    rw [List.append_nil]
    obtain ⟨hsent, -, -⟩ := hordered (hbefore (fun f hf => absurd hf List.not_mem_nil))
    exact ⟨hsent, fun x hx => (nomatch hx), fun x hx => (nomatch hx)⟩
  | @out x macaddr he =>
    obtain rfl := hout macaddr he
    obtain ⟨-, -, hnone⟩ := sent_carries x t.ngGetDstMacaddr p x.sndNxt
    have hbefore' := hordered (hbefore (fun f hf => by
      rw [hnone] at hf
      exact absurd hf List.not_mem_nil))
    obtain ⟨mac, hdstmac⟩ := Option.isSome_iff_exists.mp (hbefore'.known x rfl)
    obtain ⟨hring, hsip⟩ := sentIn_out (p := p) hdstmac
    have hall : queuedIn (h ++ ((x.out t.ngGetDstMacaddr p).1.filterMap OutPacket.sent?).map Prod.snd)
        = sentIn (h ++ ((x.out t.ngGetDstMacaddr p).1.filterMap OutPacket.sent?).map Prod.snd)
          ++ (x.out t.ngGetDstMacaddr p).2.sndbuf := by
      rw [queuedIn_append, hnone, List.append_nil, hbefore'.queued x rfl, sentIn_append, List.append_assoc,
        hring]
    refine ⟨⟨_, hall.symm⟩, ?_, ?_⟩
    · rintro _ ⟨⟩
      exact hall
    · rintro _ ⟨⟩
      rw [hsip]
      exact (hbefore'.mono hknown).known x rfl

/-- **A stream that `ng_tcp_handle_listen` creates** is opened, where there is memory for the
SYN-ACK. -/
theorem Becomes.opened {seg : TcpSegment} {env : SegmentEnv}
    (hbecomes : Becomes s (.segment seg env) p none out (some x)) (hmalloc : env.malloc 1 = true) :
    Opened out := by
  cases hbecomes with
  | born hp hborn =>
    cases hborn with
    | opened hcksum hdispatch hstatus hsyn _ =>
      exact ⟨synAckFragment seg env.iss, List.mem_singleton_self _, (synAckFragment_has seg env.iss).1⟩
    | halfOpened hcksum hdispatch hstatus hsyn hnone =>
      rw [hmalloc] at hnone
      cases hnone

end Ordered

end Stack

/-! ## Every run -/

section Run

variable {dpdk : Dpdk} {w : World} {log : List TcpNote}

/-- **In every run** the ARP table is counted, and the order of each stream that was opened is
kept. -/
theorem reach_ordered
    (hreach : (World.machine dpdk).Reach (fun _ e => e.HasMemory) World.init log w) :
    w.arpt.Counted
      ∧ ∀ p, Opened (history p log) → Ordered w.arpt (history p log) (w.sockets.stack.stream? p) := by
  induction hreach with
  | refl =>
    refine ⟨ArpTable.init_counted, fun p hopened => ?_⟩
    obtain ⟨f, hf, -⟩ := hopened
    exact absurd hf List.not_mem_nil
  | @step log out w w' e hreach hmemory hstep ih =>
    obtain ⟨hcounted, hordered⟩ := ih
    obtain ⟨hcounted', hknown, hsender⟩ := machine_arpt hstep hcounted hmemory
    refine ⟨hcounted', fun p hopened => ?_⟩
    obtain ⟨hallotted, hnew⟩ := Stack.reach_allotted (World.reach_stack hreach)
    obtain ⟨ev, hev, hok, rfl⟩ | ⟨hstack, rfl⟩ := machine_stack hstep
    · rw [history_append] at hopened ⊢
      refine ((Stack.handle_changes hallotted hok).becomes hallotted p).ordered (hnew p) hknown ?_ ?_
        (hordered p) hopened
      · rintro seg env rfl
        exact hsender seg env hev
      · rintro macaddr rfl
        exact event_eq_out hev
    · rw [List.append_nil] at hopened ⊢
      rw [hstack]
      exact (hordered p hopened).mono hknown

/-- **What is sent is sent in order**, in every run in which there is memory for ARP entries: for
every stream that a SYN has opened the Ethernet address of its peer is known as long as it is
there, and what was sent is the beginning of what was put into its ring. -/
theorem sent_in_order
    (hreach : (World.machine dpdk).Reach (fun _ e => e.HasMemory) World.init log w) {p : Ptr}
    (hopened : Opened (history p log)) :
    (∀ x, w.sockets.stack.stream? p = some x → (w.arpt.ngGetDstMacaddr x.sip).isSome)
      ∧ sentIn (history p log) <+: queuedIn (history p log) := by
  have hordered := (reach_ordered hreach).2 p hopened
  exact ⟨hordered.known, hordered.sent⟩

/-- A SYN as it comes in, from port 3 of address 1 to port 4 of address 2. -/
def synPacket : Frame :=
  List.replicate 12 0 ++ [8, 0, 0x45, 0, 0, 40] ++ List.replicate 5 0 ++ [6, 0, 0, 1, 0, 0, 0, 2, 0, 0, 0]
    ++ [3, 0, 4, 0, 0, 0, 1, 244, 0, 0, 0, 0, 0x50, 2, 0, 0, 0, 0, 0, 0]

set_option maxRecDepth 8000 in
/-- The SYN-ACK is sent, and the answer that follows it is not yet. -/
theorem sent_in_order_synAck :
    ∃ log w, (World.machine noCksum).Reach (fun _ e => e.HasMemory) World.init log w
      ∧ (sentIn (history 3 log)).length = 1 ∧ (queuedIn (history 3 log)).length = 2
      ∧ sentIn (history 3 log) <+: queuedIn (history 3 log) := by
  obtain ⟨outs, w, hrun, hsent, hqueued, hopened⟩ :
      ∃ outs w, (World.machine noCksum).run World.init
        [.call ⟨.nsocket .stream (fun _ => true), trivial⟩, .call ⟨.nbind 3 ⟨4, 0⟩, trivial⟩,
          .call ⟨.nlisten 3, trivial⟩, .call ⟨.nepollCreate 1 true, trivial⟩,
          .packet 1 0 synPacket packetEnv, .ngTcpOut, .call ⟨.naccept 3, trivial⟩,
          .call ⟨.nsend 5 [65] 1 (fun _ => true), trivial⟩] = some (outs, w)
      ∧ (sentIn (history 3 outs.flatten)).length = 1 ∧ (queuedIn (history 3 outs.flatten)).length = 2
      ∧ Opened (history 3 outs.flatten) :=
    ⟨_, _, rfl, rfl, rfl, _, List.mem_cons_self, by decide⟩
  have hreach := Machine.Reach.of_run_forall (P := WorldEvent.HasMemory)
    (by simp [WorldEvent.HasMemory, packetEnv]) hrun
  exact ⟨_, _, hreach, hsent, hqueued, (sent_in_order hreach hopened).2⟩

end Run

end Ustack
