import LinuxLearn.UstackSocket

/-!
# What becomes of a stream

Everything that works on the table of streams – the calls of the
application, the segments received and the loop that sends – one event
after another, with a log of what happened to each stream.

The events are many, and what one of them does to the table is little: it
leaves it as it is, writes to one stream in one of a dozen ways
(`Evolves`), puts one in front (`Born`) or takes one out – or it is the
loop that sends, which visits all of them. `Stack.handle_changes` says so
once; what is to hold of every stream in every run is proved against it.
-/

namespace Ustack

/-! ## Fragments that are sent -/

/-- The fragment of `nsend`. -/
def dataFragment (stream : TcpStream) (buf : List UInt8) (len : ℕ) : TcpFragment :=
  { TcpFragment.zero with
    dport := stream.sport
    sport := stream.dport
    acknum := stream.rcvNxt
    seqnum := stream.sndNxt
    tcpFlags := RTE_TCP_ACK_FLAG ||| RTE_TCP_PSH_FLAG
    windows := TCP_INITIAL_WINDOW
    hdrlenOff := 0x50
    data := some (buf.take len ++ [0])
    length := len % 2 ^ 32 }

/-- The fragment of `nclose`, in memory that was not cleared. -/
def finFragment (stream : TcpStream) (garbage : TcpFragment) : TcpFragment :=
  { garbage with
    data := none
    length := 0
    sport := stream.dport
    dport := stream.sport
    seqnum := stream.sndNxt
    acknum := stream.rcvNxt
    tcpFlags := RTE_TCP_FIN_FLAG ||| RTE_TCP_ACK_FLAG
    windows := TCP_INITIAL_WINDOW
    hdrlenOff := 0x50 }

/-- The fragment of `ng_tcp_send_ackpkt`. -/
def ackFragment (seg : TcpSegment) (seqnum acknum : UInt32) : TcpFragment :=
  { TcpFragment.zero with
    dport := seg.srcPort
    sport := seg.dstPort
    acknum := acknum
    seqnum := seqnum
    tcpFlags := RTE_TCP_ACK_FLAG
    windows := TCP_INITIAL_WINDOW
    hdrlenOff := 0x50 }

/-- The fragment that `ng_tcp_enqueue_recvbuffer` puts into the other ring. -/
def receivedFragment (seg : TcpSegment) (tcplen : ℤ) : TcpFragment :=
  { TcpFragment.zero with
    dport := ntohs seg.dstPort
    sport := ntohs seg.srcPort
    data := if 0 < tcplen - seg.hdrlen * 4 then
      some ((seg.mem.drop (seg.hdrlen * 4)).take (tcplen - seg.hdrlen * 4).toNat ++ [0]) else none
    length := (tcplen - seg.hdrlen * 4).toNat }

/-- **What a PSH or a FIN does to its stream**: what it brings is put into the one
ring, both numbers are set, and an ACK is put into the other. -/
def TcpStream.advance (x : TcpStream) (seg : TcpSegment) (tcplen : ℤ) (advance : UInt32)
    (malloc : ℕ → Bool) : TcpStream :=
  { x with
    rcvbuf :=
      if malloc 0 ∧ (0 < tcplen - seg.hdrlen * 4 → malloc 1) then
        ringEnqueue x.rcvbuf (receivedFragment seg tcplen)
      else x.rcvbuf
    sndbuf :=
      if malloc 2 then
        ringEnqueue x.sndbuf (ackFragment seg seg.recvAck (x.rcvNxt + advance))
      else x.sndbuf
    rcvNxt := x.rcvNxt + advance
    sndNxt := seg.recvAck }

/-- The fragment of `ng_tcp_handle_listen`. -/
def synAckFragment (seg : TcpSegment) (iss : UInt32) : TcpFragment :=
  { TcpFragment.zero with
    sport := seg.dstPort
    dport := seg.srcPort
    seqnum := iss
    acknum := seg.sentSeq + 1
    tcpFlags := RTE_TCP_SYN_FLAG ||| RTE_TCP_ACK_FLAG
    windows := TCP_INITIAL_WINDOW
    hdrlenOff := 0x50 }

/-! ## The loop that sends -/

/-- An Ethernet address. -/
abbrev Mac := Vector UInt8 6

/-- **What is sent**: a fragment of a stream, or a question for an address. -/
inductive OutPacket where
  | tcp (p : Ptr) (dstmac : Mac) (fragment : TcpFragment)
  | arp (sip dip : UInt32)
deriving DecidableEq

/-- **What `ng_tcp_out` does with a stream**: the first fragment is taken from its
ring, and sent – or goes back to the end of it, while the address is asked
for. -/
def TcpStream.out (macaddr : UInt32 → Option Mac) (p : Ptr) (stream : TcpStream) :
    List OutPacket × TcpStream :=
  match stream.sndbuf with
  | [] => ([], stream)
  | fragment :: sndbuf =>
    match macaddr stream.sip with
    | none =>
      ([.arp stream.dip stream.sip], { stream with sndbuf := ringEnqueue sndbuf fragment })
    | some dstmac => ([.tcp p dstmac fragment], { stream with sndbuf := sndbuf })

namespace Stack

/-- **`ng_tcp_out`**, with the addresses that are known. -/
def ngTcpOut (s : Stack) (macaddr : UInt32 → Option Mac) : List OutPacket × Stack :=
  (s.tcbSet.flatMap (fun x => (x.2.out macaddr x.1).1),
    { s with tcbSet := s.tcbSet.map (fun x => (x.1, (x.2.out macaddr x.1).2)) })

/-! ## Events -/

/-- **What can happen to the stack.** -/
inductive Event where
  | nsocket (type : SockType) (malloc : ℕ → Bool)
  | nbind (sockfd : ℤ) (addr : SockaddrIn)
  | nlisten (sockfd : ℤ)
  | naccept (sockfd : ℤ)
  | nsend (sockfd : ℤ) (buf : List UInt8) (len : ℕ) (malloc : ℕ → Bool)
  | nrecv (sockfd : ℤ) (len : ℕ)
  | nclose (fd : ℤ) (ok : Bool) (garbage : TcpFragment)
  | nepollCreate (size : ℤ) (ok : Bool)
  | nepollCtl (epfd : ℤ) (op : CtlOp) (sockid : ℤ) (event : Option EpollEvent) (ok : Bool)
  | nepollWait (epfd maxevents timeout : ℤ)
  | segment (seg : TcpSegment) (env : SegmentEnv)
  | out (macaddr : UInt32 → Option Mac)

/-- **An event happens.** A call that waits, or that goes wrong, is no event. -/
def handle (s : Stack) : Event → Except Stop Stack
  | .nsocket type malloc => .ok (s.nsocket type malloc).2
  | .nbind sockfd addr => (s.nbind sockfd addr).map Prod.snd
  | .nlisten sockfd => (s.nlisten sockfd).map Prod.snd
  | .naccept sockfd => (s.naccept sockfd).map (fun r => r.2.2)
  | .nsend sockfd buf len malloc => (s.nsend sockfd buf len malloc).map Prod.snd
  | .nrecv sockfd len => (s.nrecv sockfd len).map (fun r => r.2.2)
  | .nclose fd ok garbage => (s.nclose fd ok garbage).map Prod.snd
  | .nepollCreate size ok => (s.nepollCreate size ok).map Prod.snd
  | .nepollCtl epfd op sockid event ok => (s.nepollCtl epfd op sockid event ok).map Prod.snd
  | .nepollWait epfd maxevents timeout => (s.nepollWait epfd maxevents timeout).map (fun r => r.2.2)
  | .segment seg env => (s.ngTcpProcess seg env).map Prod.snd
  | .out macaddr => .ok (s.ngTcpOut macaddr).2

end Stack

/-! ## The log -/

/-- **What can happen to a stream**: an ACK establishes it, a segment is taken in
while it is established, a fragment is put into one of its rings or sent from one,
it is accepted. -/
inductive StreamNote where
  | established (ack : TcpSegment)
  | taken (seg : TcpSegment)
  | filled (fragment : TcpFragment)
  | queued (fragment : TcpFragment)
  | sent (fragment : TcpFragment)
  | accepted (fd : ℤ)

/-- The fragment that is sent, and its stream. -/
def OutPacket.sent? : OutPacket → Option (Ptr × StreamNote)
  | tcp p _ fragment => some (p, .sent fragment)
  | arp _ _ => none

/-- **An entry of the log**: a segment came in, or something happened to a stream. -/
inductive TcpNote where
  | received (seg : TcpSegment)
  | stream (p : Ptr) (note : StreamNote)

/-- What is behind the front of the rings. -/
def TcpStream.grown (x : TcpStream) (rings : List TcpFragment × List TcpFragment) :
    List StreamNote :=
  (x.rcvbuf.drop rings.1.length).map .filled ++ (x.sndbuf.drop rings.2.length).map .queued

namespace Stack

/-- What a segment does to the stream it goes to. -/
def takes (s : Stack) (seg : TcpSegment) : List (Ptr × StreamNote) :=
  match s.ngTcpStreamSearch seg.srcAddr seg.dstAddr seg.srcPort seg.dstPort with
  | some (p, stream) =>
    match stream.status with
    | .synRcvd => if seg.Has RTE_TCP_ACK_FLAG then [(p, .established seg)] else []
    | .established => [(p, .taken seg)]
    | _ => []
  | none => []

/-- **What an event does to streams**, but for their rings. -/
def touched (s : Stack) : Event → List (Ptr × StreamNote)
  | .segment seg _ =>
    if seg.cksumOk then s.takes seg else []
  | .naccept sockfd =>
    match s.naccept sockfd, s.acceptTarget sockfd with
    | .ok (fd, _), some p => [(p, .accepted fd)]
    | _, _ => []
  | .out macaddr => (s.ngTcpOut macaddr).1.filterMap OutPacket.sent?
  | _ => []

/-- The stream at an address. -/
def stream? (s : Stack) (p : Ptr) : Option TcpStream :=
  (s.tcbSet.find? (fun x => x.1 = p)).map Prod.snd

/-- What is in the rings of a stream that was there before. -/
def rings (s : Stack) (p : Ptr) : List TcpFragment × List TcpFragment :=
  (s.stream? p).elim ([], []) (fun stream => (stream.rcvbuf, stream.sndbuf))

/-- **What is put into rings**: what is in them now and was not before. -/
def put (s s' : Stack) : List (Ptr × StreamNote) :=
  s'.tcbSet.flatMap (fun x => (x.2.grown (s.rings x.1)).map (fun n => (x.1, n)))

/-- The segment that has come in. -/
def Event.received : Event → List TcpNote
  | .segment seg _ => if seg.cksumOk then [.received seg] else []
  | _ => []

/-- **What an event leaves in the log.** -/
def notes (s : Stack) (e : Event) (s' : Stack) : List TcpNote :=
  e.received ++ (s.touched e ++ s.put s').map (fun x => .stream x.1 x.2)

/-- **The stack as a machine**, with its log. -/
def tcpMachine : Machine Stack Event (List TcpNote) := fun s e =>
  ((s.handle e).map (fun s' => (s.notes e s', s'))).toOption

/-! ## Streams -/

/-- A segment goes to a stream. -/
def Dispatches (s : Stack) (seg : TcpSegment) (p : Ptr) (stream : TcpStream) : Prop :=
  s.ngTcpStreamSearch seg.srcAddr seg.dstAddr seg.srcPort seg.dstPort = some (p, stream)

/-- **What an event writes to a stream**, and what else it does to it. -/
inductive Evolves (s : Stack) (p : Ptr) (x : TcpStream) :
    Event → List StreamNote → TcpStream → Prop
  | bind {sockfd : ℤ} {addr : SockaddrIn} (hhost : s.getHostinfoFromfd sockfd = some (.tcp p x)) :
    Evolves s p x (.nbind sockfd addr) []
      { x with dport := addr.sinPort, dip := addr.sinAddr, status := .closed }
  | listen {sockfd : ℤ} (hhost : s.getHostinfoFromfd sockfd = some (.tcp p x)) :
    Evolves s p x (.nlisten sockfd) [] { x with status := .listen }
  | accept {sockfd : ℤ} {q : Ptr} {listener : TcpStream}
    (hhost : s.getHostinfoFromfd sockfd = some (.tcp q listener))
    (htarget : s.getAcceptTcb listener.dport = some (p, x)) :
    Evolves s p x (.naccept sockfd) [.accepted s.fdTable.getFdFrombitmap.1]
      { x with fd := s.fdTable.getFdFrombitmap.1 }
  | send {sockfd : ℤ} {buf : List UInt8} {len : ℕ} {malloc : ℕ → Bool}
    (hhost : s.getHostinfoFromfd sockfd = some (.tcp p x)) (hle : len ≤ buf.length) :
    Evolves s p x (.nsend sockfd buf len malloc) []
      { x with sndbuf := ringEnqueue x.sndbuf (dataFragment x buf len) }
  | recv {sockfd : ℤ} {len : ℕ} (hhost : s.getHostinfoFromfd sockfd = some (.tcp p x))
    {rcvbuf : List TcpFragment} (hlength : rcvbuf.length ≤ x.rcvbuf.length) :
    Evolves s p x (.nrecv sockfd len) [] { x with rcvbuf := rcvbuf }
  | close {fd : ℤ} {garbage : TcpFragment} (hhost : s.getHostinfoFromfd fd = some (.tcp p x))
    (hnonneg : 0 ≤ fd) (hstatus : x.status ≠ .listen) :
    Evolves s p x (.nclose fd true garbage) []
      { x with
        sndbuf := ringEnqueue x.sndbuf (finFragment x garbage)
        status := .lastAck }
  | handshake {seg : TcpSegment} {env : SegmentEnv} (hcksum : seg.cksumOk = true)
    (hdispatch : s.Dispatches seg p x) (hstatus : x.status = .synRcvd)
    (hack : seg.Has RTE_TCP_ACK_FLAG) :
    Evolves s p x (.segment seg env) [.established seg] { x with status := .established }
  | ignore {seg : TcpSegment} {env : SegmentEnv} (hcksum : seg.cksumOk = true)
    (hdispatch : s.Dispatches seg p x) (hstatus : x.status = .established)
    (hpsh : ¬ seg.Has RTE_TCP_PSH_FLAG) (hfin : ¬ seg.Has RTE_TCP_FIN_FLAG) :
    Evolves s p x (.segment seg env) [.taken seg] x
  | push {seg : TcpSegment} {env : SegmentEnv} (hcksum : seg.cksumOk = true)
    (hdispatch : s.Dispatches seg p x) (hstatus : x.status = .established)
    (hpsh : seg.Has RTE_TCP_PSH_FLAG) (hfin : ¬ seg.Has RTE_TCP_FIN_FLAG) :
    Evolves s p x (.segment seg env) [.taken seg]
      (x.advance seg seg.tcplen (UInt32.ofInt seg.payloadlen) env.malloc)
  | fin {seg : TcpSegment} {env : SegmentEnv} (hcksum : seg.cksumOk = true)
    (hdispatch : s.Dispatches seg p x) (hstatus : x.status = .established)
    (hpsh : ¬ seg.Has RTE_TCP_PSH_FLAG) (hfin : seg.Has RTE_TCP_FIN_FLAG) :
    Evolves s p x (.segment seg env) [.taken seg]
      (TcpStream.advance { x with status := .closeWait } seg seg.hdrlen 1 (fun i => env.malloc (i + 3)))
  | pushFin {seg : TcpSegment} {env : SegmentEnv} (hcksum : seg.cksumOk = true)
    (hdispatch : s.Dispatches seg p x) (hstatus : x.status = .established)
    (hpsh : seg.Has RTE_TCP_PSH_FLAG) (hfin : seg.Has RTE_TCP_FIN_FLAG) :
    Evolves s p x (.segment seg env) [.taken seg]
      (TcpStream.advance
        { x.advance seg seg.tcplen (UInt32.ofInt seg.payloadlen) env.malloc with status := .closeWait }
        seg seg.hdrlen 1 (fun i => env.malloc (i + 3)))

/-- **A stream that a SYN opens**, as `ng_tcp_handle_listen` leaves it. -/
def openedStream (seg : TcpSegment) (iss : UInt32) : TcpStream where
  fd := -1
  sip := seg.srcAddr
  dip := seg.dstAddr
  sport := seg.srcPort
  dport := seg.dstPort
  sndNxt := iss
  rcvNxt := seg.sentSeq + 1
  status := .synRcvd
  sndbuf := ringEnqueue [] (synAckFragment seg iss)
  rcvbuf := []

/-- What is left where there is no memory for the SYN-ACK. -/
def halfOpenedStream (seg : TcpSegment) (iss garbage : UInt32) : TcpStream where
  fd := -1
  sip := seg.srcAddr
  dip := seg.dstAddr
  sport := seg.srcPort
  dport := seg.dstPort
  sndNxt := iss
  rcvNxt := garbage
  status := .listen
  sndbuf := []
  rcvbuf := []

/-- **What a new stream can be.** -/
inductive Born (s : Stack) : Event → TcpStream → Prop
  | made {malloc : ℕ → Bool} : Born s (.nsocket .stream malloc) (newStream s.fdTable.getFdFrombitmap.1)
  | opened {seg : TcpSegment} {env : SegmentEnv} {p : Ptr} {listener : TcpStream}
    (hcksum : seg.cksumOk = true) (hdispatch : s.Dispatches seg p listener)
    (hstatus : listener.status = .listen) (hsyn : seg.Has RTE_TCP_SYN_FLAG)
    (hmalloc : env.malloc 1 = true) : Born s (.segment seg env) (openedStream seg env.iss)
  | halfOpened {seg : TcpSegment} {env : SegmentEnv} {p : Ptr} {listener : TcpStream}
    (hcksum : seg.cksumOk = true) (hdispatch : s.Dispatches seg p listener)
    (hstatus : listener.status = .listen) (hsyn : seg.Has RTE_TCP_SYN_FLAG)
    (hmalloc : env.malloc 1 = false) :
    Born s (.segment seg env) (halfOpenedStream seg env.iss env.garbage)

/-- **Why a stream is taken out.** -/
inductive Dies (s : Stack) (p : Ptr) (x : TcpStream) : Event → Prop
  | closed {fd : ℤ} {ok : Bool} {garbage : TcpFragment}
    (hhost : s.getHostinfoFromfd fd = some (.tcp p x)) (hstatus : x.status = .listen) :
    Dies s p x (.nclose fd ok garbage)
  | lastAck {seg : TcpSegment} {env : SegmentEnv} (hcksum : seg.cksumOk = true)
    (hdispatch : s.Dispatches seg p x) (hstatus : x.status = .lastAck)
    (hack : seg.Has RTE_TCP_ACK_FLAG) : Dies s p x (.segment seg env)

/-- **What an event does to the table**, and to the other addresses there are. -/
inductive Changes (s : Stack) (e : Event) (s' : Stack) : Prop
  | quiet (htouched : s.touched e = []) (htcbSet : s'.tcbSet = s.tcbSet) (hnext : s.next ≤ s'.next)
  | written {p : Ptr} {x x' : TcpStream} {notes : List StreamNote} (hmem : (p, x) ∈ s.tcbSet)
    (hevolves : Evolves s p x e notes x') (htouched : s.touched e = notes.map (fun n => (p, n)))
    (htcbSet : s'.tcbSet = (s.setStream p x').tcbSet) (hnext : s'.next = s.next)
  | added {x : TcpStream} (hborn : Born s e x) (htouched : s.touched e = [])
    (htcbSet : s'.tcbSet = (s.next, x) :: s.tcbSet) (hnext : s'.next = s.next + 1)
  | removed {p : Ptr} {x : TcpStream} (hmem : (p, x) ∈ s.tcbSet) (hdies : Dies s p x e)
    (htouched : s.touched e = [])
    (htcbSet : s'.tcbSet = s.tcbSet.remove p) (hnext : s'.next = s.next)
  | out {macaddr : UInt32 → Option Mac} (he : e = .out macaddr)
    (hs' : s' = (s.ngTcpOut macaddr).2)

/-- **Streams have addresses of their own.** -/
structure Allotted (s : Stack) : Prop where
  distinct : s.tcbSet.Distinct
  below : s.tcbSet.Below s.next

section Changes

variable {s s' : Stack} {e : Event} {p : Ptr} {x x' : TcpStream}

/-- A stream that is written to as it is. -/
theorem setStream_self (h : s.Allotted) (hmem : (p, x) ∈ s.tcbSet) :
    (s.setStream p x).tcbSet = s.tcbSet := by
  show s.tcbSet.map _ = _
  refine (List.map_congr_left (fun y hy => ?_)).trans (List.map_id s.tcbSet)
  show (if y.1 = p then (y.1, x) else y) = y
  split
  · next hp =>
    subst hp
    rw [h.distinct.eq hmem hy]
  · rfl

theorem Changes.nothing (htouched : s.touched e = []) : Changes s e s :=
  .quiet htouched rfl le_rfl

/-! ## Calls -/

theorem nsocket_changes (type : SockType) (malloc : ℕ → Bool) :
    Changes s (.nsocket type malloc) (s.nsocket type malloc).2 := by
  unfold nsocket
  cases type with
  | dgram =>
    simp only
    split
    · exact .quiet rfl rfl s.next.le_succ
    · exact .quiet rfl rfl le_rfl
  | stream =>
    simp only
    split
    · exact .added .made rfl rfl rfl
    · exact .quiet rfl rfl le_rfl
  | other => exact .quiet rfl rfl le_rfl

theorem nbind_changes {sockfd ret : ℤ} {addr : SockaddrIn}
    (hok : s.nbind sockfd addr = .ok (ret, s')) : Changes s (.nbind sockfd addr) s' := by
  unfold nbind at hok
  split at hok
  · cases hok
    exact .nothing rfl
  · cases hok
    exact .quiet rfl rfl le_rfl
  · next p stream hhost =>
    cases hok
    exact .written (holds_of_getHostinfo hhost).1 (.bind hhost) rfl rfl rfl
  · split at hok
    · cases hok
    · cases hok
      exact .nothing rfl

theorem nlisten_changes {sockfd ret : ℤ} (hok : s.nlisten sockfd = .ok (ret, s')) :
    Changes s (.nlisten sockfd) s' := by
  unfold nlisten at hok
  split at hok
  · cases hok
    exact .nothing rfl
  · cases hok
    exact .nothing rfl
  · next p stream hhost =>
    cases hok
    exact .written (holds_of_getHostinfo hhost).1 (.listen hhost) rfl rfl rfl
  · split at hok
    · cases hok
    · cases hok
      exact .nothing rfl

theorem naccept_changes {sockfd ret : ℤ} {addr : Option SockaddrIn}
    (hok : s.naccept sockfd = .ok (ret, addr, s')) : Changes s (.naccept sockfd) s' := by
  have htouched : s.touched (.naccept sockfd)
      = (s.acceptTarget sockfd).toList.map (fun p => (p, .accepted ret)) := by
    unfold touched
    simp only [hok]
    cases s.acceptTarget sockfd <;> rfl
  have hquiet : s.acceptTarget sockfd = none → s.touched (.naccept sockfd) = [] := by
    intro hnone
    rw [htouched, hnone]
    rfl
  unfold naccept at hok
  cases hhost : s.getHostinfoFromfd sockfd with
  | none =>
    rw [hhost] at hok
    cases hok
    exact .nothing (hquiet (by simp only [acceptTarget, hhost]))
  | some host =>
    rw [hhost] at hok
    cases host with
    | udp q host =>
      cases hok
      exact .nothing (hquiet (by simp only [acceptTarget, hhost]))
    | epoll q ep =>
      simp only at hok
      split at hok
      · cases hok
      · cases hok
        exact .nothing (hquiet (by simp only [acceptTarget, hhost]))
    | tcp q listener =>
      cases htarget : s.getAcceptTcb listener.dport with
      | none =>
        simp only [htarget] at hok
        cases hok
      | some y =>
        obtain ⟨p, apt⟩ := y
        simp only [htarget] at hok
        cases hok
        refine .written (NodeList.mem_of_first htarget) (.accept hhost htarget) ?_ rfl rfl
        rw [htouched]
        simp only [acceptTarget, hhost, htarget]
        rfl

theorem nsend_changes {sockfd ret : ℤ} {buf : List UInt8} {len : ℕ} {malloc : ℕ → Bool}
    (hok : s.nsend sockfd buf len malloc = .ok (ret, s')) :
    Changes s (.nsend sockfd buf len malloc) s' := by
  unfold nsend at hok
  split at hok
  · cases hok
    exact .nothing rfl
  · cases hok
    exact .nothing rfl
  · next p stream hhost =>
    split at hok
    · cases hok
      exact .nothing rfl
    split at hok
    · cases hok
      exact .nothing rfl
    split at hok
    · cases hok
    · next hle =>
      cases hok
      exact .written (holds_of_getHostinfo hhost).1 (.send hhost (not_lt.mp hle)) rfl rfl rfl
  · split at hok
    · cases hok
    · cases hok
      exact .nothing rfl

/-- `nrecv` writes to the ring only, which gets no longer. -/
theorem nrecv_eq_ok {stream stream' : TcpStream} {len : ℕ} {ret : ℤ} {copied : List UInt8}
    (hok : stream.nrecv len = .ok (ret, copied, stream')) :
    ∃ rcvbuf, rcvbuf.length ≤ stream.rcvbuf.length
      ∧ stream' = { stream with rcvbuf := rcvbuf } := by
  unfold TcpStream.nrecv at hok
  split at hok
  · cases hok
  · next fragment rest hrcvbuf =>
    rw [hrcvbuf, List.length_cons]
    split at hok
    · split at hok
      · cases hok
      · cases hok
        refine ⟨_, ?_, rfl⟩
        rcases ringEnqueue_cases rest _ with hring | hring
        · rw [hring]
          exact Nat.le_succ _
        · rw [hring, List.length_append, List.length_singleton]
    · split at hok
      · cases hok
        exact ⟨rest, Nat.le_succ _, rfl⟩
      · split at hok
        · cases hok
        · cases hok
          exact ⟨rest, Nat.le_succ _, rfl⟩

theorem nrecv_changes {sockfd ret : ℤ} {len : ℕ} {copied : List UInt8}
    (hok : s.nrecv sockfd len = .ok (ret, copied, s')) : Changes s (.nrecv sockfd len) s' := by
  unfold nrecv at hok
  split at hok
  · cases hok
    exact .nothing rfl
  · cases hok
    exact .nothing rfl
  · next p stream hhost =>
    obtain ⟨⟨ret', copied', stream'⟩, hrecv, hok⟩ := exists_of_bind_eq_ok hok
    obtain ⟨rcvbuf, hlength, rfl⟩ := nrecv_eq_ok hrecv
    cases hok
    exact .written (holds_of_getHostinfo hhost).1 (.recv hhost hlength) rfl rfl rfl
  · split at hok
    · cases hok
    · cases hok
      exact .nothing rfl

theorem nclose_changes {fd ret : ℤ} {ok : Bool} {garbage : TcpFragment}
    (hok : s.nclose fd ok garbage = .ok (ret, s')) : Changes s (.nclose fd ok garbage) s' := by
  unfold nclose at hok
  split at hok
  · cases hok
    exact .nothing rfl
  · obtain ⟨⟨ret', fdTable⟩, hset, hok⟩ := exists_of_bind_eq_ok hok
    cases hok
    exact .quiet rfl rfl le_rfl
  · next p stream hhost =>
    have hmem := (holds_of_getHostinfo hhost).1
    split at hok
    · next hstatus =>
      split at hok
      · cases hok
        exact .nothing rfl
      · next hmalloc =>
        obtain rfl : ok = true := by simpa using hmalloc
        obtain ⟨⟨ret', fdTable⟩, hset, hok⟩ := exists_of_bind_eq_ok hok
        cases hok
        exact .written hmem (.close hhost (FdTable.taken_of_setFdFrombitmap hset).1 hstatus) rfl rfl
          rfl
    · next hstatus =>
      cases hok
      exact .removed hmem (.closed hhost (not_not.mp hstatus)) rfl rfl rfl
  · split at hok
    · cases hok
    · cases hok
      exact .nothing rfl

theorem nepollCreate_changes {size ret : ℤ} {ok : Bool}
    (hok : s.nepollCreate size ok = .ok (ret, s')) : Changes s (.nepollCreate size ok) s' := by
  unfold nepollCreate at hok
  split at hok
  · cases hok
    exact .nothing rfl
  simp only at hok
  split at hok
  · cases hok
    exact .quiet rfl rfl s.next.le_succ
  · obtain ⟨⟨ret', fdTable⟩, hset, hok⟩ := exists_of_bind_eq_ok hok
    cases hok
    exact .quiet rfl rfl le_rfl

theorem nepollCtl_changes {epfd sockid ret : ℤ} {op : CtlOp} {event : Option EpollEvent} {ok : Bool}
    (hok : s.nepollCtl epfd op sockid event ok = .ok (ret, s')) :
    Changes s (.nepollCtl epfd op sockid event ok) s' := by
  unfold nepollCtl at hok
  split at hok
  · cases hok
    exact .nothing rfl
  · obtain ⟨⟨ret', ep⟩, hctl, hok⟩ := exists_of_bind_eq_ok hok
    cases hok
    exact .quiet rfl rfl le_rfl
  · split at hok
    · cases hok
      exact .nothing rfl
    · cases hok

theorem nepollWait_changes {epfd maxevents timeout ret : ℤ} {events : List EpollEvent}
    (hok : s.nepollWait epfd maxevents timeout = .ok (ret, events, s')) :
    Changes s (.nepollWait epfd maxevents timeout) s' := by
  unfold nepollWait at hok
  split at hok
  · cases hok
    exact .nothing rfl
  · obtain ⟨⟨cnt, events', ep⟩, hwait, hok⟩ := exists_of_bind_eq_ok hok
    cases hok
    exact .quiet rfl rfl le_rfl
  · split at hok
    · cases hok
      exact .nothing rfl
    · cases hok

/-! ## Segments -/

/-- **Queueing**, where it returns. -/
theorem enqueueRecvbuffer_advance {seg : TcpSegment} {tcplen ret : ℤ} {malloc : ℕ → Bool}
    (advance : UInt32)
    (hok : ngTcpEnqueueRecvbuffer x seg tcplen malloc = .ok (ret, x')) :
    x' = { x with rcvbuf := (x.advance seg tcplen advance malloc).rcvbuf } := by
  unfold ngTcpEnqueueRecvbuffer at hok
  unfold TcpStream.advance receivedFragment
  simp only
  split at hok
  · next hmalloc =>
    cases hok
    rw [if_neg (fun h => hmalloc h.1)]
  · next hmalloc =>
    simp only at hok
    split at hok
    · next hpos =>
      split at hok
      · next hmalloc' =>
        cases hok
        rw [if_neg (fun h => hmalloc' (h.2 hpos))]
      · next hmalloc' =>
        split at hok
        · cases hok
        · cases hok
          rw [if_pos ⟨not_not.mp hmalloc, fun _ => not_not.mp hmalloc'⟩, if_pos hpos]
    · next hneg =>
      cases hok
      rw [if_pos ⟨not_not.mp hmalloc, fun h => absurd h hneg⟩, if_neg hneg,
        Int.toNat_of_nonpos (not_lt.mp hneg)]
      rfl

/-- The ACK that is queued, where there is memory for it. -/
theorem sendAckpkt_snd (x : TcpStream) (seg : TcpSegment) (ok : Bool) :
    (ngTcpSendAckpkt x seg ok).2 = { x with
      sndbuf := if ok then ringEnqueue x.sndbuf (ackFragment seg x.sndNxt x.rcvNxt)
        else x.sndbuf } := by
  cases ok with
  | true => rfl
  | false => rfl

/-- **Receiving moves the numbers on**, and is seen by epoll. -/
theorem receive_advance {seg : TcpSegment} {tcplen : ℤ} {advance : UInt32} {malloc : ℕ → Bool}
    (hok : receive s p x seg tcplen advance malloc = .ok (x', s')) :
    x' = x.advance seg tcplen advance malloc ∧ ∃ ep, s' = { s.setStream p x' with ep := ep } := by
  obtain ⟨-, q, ep, ret, ep', -, -, hs'⟩ := receive_eq_ok hok
  refine ⟨?_, _, hs'⟩
  unfold receive at hok
  obtain ⟨⟨ret', x₁⟩, henqueue, hok⟩ := exists_of_bind_eq_ok hok
  obtain ⟨s₁, hcallback, hok⟩ := exists_of_bind_eq_ok hok
  obtain ⟨hx', -⟩ := Prod.mk.inj (Except.ok.inj hok)
  rw [← hx', enqueueRecvbuffer_advance advance henqueue]
  exact sendAckpkt_snd _ seg (malloc 2)

variable {seg : TcpSegment} {env : SegmentEnv} {ret : ℤ}

/-- What a segment does, by the state of the stream it goes to. -/
theorem touched_segment (hcksum : seg.cksumOk = true) (hdispatch : s.Dispatches seg p x) :
    s.touched (.segment seg env) = (match x.status with
      | .synRcvd => if seg.Has RTE_TCP_ACK_FLAG then [(p, .established seg)] else []
      | .established => [(p, .taken seg)]
      | _ => []) := by
  unfold touched takes
  simp only [if_pos hcksum]
  rw [hdispatch]

theorem handleListen_changes (hcksum : seg.cksumOk = true) (hdispatch : s.Dispatches seg p x)
    (hstatus : x.status = .listen) (hok : ngTcpHandleListen s x seg env = .ok (ret, s')) :
    Changes s (.segment seg env) s' := by
  have htouched : s.touched (.segment seg env) = [] := by
    rw [touched_segment hcksum hdispatch, hstatus]
  unfold ngTcpHandleListen at hok
  split at hok
  · next hsyn =>
    split at hok
    · cases hok
    simp only at hok
    split at hok
    · next hmalloc =>
      cases hok
      refine .added (.halfOpened hcksum hdispatch hsyn.2 hsyn.1 ?_) htouched rfl rfl
      simpa using hmalloc
    · next hmalloc =>
      cases hok
      refine .added (.opened hcksum hdispatch hsyn.2 hsyn.1 ?_) htouched rfl rfl
      simpa using hmalloc
  · cases hok
    exact .nothing htouched

theorem handleSynRcvd_changes (hcksum : seg.cksumOk = true) (hdispatch : s.Dispatches seg p x)
    (hstatus : x.status = .synRcvd) (hok : ngTcpHandleSynRcvd s p x seg = .ok (ret, s')) :
    Changes s (.segment seg env) s' := by
  have htouched : s.touched (.segment seg env)
      = if seg.Has RTE_TCP_ACK_FLAG then [(p, .established seg)] else [] := by
    rw [touched_segment hcksum hdispatch, hstatus]
  unfold ngTcpHandleSynRcvd at hok
  split at hok
  · next hack =>
    rw [if_pos hack.1] at htouched
    simp only at hok
    split at hok
    · cases hok
    · obtain ⟨s₁, hcallback, hok⟩ := exists_of_bind_eq_ok hok
      cases hok
      obtain ⟨q, ep, ret', ep', -, -, rfl⟩ := callback_eq_ok hcallback
      exact .written (mem_of_search hdispatch) (.handshake hcksum hdispatch hack.2 hack.1) htouched
        rfl rfl
  · next hnot =>
    rw [if_neg (fun hack => hnot ⟨hack, hstatus⟩)] at htouched
    cases hok
    exact .nothing htouched

theorem handleEstablished_changes (h : s.Allotted) (hcksum : seg.cksumOk = true)
    (hdispatch : s.Dispatches seg p x) (hstatus : x.status = .established)
    (hok : ngTcpHandleEstablished s p x seg seg.tcplen env.malloc = .ok (ret, s')) :
    Changes s (.segment seg env) s' := by
  have hmem := mem_of_search hdispatch
  have htouched : s.touched (.segment seg env) = [(p, .taken seg)] := by
    rw [touched_segment hcksum hdispatch, hstatus]
  unfold ngTcpHandleEstablished at hok
  obtain ⟨⟨x₁, s₁⟩, hpush, hok⟩ := exists_of_bind_eq_ok hok
  obtain ⟨⟨x₂, s₂⟩, hfinish, hok⟩ := exists_of_bind_eq_ok hok
  obtain ⟨-, rfl⟩ := Prod.mk.inj (Except.ok.inj hok)
  by_cases hpsh : seg.Has RTE_TCP_PSH_FLAG
  · rw [if_pos hpsh] at hpush
    obtain ⟨rfl, ep, rfl⟩ := receive_advance hpush
    by_cases hfin : seg.Has RTE_TCP_FIN_FLAG
    · rw [if_pos hfin] at hfinish
      obtain ⟨rfl, ep', rfl⟩ := receive_advance hfinish
      refine .written hmem (.pushFin hcksum hdispatch hstatus hpsh hfin) htouched ?_ rfl
      have hset : ∀ y z, ((s.setStream p y).setStream p z).tcbSet = (s.setStream p z).tcbSet :=
        fun y z => congrArg Stack.tcbSet (setStream_setStream s p y z)
      exact hset _ _
    · rw [if_neg hfin] at hfinish
      obtain ⟨rfl, rfl⟩ := Prod.mk.inj (Except.ok.inj hfinish)
      exact .written hmem (.push hcksum hdispatch hstatus hpsh hfin) htouched rfl rfl
  · rw [if_neg hpsh] at hpush
    obtain ⟨rfl, rfl⟩ := Prod.mk.inj (Except.ok.inj hpush)
    by_cases hfin : seg.Has RTE_TCP_FIN_FLAG
    · rw [if_pos hfin] at hfinish
      obtain ⟨rfl, ep, rfl⟩ := receive_advance hfinish
      exact .written hmem (.fin hcksum hdispatch hstatus hpsh hfin) htouched rfl rfl
    · rw [if_neg hfin] at hfinish
      obtain ⟨rfl, rfl⟩ := Prod.mk.inj (Except.ok.inj hfinish)
      exact .written hmem (.ignore hcksum hdispatch hstatus hpsh hfin) htouched
        (setStream_self h hmem).symm rfl

theorem handleLastAck_changes (hcksum : seg.cksumOk = true) (hdispatch : s.Dispatches seg p x)
    (hstatus : x.status = .lastAck) :
    Changes s (.segment seg env) (ngTcpHandleLastAck s p x seg).2 := by
  have htouched : s.touched (.segment seg env) = [] := by
    rw [touched_segment hcksum hdispatch, hstatus]
  unfold ngTcpHandleLastAck
  split
  · next hack =>
    exact .removed (mem_of_search hdispatch) (.lastAck hcksum hdispatch hstatus hack.1) htouched rfl rfl
  · exact .nothing htouched

theorem ngTcpProcess_changes (h : s.Allotted) (hok : s.ngTcpProcess seg env = .ok (ret, s')) :
    Changes s (.segment seg env) s' := by
  unfold ngTcpProcess at hok
  split at hok
  · next hcksum =>
    cases hok
    exact .nothing (if_neg hcksum)
  · next hcksum =>
    have hcksum : seg.cksumOk = true := by simpa using hcksum
    cases hdispatch : s.ngTcpStreamSearch seg.srcAddr seg.dstAddr seg.srcPort seg.dstPort with
    | none =>
      rw [hdispatch] at hok
      cases hok
      refine .nothing ?_
      unfold touched takes
      simp only [hdispatch, if_pos hcksum]
    | some y =>
      obtain ⟨p, x⟩ := y
      rw [hdispatch] at hok
      obtain ⟨⟨ret', s₁⟩, hhandle, hok⟩ := exists_of_bind_eq_ok hok
      obtain ⟨-, rfl⟩ := Prod.mk.inj (Except.ok.inj hok)
      cases hstatus : x.status with
      | listen =>
        rw [hstatus] at hhandle
        exact handleListen_changes hcksum hdispatch hstatus hhandle
      | synRcvd =>
        rw [hstatus] at hhandle
        exact handleSynRcvd_changes hcksum hdispatch hstatus hhandle
      | established =>
        rw [hstatus] at hhandle
        exact handleEstablished_changes h hcksum hdispatch hstatus hhandle
      | lastAck =>
        rw [hstatus] at hhandle
        have hlast : ngTcpHandleLastAck s p x seg = (ret', s₁) := Except.ok.inj hhandle
        obtain rfl : (ngTcpHandleLastAck s p x seg).2 = s₁ := congrArg Prod.snd hlast
        exact handleLastAck_changes hcksum hdispatch hstatus
      | _ =>
        rw [hstatus] at hhandle
        cases hhandle
        refine .nothing ?_
        rw [touched_segment hcksum hdispatch, hstatus]

/-- **What an event does.** -/
theorem handle_changes (h : s.Allotted) (hok : s.handle e = .ok s') : Changes s e s' := by
  cases e with
  | nsocket type malloc =>
    obtain rfl := Except.ok.inj hok
    exact nsocket_changes type malloc
  | nbind sockfd addr =>
    obtain ⟨r, hr, rfl⟩ := exists_of_map_eq_ok hok
    exact nbind_changes hr
  | nlisten sockfd =>
    obtain ⟨r, hr, rfl⟩ := exists_of_map_eq_ok hok
    exact nlisten_changes hr
  | naccept sockfd =>
    obtain ⟨r, hr, rfl⟩ := exists_of_map_eq_ok hok
    exact naccept_changes hr
  | nsend sockfd buf len malloc =>
    obtain ⟨r, hr, rfl⟩ := exists_of_map_eq_ok hok
    exact nsend_changes hr
  | nrecv sockfd len =>
    obtain ⟨r, hr, rfl⟩ := exists_of_map_eq_ok hok
    exact nrecv_changes hr
  | nclose fd ok garbage =>
    obtain ⟨r, hr, rfl⟩ := exists_of_map_eq_ok hok
    exact nclose_changes hr
  | nepollCreate size ok =>
    obtain ⟨r, hr, rfl⟩ := exists_of_map_eq_ok hok
    exact nepollCreate_changes hr
  | nepollCtl epfd op sockid event ok =>
    obtain ⟨r, hr, rfl⟩ := exists_of_map_eq_ok hok
    exact nepollCtl_changes hr
  | nepollWait epfd maxevents timeout =>
    obtain ⟨r, hr, rfl⟩ := exists_of_map_eq_ok hok
    exact nepollWait_changes hr
  | segment seg env =>
    obtain ⟨r, hr, rfl⟩ := exists_of_map_eq_ok hok
    exact ngTcpProcess_changes h hr
  | out macaddr =>
    obtain rfl := Except.ok.inj hok
    exact .out rfl rfl

end Changes

end Stack

end Ustack
