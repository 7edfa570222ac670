import LinuxLearn.NodeList
import LinuxLearn.UstackEpoll
import LinuxLearn.UstackStream

/-!
# The user-space stack

The state of `tcp_concurrency.c` that its sockets share: the descriptors,
the list of UDP hosts, the table of TCP streams with its epoll object, and
what works on it – the calls of the application, and `ng_tcp_process` for
each segment received.

A descriptor is looked up in the two lists and in the epoll object, and
what is found is told apart by the byte where hosts and streams have their
protocol. An epoll object has the count of its items there.
-/

namespace Ustack

/-- `IPPROTO_TCP`. -/
def IPPROTO_TCP : ℤ := 6

/-- `IPPROTO_UDP`. -/
def IPPROTO_UDP : ℤ := 17

/-- **`struct localhost`**, a UDP socket; its rings are left out. -/
structure Localhost where
  fd : ℤ
  /-- In network order, as the port. -/
  localip : UInt32
  localport : UInt16

/-- **The stack.** -/
structure Stack where
  /-- The bitmap of descriptors. -/
  fdTable : FdTable
  /-- The UDP sockets, the newest first. -/
  lhost : NodeList Localhost
  /-- The streams, the newest first. -/
  tcbSet : NodeList TcpStream
  /-- The epoll object of the table. -/
  ep : Option (Ptr × Eventpoll)
  /-- The next address to be allocated. -/
  next : Ptr

/-- What a descriptor names. -/
inductive Host where
  | udp (p : Ptr) (host : Localhost)
  | tcp (p : Ptr) (stream : TcpStream)
  | epoll (p : Ptr) (ep : Eventpoll)

/-- `host->protocol`, which in an epoll object is the low byte of `rbcnt`. -/
def Host.protocol : Host → ℤ
  | udp _ _ => IPPROTO_UDP
  | tcp _ _ => IPPROTO_TCP
  | epoll _ ep => ep.rbcnt % 256

/-- The types of sockets. -/
inductive SockType where
  | dgram
  | stream
  | other
deriving DecidableEq

/-- **`struct sockaddr_in`.** -/
structure SockaddrIn where
  sinPort : UInt16
  sinAddr : UInt32

/-- **What comes to a segment from outside.** -/
structure SegmentEnv where
  /-- Which allocations succeed. -/
  malloc : ℕ → Bool
  /-- The random sequence number of a new stream. -/
  iss : UInt32
  /-- What was in its memory. -/
  garbage : UInt32

namespace Stack

/-- **The stack before any call.** -/
def init : Stack := ⟨FdTable.zero, [], [], none, 1⟩

/-- **`get_hostinfo_fromfd`.** -/
def getHostinfoFromfd (s : Stack) (sockfd : ℤ) : Option Host :=
  match s.lhost.first (fun host => sockfd = host.fd) with
  | some (p, host) => some (.udp p host)
  | none =>
    match s.tcbSet.first (fun stream => sockfd = stream.fd) with
    | some (p, stream) => some (.tcp p stream)
    | none =>
      match s.ep with
      | some (p, ep) => if ep.fd = sockfd then some (.epoll p ep) else none
      | none => none

/-- **`get_accept_tcb`.** -/
def getAcceptTcb (s : Stack) (dport : UInt16) : Option (Ptr × TcpStream) :=
  s.tcbSet.first (fun apt => dport = apt.dport ∧ apt.fd = -1)

/-- The stream at an address is written to. -/
def setStream (s : Stack) (p : Ptr) (stream : TcpStream) : Stack :=
  { s with tcbSet := s.tcbSet.update p (fun _ => stream) }

/-- An object is in the stack, under a descriptor. -/
def Holds (s : Stack) (fd : ℤ) : Host → Prop
  | .udp p host => (p, host) ∈ s.lhost ∧ host.fd = fd
  | .tcp p stream => (p, stream) ∈ s.tcbSet ∧ stream.fd = fd
  | .epoll p ep => s.ep = some (p, ep) ∧ ep.fd = fd

/-- What is found is in the stack, under the descriptor looked up. -/
theorem holds_of_getHostinfo {s : Stack} {fd : ℤ} {host : Host}
    (h : s.getHostinfoFromfd fd = some host) : s.Holds fd host := by
  unfold getHostinfoFromfd at h
  split at h
  · next p x hfirst =>
    obtain rfl := Option.some.inj h
    exact ⟨NodeList.mem_of_first hfirst, (NodeList.holds_of_first hfirst).symm⟩
  · split at h
    · next p x hfirst =>
      obtain rfl := Option.some.inj h
      exact ⟨NodeList.mem_of_first hfirst, (NodeList.holds_of_first hfirst).symm⟩
    · split at h
      · next p ep hep =>
        split at h
        · next hfd =>
          obtain rfl := Option.some.inj h
          exact ⟨hep, hfd⟩
        · cases h
      · cases h

/-- Whatever is in the stack under a descriptor, something is found. -/
theorem getHostinfo_ne_none {s : Stack} {fd : ℤ} (host : Host) (h : s.Holds fd host) :
    s.getHostinfoFromfd fd ≠ none := by
  intro hnone
  unfold getHostinfoFromfd at hnone
  split at hnone
  · cases hnone
  · next hlhost =>
    split at hnone
    · cases hnone
    · next htcbSet =>
      cases host with
      | udp p x => exact NodeList.first_eq_none.mp hlhost (p, x) h.1 h.2.symm
      | tcp p x => exact NodeList.first_eq_none.mp htcbSet (p, x) h.1 h.2.symm
      | epoll p ep =>
        rw [h.1] at hnone
        simp [h.2] at hnone

/-! ## Calls of the application -/

/-- A stream as `nsocket` makes it. -/
def newStream (fd : ℤ) : TcpStream := ⟨fd, 0, 0, 0, 0, 0, 0, .closed, [], []⟩

/-- **`nsocket`.** An object and its two rings are allocated, which succeeds as `malloc`
says. `rte_ring_create` is taken to succeed where there is memory, although the names
of the rings are constants and it refuses a name that is in use. -/
def nsocket (s : Stack) (type : SockType) (malloc : ℕ → Bool) : ℤ × Stack :=
  let (fd, fdTable) := s.fdTable.getFdFrombitmap
  let s := { s with fdTable := fdTable }
  match type with
  | .dgram =>
    if malloc 0 ∧ malloc 1 ∧ malloc 2 then
      (fd, { s with lhost := (s.next, ⟨fd, 0, 0⟩) :: s.lhost, next := s.next + 1 })
    else (-1, s)
  | .stream =>
    if malloc 0 ∧ malloc 1 ∧ malloc 2 then
      (fd, { s with tcbSet := (s.next, newStream fd) :: s.tcbSet, next := s.next + 1 })
    else (-1, s)
  | .other => (fd, s)

/-- **`nbind`.** -/
def nbind (s : Stack) (sockfd : ℤ) (addr : SockaddrIn) : Except Stop (ℤ × Stack) :=
  match s.getHostinfoFromfd sockfd with
  | none => .ok (-1, s)
  | some (.udp p _) =>
    .ok (0, { s with lhost := s.lhost.update p (fun host =>
      { host with localport := addr.sinPort, localip := addr.sinAddr }) })
  | some (.tcp p stream) =>
    .ok (0, s.setStream p
      { stream with dport := addr.sinPort, dip := addr.sinAddr, status := .closed })
  | some (.epoll p ep) =>
    if (Host.epoll p ep).protocol = IPPROTO_UDP ∨ (Host.epoll p ep).protocol = IPPROTO_TCP then
      .error .confused
    else .ok (0, s)

/-- **`nlisten`.** -/
def nlisten (s : Stack) (sockfd : ℤ) : Except Stop (ℤ × Stack) :=
  match s.getHostinfoFromfd sockfd with
  | none => .ok (-1, s)
  | some (.udp _ _) => .ok (0, s)
  | some (.tcp p stream) => .ok (0, s.setStream p { stream with status := .listen })
  | some (.epoll p ep) =>
    if (Host.epoll p ep).protocol = IPPROTO_TCP then .error .confused else .ok (0, s)

/-- **`naccept`**: the first stream of the port that has no descriptor gets one,
or none is left for it. The address of the client is returned, too. -/
def naccept (s : Stack) (sockfd : ℤ) : Except Stop (ℤ × Option SockaddrIn × Stack) :=
  match s.getHostinfoFromfd sockfd with
  | none => .ok (-1, none, s)
  | some (.udp _ _) => .ok (-1, none, s)
  | some (.tcp _ stream) =>
    match s.getAcceptTcb stream.dport with
    | none => .error .blocked
    | some (p, apt) =>
      let (fd, fdTable) := s.fdTable.getFdFrombitmap
      .ok (fd, some ⟨apt.sport, apt.sip⟩,
        { s with fdTable := fdTable }.setStream p { apt with fd := fd })
  | some (.epoll p ep) =>
    if (Host.epoll p ep).protocol = IPPROTO_TCP then .error .confused else .ok (-1, none, s)

/-- **`nsend`** of the first `len` bytes of a buffer. A fragment has 32 bits for
its length, and what it keeps there is returned. -/
def nsend (s : Stack) (sockfd : ℤ) (buf : List UInt8) (len : ℕ) (malloc : ℕ → Bool) :
    Except Stop (ℤ × Stack) :=
  match s.getHostinfoFromfd sockfd with
  | none => .ok (-1, s)
  | some (.udp _ _) => .ok (0, s)
  | some (.tcp p stream) =>
    if ¬ malloc 0 then .ok (-2, s)
    else if ¬ malloc 1 then .ok (-1, s)
    else if buf.length < len then .error .overread
    else
      let fragment : TcpFragment :=
        { TcpFragment.zero with
          dport := stream.sport
          sport := stream.dport
          acknum := stream.rcvNxt
          seqnum := stream.sndNxt
          tcpFlags := RTE_TCP_ACK_FLAG ||| RTE_TCP_PSH_FLAG
          windows := TCP_INITIAL_WINDOW
          hdrlenOff := 0x50
          data := some (buf.take len ++ [0])
          length := len % 2 ^ 32 }
      .ok (fragment.length, s.setStream p { stream with sndbuf := ringEnqueue stream.sndbuf fragment })
  | some (.epoll p ep) =>
    if (Host.epoll p ep).protocol = IPPROTO_TCP then .error .confused else .ok (0, s)

/-- **`nrecv`**: what it returns, and what it copies. -/
def nrecv (s : Stack) (sockfd : ℤ) (len : ℕ) : Except Stop (ℤ × List UInt8 × Stack) :=
  match s.getHostinfoFromfd sockfd with
  | none => .ok (-1, [], s)
  | some (.udp _ _) => .ok (0, [], s)
  | some (.tcp p stream) => do
    let (length, copied, stream) ← stream.nrecv len
    return (length, copied, s.setStream p stream)
  | some (.epoll p ep) =>
    if (Host.epoll p ep).protocol = IPPROTO_TCP then .error .confused else .ok (0, [], s)

/-- **`nclose`.** A stream that does not listen stays in the table until its last
ACK, a listener is taken out of it and keeps its descriptor, and an epoll
object stays as it is. `garbage` is what is in the memory of the FIN. -/
def nclose (s : Stack) (fd : ℤ) (ok : Bool) (garbage : TcpFragment) : Except Stop (ℤ × Stack) :=
  match s.getHostinfoFromfd fd with
  | none => .ok (-1, s)
  | some (.udp p _) => do
    let (_, fdTable) ← s.fdTable.setFdFrombitmap fd
    return (0, { s with lhost := s.lhost.remove p, fdTable := fdTable })
  | some (.tcp p stream) =>
    if stream.status ≠ .listen then
      if ¬ ok then .ok (-1, s)
      else do
        let fragment : TcpFragment :=
          { garbage with
            data := none
            length := 0
            sport := stream.dport
            dport := stream.sport
            seqnum := stream.sndNxt
            acknum := stream.rcvNxt
            tcpFlags := RTE_TCP_FIN_FLAG ||| RTE_TCP_ACK_FLAG
            windows := TCP_INITIAL_WINDOW
            hdrlenOff := 0x50 }
        let s := s.setStream p
          { stream with sndbuf := ringEnqueue stream.sndbuf fragment, status := .lastAck }
        let (_, fdTable) ← s.fdTable.setFdFrombitmap fd
        return (0, { s with fdTable := fdTable })
    else .ok (0, { s with tcbSet := s.tcbSet.remove p })
  | some (.epoll p ep) =>
    if (Host.epoll p ep).protocol = IPPROTO_UDP ∨ (Host.epoll p ep).protocol = IPPROTO_TCP then
      .error .confused
    else .ok (0, s)

/-- **`nepoll_create`.** The object takes the place of one that was there. -/
def nepollCreate (s : Stack) (size : ℤ) (ok : Bool) : Except Stop (ℤ × Stack) :=
  if size ≤ 0 then .ok (-1, s)
  else
    let (epfd, fdTable) := s.fdTable.getFdFrombitmap
    if ok then
      .ok (epfd, { s with
        fdTable := fdTable
        ep := some (s.next, Eventpoll.create epfd)
        next := s.next + 1 })
    else do
      let (_, fdTable) ← fdTable.setFdFrombitmap epfd
      return (-1, { s with fdTable := fdTable })

/-- **`nepoll_ctl`.** -/
def nepollCtl (s : Stack) (epfd : ℤ) (op : CtlOp) (sockid : ℤ) (event : Option EpollEvent)
    (ok : Bool) : Except Stop (ℤ × Stack) :=
  match s.getHostinfoFromfd epfd with
  | none => .ok (-1, s)
  | some (.epoll p ep) => do
    let (ret, ep) ← ep.nepollCtl op sockid event ok
    return (ret, { s with ep := some (p, ep) })
  | some _ => if event = none ∧ op ≠ .del then .ok (-1, s) else .error .confused

/-- **`nepoll_wait`.** -/
def nepollWait (s : Stack) (epfd maxevents timeout : ℤ) :
    Except Stop (ℤ × List EpollEvent × Stack) :=
  match s.getHostinfoFromfd epfd with
  | none => .ok (-1, [], s)
  | some (.epoll p ep) => do
    let (cnt, events, ep) ← ep.nepollWait maxevents timeout
    return (cnt, events, { s with ep := some (p, ep) })
  | some _ => if maxevents ≤ 0 then .ok (-1, [], s) else .error .confused

/-! ## Segments -/

/-- **`ng_tcp_stream_search`**: by address, and then a listener by its port. -/
def ngTcpStreamSearch (s : Stack) (sip dip : UInt32) (sport dport : UInt16) :
    Option (Ptr × TcpStream) :=
  (s.tcbSet.first (fun iter => iter.sip = sip ∧ iter.dip = dip ∧ iter.sport = sport
      ∧ iter.dport = dport)).or
    (s.tcbSet.first (fun iter => iter.dport = dport ∧ iter.status = .listen))

/-- `epoll_event_callback(table->ep, …)`. -/
def callback (s : Stack) (sockid : ℤ) : Except Stop Stack :=
  match s.ep with
  | none => .error .null
  | some (p, ep) => do
    let (_, ep) ← ep.epollEventCallback sockid EPOLLIN
    return { s with ep := some (p, ep) }

/-- **`ng_tcp_handle_listen`.** What `ng_tcp_stream_create` returns is linked
without a look at it. Its rings are named after an address and a port, with nothing
between the two, so that the names of two streams can collide; `rte_ring_create` is
taken to succeed nevertheless. -/
def ngTcpHandleListen (s : Stack) (stream : TcpStream) (seg : TcpSegment) (env : SegmentEnv) :
    Except Stop (ℤ × Stack) :=
  if seg.Has RTE_TCP_SYN_FLAG ∧ stream.status = .listen then
    if ¬ env.malloc 0 then .error .null
    else
      let syn : TcpStream :=
        { fd := -1
          sip := seg.srcAddr
          dip := seg.dstAddr
          sport := seg.srcPort
          dport := seg.dstPort
          sndNxt := env.iss
          rcvNxt := env.garbage
          status := .listen
          sndbuf := []
          rcvbuf := [] }
      if ¬ env.malloc 1 then
        .ok (-1, { s with tcbSet := (s.next, syn) :: s.tcbSet, next := s.next + 1 })
      else
        let fragment : TcpFragment :=
          { TcpFragment.zero with
            sport := seg.dstPort
            dport := seg.srcPort
            seqnum := syn.sndNxt
            acknum := seg.sentSeq + 1
            tcpFlags := RTE_TCP_SYN_FLAG ||| RTE_TCP_ACK_FLAG
            windows := TCP_INITIAL_WINDOW
            hdrlenOff := 0x50 }
        let syn :=
          { syn with
            rcvNxt := fragment.acknum
            sndbuf := ringEnqueue syn.sndbuf fragment
            status := .synRcvd }
        .ok (0, { s with tcbSet := (s.next, syn) :: s.tcbSet, next := s.next + 1 })
  else .ok (0, s)

/-- **`ng_tcp_handle_syn_rcvd`.** The number that is acknowledged is compared, and
nothing follows from it. -/
def ngTcpHandleSynRcvd (s : Stack) (p : Ptr) (stream : TcpStream) (seg : TcpSegment) :
    Except Stop (ℤ × Stack) :=
  if seg.Has RTE_TCP_ACK_FLAG ∧ stream.status = .synRcvd then
    let s := s.setStream p { stream with status := .established }
    match s.ngTcpStreamSearch 0 0 0 stream.dport with
    | none => .error .exit
    | some (_, listener) => do
      let s ← s.callback listener.fd
      return (0, s)
  else .ok (0, s)

/-- **`ng_tcp_send_ackpkt`.** -/
def ngTcpSendAckpkt (stream : TcpStream) (seg : TcpSegment) (ok : Bool) : ℤ × TcpStream :=
  if ¬ ok then (-1, stream)
  else
    let ackfrag : TcpFragment :=
      { TcpFragment.zero with
        dport := seg.srcPort
        sport := seg.dstPort
        acknum := stream.rcvNxt
        seqnum := stream.sndNxt
        tcpFlags := RTE_TCP_ACK_FLAG
        windows := TCP_INITIAL_WINDOW
        hdrlenOff := 0x50 }
    (0, { stream with sndbuf := ringEnqueue stream.sndbuf ackfrag })

/-- What a PSH and a FIN have in common: something is queued, epoll is told, the
numbers move on, and an ACK is sent. -/
def receive (s : Stack) (p : Ptr) (stream : TcpStream) (seg : TcpSegment) (tcplen : ℤ)
    (advance : UInt32) (malloc : ℕ → Bool) : Except Stop (TcpStream × Stack) := do
  let (_, stream) ← ngTcpEnqueueRecvbuffer stream seg tcplen malloc
  let s ← (s.setStream p stream).callback stream.fd
  let stream := { stream with rcvNxt := stream.rcvNxt + advance, sndNxt := seg.recvAck }
  let (_, stream) := ngTcpSendAckpkt stream seg (malloc 2)
  return (stream, s.setStream p stream)

/-- **`ng_tcp_handle_established`.** -/
def ngTcpHandleEstablished (s : Stack) (p : Ptr) (stream : TcpStream) (seg : TcpSegment)
    (tcplen : ℤ) (malloc : ℕ → Bool) : Except Stop (ℤ × Stack) := do
  let (stream, s) ← (if seg.Has RTE_TCP_PSH_FLAG then
      receive s p stream seg tcplen (UInt32.ofInt (tcplen - seg.hdrlen * 4)) malloc
    else .ok (stream, s))
  let (_, s) ← (if seg.Has RTE_TCP_FIN_FLAG then
      receive s p { stream with status := .closeWait } seg seg.hdrlen 1 (fun i => malloc (i + 3))
    else .ok (stream, s))
  return (0, s)

/-- **`ng_tcp_handle_last_ack`.** -/
def ngTcpHandleLastAck (s : Stack) (p : Ptr) (stream : TcpStream) (seg : TcpSegment) :
    ℤ × Stack :=
  if seg.Has RTE_TCP_ACK_FLAG ∧ stream.status = .lastAck then
    (0, { s with tcbSet := s.tcbSet.remove p })
  else (0, s)

/-- **`ng_tcp_process`.** `ng_tcp_handle_close_wait` does nothing, and the other
states are a client's. -/
def ngTcpProcess (s : Stack) (seg : TcpSegment) (env : SegmentEnv) : Except Stop (ℤ × Stack) :=
  if ¬ seg.cksumOk then .ok (-1, s)
  else
    match s.ngTcpStreamSearch seg.srcAddr seg.dstAddr seg.srcPort seg.dstPort with
    | none => .ok (-2, s)
    | some (p, stream) => do
      let (_, s) ← (match stream.status with
        | .listen => ngTcpHandleListen s stream seg env
        | .synRcvd => ngTcpHandleSynRcvd s p stream seg
        | .established => ngTcpHandleEstablished s p stream seg seg.tcplen env.malloc
        | .lastAck => .ok (ngTcpHandleLastAck s p stream seg)
        | _ => .ok (0, s))
      return (0, s)

/-! ## What a segment can do -/

section Segment

variable {s s' : Stack} {p : Ptr} {stream stream' : TcpStream} {seg : TcpSegment}

theorem setStream_setStream (s : Stack) (p : Ptr) (stream stream' : TcpStream) :
    (s.setStream p stream).setStream p stream' = s.setStream p stream' := by
  unfold setStream NodeList.update
  simp only [List.map_map]
  congr 1
  refine List.map_congr_left (fun x _ => ?_)
  by_cases hx : x.1 = p <;> simp [hx]

theorem mem_setStream {x : Ptr × TcpStream} :
    x ∈ (s.setStream p stream).tcbSet
      ↔ (x.1 ≠ p ∧ x ∈ s.tcbSet) ∨ ∃ a, (p, a) ∈ s.tcbSet ∧ x = (p, stream) :=
  NodeList.mem_update (f := fun _ => stream)

/-- **Telling epoll** changes the epoll object only. -/
theorem callback_eq_ok {sockid : ℤ} (h : s.callback sockid = .ok s') :
    ∃ q ep ret ep', s.ep = some (q, ep) ∧ ep.epollEventCallback sockid EPOLLIN = .ok (ret, ep')
      ∧ s' = { s with ep := some (q, ep') } := by
  unfold callback at h
  cases hep : s.ep with
  | none =>
    rw [hep] at h
    cases h
  | some x =>
    rw [hep] at h
    obtain ⟨⟨ret, ep'⟩, hcallback, hs'⟩ := exists_of_bind_eq_ok h
    exact ⟨x.1, x.2, ret, ep', rfl, hcallback, (Except.ok.inj hs').symm⟩

/-- **Queueing** adds at most one fragment to a stream, no longer than the
payload, and changes nothing else. -/
theorem enqueueRecvbuffer_eq_ok {tcplen : ℤ} {malloc : ℕ → Bool} {ret : ℤ}
    (h : ngTcpEnqueueRecvbuffer stream seg tcplen malloc = .ok (ret, stream')) :
    ∃ rcvbuf, stream' = { stream with rcvbuf := rcvbuf }
      ∧ (rcvbuf = stream.rcvbuf ∨ ∃ f : TcpFragment, rcvbuf = stream.rcvbuf ++ [f]
        ∧ f.length = (tcplen - seg.hdrlen * 4).toNat) := by
  unfold ngTcpEnqueueRecvbuffer at h
  split at h
  · obtain ⟨-, rfl⟩ := Prod.mk.inj (Except.ok.inj h)
    exact ⟨stream.rcvbuf, rfl, Or.inl rfl⟩
  simp only at h
  split at h
  · split at h
    · obtain ⟨-, rfl⟩ := Prod.mk.inj (Except.ok.inj h)
      exact ⟨stream.rcvbuf, rfl, Or.inl rfl⟩
    split at h
    · cases h
    obtain ⟨-, rfl⟩ := Prod.mk.inj (Except.ok.inj h)
    exact ⟨_, rfl, (ringEnqueue_cases _ _).imp_right (fun he => ⟨_, he, rfl⟩)⟩
  · next hneg =>
    obtain ⟨-, rfl⟩ := Prod.mk.inj (Except.ok.inj h)
    refine ⟨_, rfl, (ringEnqueue_cases _ _).imp_right (fun he => ⟨_, he, ?_⟩)⟩
    exact (Int.toNat_of_nonpos (not_lt.mp hneg)).symm

/-- **What a PSH or a FIN does to its stream**: at most one fragment is queued,
its numbers move and an ACK is queued; its name and its state stay. -/
structure Received (seg : TcpSegment) (tcplen : ℤ) (stream stream' : TcpStream) : Prop where
  fd_eq : stream'.fd = stream.fd
  status_eq : stream'.status = stream.status
  rcvbuf : stream'.rcvbuf = stream.rcvbuf ∨ ∃ f : TcpFragment, stream'.rcvbuf = stream.rcvbuf ++ [f]
    ∧ f.length = (tcplen - seg.hdrlen * 4).toNat

theorem sendAckpkt_eq (stream : TcpStream) (seg : TcpSegment) (ok : Bool) :
    ∃ sndbuf, (ngTcpSendAckpkt stream seg ok).2 = { stream with sndbuf := sndbuf } := by
  unfold ngTcpSendAckpkt
  split
  · exact ⟨stream.sndbuf, rfl⟩
  · exact ⟨_, rfl⟩

/-- **Receiving** writes to the stream and tells epoll of it. -/
theorem receive_eq_ok {tcplen : ℤ} {advance : UInt32} {malloc : ℕ → Bool}
    (h : receive s p stream seg tcplen advance malloc = .ok (stream', s')) :
    Received seg tcplen stream stream' ∧ ∃ q ep ret ep', s.ep = some (q, ep)
      ∧ ep.epollEventCallback stream.fd EPOLLIN = .ok (ret, ep')
      ∧ s' = { s.setStream p stream' with ep := some (q, ep') } := by
  unfold receive at h
  obtain ⟨⟨ret, stream₁⟩, henqueue, h⟩ := exists_of_bind_eq_ok h
  obtain ⟨s₁, hcallback, h⟩ := exists_of_bind_eq_ok h
  obtain ⟨rcvbuf, rfl, hrcvbuf⟩ := enqueueRecvbuffer_eq_ok henqueue
  obtain ⟨q, ep, ret', ep', hep, hret', rfl⟩ := callback_eq_ok hcallback
  obtain ⟨sndbuf, hack⟩ := sendAckpkt_eq
    { stream with
      rcvbuf := rcvbuf
      rcvNxt := stream.rcvNxt + advance
      sndNxt := seg.recvAck } seg (malloc 2)
  obtain ⟨hstream', hs'⟩ := Prod.mk.inj (Except.ok.inj h)
  have hstream := hstream'.symm.trans hack
  refine ⟨⟨by rw [hstream], by rw [hstream], ?_⟩, q, ep, ret', ep', hep, hret', ?_⟩
  · rw [hstream]
    exact hrcvbuf
  · have hset := setStream_setStream s p { stream with rcvbuf := rcvbuf } stream'
    rw [← hset, ← hs', ← hstream']
    rfl

/-- What a search finds is in the table. -/
theorem mem_of_search {sip dip : UInt32} {sport dport : UInt16}
    (h : s.ngTcpStreamSearch sip dip sport dport = some (p, stream)) : (p, stream) ∈ s.tcbSet := by
  rcases Option.or_eq_some_iff.mp h with h | ⟨-, h⟩
  · exact NodeList.mem_of_first h
  · exact NodeList.mem_of_first h

/-- **All that a segment can do.** -/
inductive Processed (s : Stack) (seg : TcpSegment) : Stack → Prop
  | nothing : Processed s seg s
  /-- A SYN opens a stream, or half of it where an allocation fails. -/
  | opened (syn : TcpStream) (hfd : syn.fd = -1) (hrcvbuf : syn.rcvbuf = [])
    (hstatus : syn.status = .synRcvd ∨ syn.status = .listen) :
    Processed s seg { s with tcbSet := (s.next, syn) :: s.tcbSet, next := s.next + 1 }
  /-- An ACK completes a handshake. -/
  | handshake {p q : Ptr} {stream listener : TcpStream} {s' : Stack}
    (hsearch : s.ngTcpStreamSearch seg.srcAddr seg.dstAddr seg.srcPort seg.dstPort
      = some (p, stream)) (hstatus : stream.status = .synRcvd) (hack : seg.Has RTE_TCP_ACK_FLAG)
    (hlistener : (s.setStream p { stream with status := .established }).ngTcpStreamSearch 0 0 0
      stream.dport = some (q, listener))
    (hcallback : (s.setStream p { stream with status := .established }).callback listener.fd
      = .ok s') : Processed s seg s'
  /-- A PSH brings a payload. -/
  | pushed {p : Ptr} {stream stream' : TcpStream} {s' : Stack} {advance : UInt32}
    {malloc : ℕ → Bool}
    (hsearch : s.ngTcpStreamSearch seg.srcAddr seg.dstAddr seg.srcPort seg.dstPort
      = some (p, stream)) (hstatus : stream.status = .established)
    (hpsh : seg.Has RTE_TCP_PSH_FLAG) (hfin : ¬ seg.Has RTE_TCP_FIN_FLAG)
    (hreceive : receive s p stream seg seg.tcplen advance malloc = .ok (stream', s')) :
    Processed s seg s'
  /-- A FIN closes the peer's side. -/
  | finished {p : Ptr} {stream stream' : TcpStream} {s' : Stack} {malloc : ℕ → Bool}
    (hsearch : s.ngTcpStreamSearch seg.srcAddr seg.dstAddr seg.srcPort seg.dstPort
      = some (p, stream)) (hstatus : stream.status = .established)
    (hpsh : ¬ seg.Has RTE_TCP_PSH_FLAG) (hfin : seg.Has RTE_TCP_FIN_FLAG)
    (hreceive : receive s p { stream with status := .closeWait } seg seg.hdrlen 1 malloc
      = .ok (stream', s')) : Processed s seg s'
  /-- A segment does both. -/
  | both {p : Ptr} {stream stream₁ stream' : TcpStream} {s₁ s' : Stack} {advance : UInt32}
    {malloc malloc' : ℕ → Bool}
    (hsearch : s.ngTcpStreamSearch seg.srcAddr seg.dstAddr seg.srcPort seg.dstPort
      = some (p, stream)) (hstatus : stream.status = .established)
    (hpsh : seg.Has RTE_TCP_PSH_FLAG) (hfin : seg.Has RTE_TCP_FIN_FLAG)
    (hreceive : receive s p stream seg seg.tcplen advance malloc = .ok (stream₁, s₁))
    (hreceive' : receive s₁ p { stream₁ with status := .closeWait } seg seg.hdrlen 1 malloc'
      = .ok (stream', s')) : Processed s seg s'
  /-- The last ACK of a stream that was closed. -/
  | removed {p : Ptr} {stream : TcpStream}
    (hsearch : s.ngTcpStreamSearch seg.srcAddr seg.dstAddr seg.srcPort seg.dstPort
      = some (p, stream)) (hstatus : stream.status = .lastAck) :
    Processed s seg { s with tcbSet := s.tcbSet.remove p }

theorem handleListen_processed {env : SegmentEnv} {ret : ℤ}
    (h : ngTcpHandleListen s stream seg env = .ok (ret, s')) : Processed s seg s' := by
  unfold ngTcpHandleListen at h
  split at h
  · split at h
    · cases h
    simp only at h
    split at h
    · obtain ⟨-, rfl⟩ := Prod.mk.inj (Except.ok.inj h)
      exact .opened _ rfl rfl (Or.inr rfl)
    · obtain ⟨-, rfl⟩ := Prod.mk.inj (Except.ok.inj h)
      exact .opened _ rfl rfl (Or.inl rfl)
  · obtain ⟨-, rfl⟩ := Prod.mk.inj (Except.ok.inj h)
    exact .nothing

theorem handleSynRcvd_processed {ret : ℤ}
    (hsearch : s.ngTcpStreamSearch seg.srcAddr seg.dstAddr seg.srcPort seg.dstPort
      = some (p, stream)) (h : ngTcpHandleSynRcvd s p stream seg = .ok (ret, s')) :
    Processed s seg s' := by
  unfold ngTcpHandleSynRcvd at h
  split at h
  · next hack =>
    simp only at h
    split at h
    · cases h
    · next q listener hlistener =>
      obtain ⟨s₁, hcallback, h⟩ := exists_of_bind_eq_ok h
      obtain ⟨-, rfl⟩ := Prod.mk.inj (Except.ok.inj h)
      exact .handshake hsearch hack.2 hack.1 hlistener hcallback
  · obtain ⟨-, rfl⟩ := Prod.mk.inj (Except.ok.inj h)
    exact .nothing

theorem handleEstablished_processed {malloc : ℕ → Bool} {ret : ℤ}
    (hsearch : s.ngTcpStreamSearch seg.srcAddr seg.dstAddr seg.srcPort seg.dstPort
      = some (p, stream)) (hstatus : stream.status = .established)
    (h : ngTcpHandleEstablished s p stream seg seg.tcplen malloc = .ok (ret, s')) :
    Processed s seg s' := by
  unfold ngTcpHandleEstablished at h
  obtain ⟨⟨stream₁, s₁⟩, hpush, h⟩ := exists_of_bind_eq_ok h
  obtain ⟨⟨stream₂, s₂⟩, hfinish, h⟩ := exists_of_bind_eq_ok h
  obtain ⟨-, rfl⟩ := Prod.mk.inj (Except.ok.inj h)
  by_cases hpsh : seg.Has RTE_TCP_PSH_FLAG
  · rw [if_pos hpsh] at hpush
    by_cases hfin : seg.Has RTE_TCP_FIN_FLAG
    · rw [if_pos hfin] at hfinish
      exact .both hsearch hstatus hpsh hfin hpush hfinish
    · rw [if_neg hfin] at hfinish
      obtain ⟨rfl, rfl⟩ := Prod.mk.inj (Except.ok.inj hfinish)
      exact .pushed hsearch hstatus hpsh hfin hpush
  · rw [if_neg hpsh] at hpush
    obtain ⟨rfl, rfl⟩ := Prod.mk.inj (Except.ok.inj hpush)
    by_cases hfin : seg.Has RTE_TCP_FIN_FLAG
    · rw [if_pos hfin] at hfinish
      exact .finished hsearch hstatus hpsh hfin hfinish
    · rw [if_neg hfin] at hfinish
      obtain ⟨rfl, rfl⟩ := Prod.mk.inj (Except.ok.inj hfinish)
      exact .nothing

/-- **`ng_tcp_process` does one of these.** -/
theorem ngTcpProcess_processed {env : SegmentEnv} {ret : ℤ}
    (h : s.ngTcpProcess seg env = .ok (ret, s')) : Processed s seg s' := by
  unfold ngTcpProcess at h
  split at h
  · obtain ⟨-, rfl⟩ := Prod.mk.inj (Except.ok.inj h)
    exact .nothing
  cases hsearch : s.ngTcpStreamSearch seg.srcAddr seg.dstAddr seg.srcPort seg.dstPort with
  | none =>
    rw [hsearch] at h
    obtain ⟨-, rfl⟩ := Prod.mk.inj (Except.ok.inj h)
    exact .nothing
  | some x =>
    obtain ⟨p, stream⟩ := x
    rw [hsearch] at h
    obtain ⟨⟨ret', s₁⟩, hhandle, h⟩ := exists_of_bind_eq_ok h
    obtain ⟨-, rfl⟩ := Prod.mk.inj (Except.ok.inj h)
    cases hstatus : stream.status with
    | listen =>
      rw [hstatus] at hhandle
      exact handleListen_processed hhandle
    | synRcvd =>
      rw [hstatus] at hhandle
      exact handleSynRcvd_processed hsearch hhandle
    | established =>
      rw [hstatus] at hhandle
      exact handleEstablished_processed hsearch hstatus hhandle
    | lastAck =>
      rw [hstatus] at hhandle
      have hlast : ngTcpHandleLastAck s p stream seg = (ret', s₁) := Except.ok.inj hhandle
      unfold ngTcpHandleLastAck at hlast
      split at hlast
      · obtain ⟨-, rfl⟩ := Prod.mk.inj hlast
        exact .removed hsearch hstatus
      · obtain ⟨-, rfl⟩ := Prod.mk.inj hlast
        exact .nothing
    | _ =>
      rw [hstatus] at hhandle
      obtain ⟨-, rfl⟩ := Prod.mk.inj (Except.ok.inj hhandle)
      exact .nothing

end Segment

end Stack

end Ustack
