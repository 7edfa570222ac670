import LinuxLearn.UstackReady
import LinuxLearn.UstackSocket

/-!
# The server over the user-space stack

`tcp_server_entry` waits for events and takes each of them for one thing to
do: one connection to accept where the listener is ready, one fragment to
read where another descriptor is. Segments come in between any two of its
calls.

An event is told once, however often its descriptor became ready since
the last wait, and not at all where the descriptor is not registered yet.
So the server may wait with data or connections left that nobody will
tell it of. A step loses nothing (`Input.Safe`) if the segment finds its
descriptor registered and not ready, or the event brings what it stands
for.
-/

namespace Ustack

/-- `BUFFER_SIZE`. -/
def BUFFER_SIZE : ℕ := 1024

/-- `htons(9999)`. -/
def SERVER_PORT : UInt16 := ntohs 9999

/-- **Where the server is**, with the descriptors of the events it has not yet
looked at: before an event, or before `nepoll_wait` if there is none, or
before one of the calls that follow on an event. -/
inductive ServerPc where
  | events (rest : List ℤ)
  | add (connfd : ℤ) (rest : List ℤ)
  | send (connfd : ℤ) (n : ℕ) (rest : List ℤ)
  | del (connfd : ℤ) (rest : List ℤ)
  | close (connfd : ℤ) (rest : List ℤ)

/-- The events not yet looked at. -/
def ServerPc.pending : ServerPc → List ℤ
  | events rest => rest
  | add _ rest => rest
  | send _ _ rest => rest
  | del _ rest => rest
  | close _ rest => rest

/-- **The stack and its server.** -/
structure Server where
  stack : Stack
  listenfd : ℤ
  epfd : ℤ
  buff : List UInt8
  /-- Where the server is. -/
  pc : ServerPc

namespace Server

/-- **`tcp_server_entry` up to its loop**, allocations succeeding. -/
def start (s : Stack) : Except Stop (Option Server) := do
  let (listenfd, s) := s.nsocket .stream (fun _ => true)
  if listenfd = -1 then return none
  let (_, s) ← s.nbind listenfd ⟨SERVER_PORT, 0⟩
  let (_, s) ← s.nlisten listenfd
  let (epfd, s) ← s.nepollCreate 1 true
  let (_, s) ← s.nepollCtl epfd .add listenfd (some ⟨EPOLLIN, listenfd⟩) true
  return some ⟨s, listenfd, epfd, List.replicate BUFFER_SIZE 0, .events []⟩

/-- **A call of the loop**, and what it has read. `malloc` and `garbage` are what
its allocations give. -/
def serve (srv : Server) (malloc : ℕ → Bool) (garbage : TcpFragment) :
    Except Stop (List (ℤ × List UInt8) × Server) :=
  match srv.pc with
  | .events [] => do
    let (nready, events, s) ← srv.stack.nepollWait srv.epfd 128 5
    if nready < 0 then return ([], { srv with stack := s })
    return ([], { srv with stack := s, pc := .events (events.map EpollEvent.fd) })
  | .events (fd :: rest) =>
    if srv.listenfd = fd then do
      let (connfd, _, s) ← srv.stack.naccept srv.listenfd
      return ([], { srv with stack := s, pc := .add connfd rest })
    else do
      let (n, copied, s) ← srv.stack.nrecv fd BUFFER_SIZE
      let buff := copied ++ srv.buff.drop copied.length
      if n > 0 then
        return ([(fd, copied)], { srv with stack := s, buff := buff, pc := .send fd n.toNat rest })
      else return ([], { srv with stack := s, buff := buff, pc := .del fd rest })
  | .add connfd rest => do
    let (_, s) ← srv.stack.nepollCtl srv.epfd .add connfd (some ⟨EPOLLIN, connfd⟩) (malloc 0)
    return ([], { srv with stack := s, pc := .events rest })
  | .send connfd n rest => do
    let (_, s) ← srv.stack.nsend connfd srv.buff n malloc
    return ([], { srv with stack := s, pc := .events rest })
  | .del connfd rest => do
    let (_, s) ← srv.stack.nepollCtl srv.epfd .del connfd none true
    return ([], { srv with stack := s, pc := .close connfd rest })
  | .close connfd rest => do
    let (_, s) ← srv.stack.nclose connfd (malloc 0) garbage
    return ([], { srv with stack := s, pc := .events rest })

/-- What happens next: a segment, or a call of the server. -/
inductive Input where
  | segment (seg : TcpSegment) (env : SegmentEnv)
  | serve (malloc : ℕ → Bool) (garbage : TcpFragment)

/-- **A step**, and what the server has read in it. A call that would wait is no
step. -/
def step (srv : Server) : Input → Except Stop (List (ℤ × List UInt8) × Server)
  | .segment seg env => do
    let (_, s) ← srv.stack.ngTcpProcess seg env
    return ([], { srv with stack := s })
  | .serve malloc garbage => srv.serve malloc garbage

/-- The server as a machine. -/
def machine : Machine Server Input (List (ℤ × List UInt8)) :=
  fun srv input => (step srv input).toOption

/-- A stream of the port that waits to be accepted. -/
def Unaccepted (stream : TcpStream) : Prop :=
  stream.status = .established ∧ stream.fd = -1 ∧ stream.dport = SERVER_PORT

instance : DecidablePred Unaccepted := fun stream =>
  inferInstanceAs (Decidable (stream.status = .established ∧ stream.fd = -1
    ∧ stream.dport = SERVER_PORT))

/-- **The server is about to wait** with nothing ready. -/
def Waits (srv : Server) : Prop :=
  srv.pc = .events [] ∧ ∃ q ep, srv.stack.ep = some (q, ep) ∧ ep.rdnum = 0

/-- A descriptor is registered and not ready. -/
def Idle (srv : Server) (fd : ℤ) : Prop := ∃ q ep, srv.stack.ep = some (q, ep) ∧ ep.Idle fd

/-- **A segment is told on.** One that completes a handshake finds the listener
registered and not ready. One that brings a payload or a FIN does not bring
both, nor more than is read at once, and finds its stream registered and not
ready. -/
def SegmentSafe (srv : Server) (seg : TcpSegment) : Prop :=
  ∀ p stream, srv.stack.ngTcpStreamSearch seg.srcAddr seg.dstAddr seg.srcPort seg.dstPort
      = some (p, stream) →
    (stream.status = .synRcvd → seg.Has RTE_TCP_ACK_FLAG → ∀ q listener,
      (srv.stack.setStream p { stream with status := .established }).ngTcpStreamSearch 0 0 0
        stream.dport = some (q, listener) →
      listener.fd = srv.listenfd ∧ srv.Idle srv.listenfd)
    ∧ (stream.status = .established → seg.Has RTE_TCP_PSH_FLAG ∨ seg.Has RTE_TCP_FIN_FLAG →
      ¬ (seg.Has RTE_TCP_PSH_FLAG ∧ seg.Has RTE_TCP_FIN_FLAG)
        ∧ (seg.Has RTE_TCP_PSH_FLAG → seg.payloadlen ≤ BUFFER_SIZE) ∧ srv.Idle stream.fd)

/-- **A step that loses nothing.** Where the server accepts, a descriptor is left
and the stream it takes is established; where it deletes an item, the item is
not ready. -/
def Input.Safe (srv : Server) : Input → Prop
  | .segment seg _ => seg.cksumOk = true → srv.SegmentSafe seg
  | .serve _ _ =>
    match srv.pc with
    | .events (fd :: _) => fd = srv.listenfd → srv.stack.HasFree
      ∧ ∀ p apt, srv.stack.getAcceptTcb SERVER_PORT = some (p, apt) → apt.status = .established
    | .del connfd _ => ∀ q ep, srv.stack.ep = some (q, ep) →
      (Eventpoll.Call.ctl .del connfd none true).Safe ep
    | _ => True

/-- **Nothing is left behind**: no stream that is registered, and no stream that
was accepted, has something to read, and no established stream of the port
waits to be accepted. -/
structure NothingLost (srv : Server) : Prop where
  registered : ∀ q ep, srv.stack.ep = some (q, ep) → ∀ x ∈ srv.stack.tcbSet,
    ep.rbr.lookup x.2.fd ≠ none → x.2.rcvbuf = []
  accepted : ∀ x ∈ srv.stack.tcbSet, 0 ≤ x.2.fd → x.2.rcvbuf = []
  established : ∀ x ∈ srv.stack.tcbSet, ¬ Unaccepted x.2

end Server

end Ustack
