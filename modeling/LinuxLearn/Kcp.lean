import LinuxLearn.KcpSegment

/-!
# The control block

KCP is a library of functions on a control block. `ikcp_send` cuts what it is given
into segments and puts them in a queue. `ikcp_flush` gives them numbers and moves them
into the send buffer, as far as the windows allow, and packs into datagrams what is to be
sent: the acknowledgements that are due, the probes, and the segments of the send buffer
that are new, timed out or skipped. `ikcp_input` takes a datagram apart, removes from the
send buffer what has been acknowledged, and puts data into the receive buffer, from which
it is moved in the order of the numbers into the queue that `ikcp_recv` reads.

The four intrusive lists are lists here, and the callback that sends is a list of what it
was called with. Memory is always granted: where it is not, the program stops at an
assertion.

Two things can happen that C leaves undefined. `ikcp_flush` packs a datagram at the start of
a block that was allocated for the mtu, and asks about the mtu only whether the next segment
still goes into the same datagram: a segment that was cut under a larger mtu, or a block whose
size overflowed when it was computed, and it writes past the end. And `ikcp_update_ack`
multiplies what it measured, in an `int`. A control block has a mark that is set by this
and never cleared; behind it the functions here go on, and the program need not.
-/

namespace Kcp

/-- **The control block**, `IKCPCB`. The count of the acknowledgements, `ackcount`, is the
length of their list. -/
structure Ikcpcb where
  /-- The number of the conversation. -/
  conv : UInt32
  mtu : UInt32
  /-- How many bytes of data a segment can have. -/
  mss : UInt32
  /-- `-1` when the link is taken for dead. -/
  state : UInt32
  /-- The first number that is not acknowledged. -/
  sndUna : UInt32
  /-- The next number to be given. -/
  sndNxt : UInt32
  /-- The next number to be received. -/
  rcvNxt : UInt32
  /-- The threshold of slow start. -/
  ssthresh : UInt32
  /-- The variation of the round trip time. -/
  rxRttval : Int32
  /-- The round trip time, smoothed. -/
  rxSrtt : Int32
  /-- The timeout of a retransmission. -/
  rxRto : Int32
  /-- The least it can be. -/
  rxMinrto : Int32
  sndWnd : UInt32
  rcvWnd : UInt32
  /-- The window the other side told last. -/
  rmtWnd : UInt32
  /-- The congestion window, in segments. -/
  cwnd : UInt32
  /-- What is to be asked or told of windows, as flags. -/
  probe : UInt32
  /-- The time that was told last. -/
  current : UInt32
  /-- The time between flushes. -/
  interval : UInt32
  /-- When to flush next. -/
  tsFlush : UInt32
  /-- How many retransmissions a timeout led to. -/
  xmit : UInt32
  nrcvBuf : UInt32
  nsndBuf : UInt32
  nrcvQue : UInt32
  nsndQue : UInt32
  nodelay : UInt32
  /-- Whether `ikcp_update` was called. -/
  updated : UInt32
  /-- When to ask for a window next. -/
  tsProbe : UInt32
  /-- How long to wait for that. -/
  probeWait : UInt32
  /-- So many transmissions of a segment make the link dead. -/
  deadLink : UInt32
  /-- The congestion window, in bytes. -/
  incr : UInt32
  /-- What was sent and has no number yet. -/
  sndQueue : List Ikcpseg
  /-- What was received and can be read. -/
  rcvQueue : List Ikcpseg
  /-- What has a number and is not acknowledged. -/
  sndBuf : List Ikcpseg
  /-- What was received too early. -/
  rcvBuf : List Ikcpseg
  /-- What is to be acknowledged: number and time. -/
  acklist : List (UInt32 × UInt32)
  /-- How many acknowledgements there is room for. -/
  ackblock : UInt32
  /-- How many bytes were allocated at `kcp->buffer`. -/
  buffer : UInt32
  /-- So many acknowledgements that skip a segment have it sent again. -/
  fastresend : Int32
  /-- One that was transmitted more often is not, unless this is `0` or less. -/
  fastlimit : Int32
  /-- Whether there is no congestion window. -/
  nocwnd : Int32
  /-- Whether the mode is that of a stream. -/
  stream : Int32
  /-- Not in the source: whether something happened that C leaves undefined. -/
  undefined : Bool
deriving DecidableEq

/-- **`ikcp_create`**. -/
def ikcpCreate (conv : UInt32) : Ikcpcb where
  conv := conv
  mtu := IKCP_MTU_DEF
  mss := IKCP_MTU_DEF - IKCP_OVERHEAD
  state := 0
  sndUna := 0
  sndNxt := 0
  rcvNxt := 0
  ssthresh := IKCP_THRESH_INIT
  rxRttval := 0
  rxSrtt := 0
  rxRto := IKCP_RTO_DEF.toInt32
  rxMinrto := IKCP_RTO_MIN.toInt32
  sndWnd := IKCP_WND_SND
  rcvWnd := IKCP_WND_RCV
  rmtWnd := IKCP_WND_RCV
  cwnd := 0
  probe := 0
  current := 0
  interval := IKCP_INTERVAL
  tsFlush := IKCP_INTERVAL
  xmit := 0
  nrcvBuf := 0
  nsndBuf := 0
  nrcvQue := 0
  nsndQue := 0
  nodelay := 0
  updated := 0
  tsProbe := 0
  probeWait := 0
  deadLink := IKCP_DEADLINK
  incr := 0
  sndQueue := []
  rcvQueue := []
  sndBuf := []
  rcvBuf := []
  acklist := []
  ackblock := 0
  buffer := (IKCP_MTU_DEF + IKCP_OVERHEAD) * 3
  fastresend := 0
  fastlimit := IKCP_FASTACK_LIMIT
  nocwnd := 0
  stream := 0
  undefined := false

/-! ## Reading -/

/-- **A message is taken off a queue**: its segments, up to one whose `frg` is 0, and what is
left. -/
def mergeFragment : List Ikcpseg → List Ikcpseg × List Ikcpseg
  | [] => ([], [])
  | seg :: queue =>
    if seg.frg = 0 then ([seg], queue)
    else (seg :: (mergeFragment queue).1, (mergeFragment queue).2)

/-- The sum of the lengths, as it is computed. -/
def totalLen (segs : List Ikcpseg) : ℤ := toInt (segs.foldl (fun length seg => length + seg.len) 0)

/-- **`ikcp_peeksize`**. -/
def ikcpPeeksize (kcp : Ikcpcb) : ℤ :=
  match kcp.rcvQueue with
  | [] => -1
  | seg :: _ =>
    if seg.frg = 0 then toInt seg.len
    else if kcp.nrcvQue < seg.frg + 1 then -1
    else totalLen (mergeFragment kcp.rcvQueue).1

/-- **What is in order is moved** from the receive buffer to the queue, as long as it is not
full; the segments given are those of the buffer. -/
def moveAvailable : List Ikcpseg → Ikcpcb → Ikcpcb
  | [], kcp => { kcp with rcvBuf := [] }
  | seg :: buf, kcp =>
    if seg.sn = kcp.rcvNxt ∧ kcp.nrcvQue < kcp.rcvWnd then
      moveAvailable buf { kcp with
        nrcvBuf := kcp.nrcvBuf - 1
        rcvQueue := kcp.rcvQueue ++ [seg]
        nrcvQue := kcp.nrcvQue + 1
        rcvNxt := kcp.rcvNxt + 1 }
    else { kcp with rcvBuf := seg :: buf }

/-- **`ikcp_recv`**: what it returns, and what it puts into the buffer, which is not NULL and
`len` bytes long. A negative `len` asks to leave the message where it is. -/
def ikcpRecv (kcp : Ikcpcb) (len : ℤ) : ℤ × List UInt8 × Ikcpcb :=
  if kcp.rcvQueue.isEmpty then (-1, [], kcp)
  else
    let peeksize := ikcpPeeksize kcp
    if peeksize < 0 then (-2, [], kcp)
    else if peeksize > |len| then (-3, [], kcp)
    else
      let (message, queue) := mergeFragment kcp.rcvQueue
      let read := if len < 0 then kcp else { kcp with
        rcvQueue := queue
        nrcvQue := kcp.nrcvQue - UInt32.ofNat message.length }
      let moved := moveAvailable read.rcvBuf read
      let told := if kcp.nrcvQue ≥ kcp.rcvWnd ∧ moved.nrcvQue < moved.rcvWnd then
          { moved with probe := moved.probe ||| IKCP_ASK_TELL }
        else moved
      (totalLen message, message.flatMap Ikcpseg.data, told)

/-! ## Sending -/

/-- A new segment, whose header is written when it is given a number. -/
def Ikcpseg.new (frg : UInt32) (data : List UInt8) : Ikcpseg :=
  ⟨0, 0, frg, 0, 0, 0, 0, 0, 0, 0, 0, data⟩

/-- The loop of `ikcp_send` that makes the segments: how many there are still to be, and the
data that is left. -/
def sendFragments : ℕ → List UInt8 → Ikcpcb → Ikcpcb
  | 0, _, kcp => kcp
  | n + 1, buffer, kcp =>
    let size := if (buffer.length : ℤ) > toInt kcp.mss then toInt kcp.mss else buffer.length
    sendFragments n (buffer.drop size.toNat) { kcp with
      sndQueue := kcp.sndQueue ++
        [.new (if kcp.stream = 0 then UInt32.ofNat n else 0) (buffer.take size.toNat)]
      nsndQue := kcp.nsndQue + 1 }

/-- **The last segment of the queue is filled up**, in stream mode: the data that is left. -/
def appendStream (kcp : Ikcpcb) (buffer : List UInt8) : List UInt8 × Ikcpcb :=
  match kcp.sndQueue.getLast? with
  | none => (buffer, kcp)
  | some old =>
    if old.len < kcp.mss then
      let capacity := toInt (kcp.mss - old.len)
      let extend := if (buffer.length : ℤ) < capacity then (buffer.length : ℤ) else capacity
      (buffer.drop extend.toNat, { kcp with
        sndQueue := kcp.sndQueue.dropLast ++ [.new 0 (old.data ++ buffer.take extend.toNat)] })
    else (buffer, kcp)

/-- How many segments some data is cut into. -/
def fragmentCount (mss : UInt32) (len : ℕ) : ℤ :=
  if (len : ℤ) ≤ toInt mss then 1 else toInt ((UInt32.ofNat len + mss - 1) / mss)

/-- **`ikcp_send`**; `len` is the length of the buffer. -/
def ikcpSend (kcp : Ikcpcb) (buffer : List UInt8) : ℤ × Ikcpcb :=
  let (buffer, kcp) := if kcp.stream ≠ 0 then appendStream kcp buffer else (buffer, kcp)
  if kcp.stream ≠ 0 ∧ buffer.length ≤ 0 then (0, kcp)
  else
    let count := fragmentCount kcp.mss buffer.length
    if count ≥ toInt IKCP_WND_RCV then (-2, kcp)
    else (0, sendFragments (if count = 0 then 1 else count).toNat buffer kcp)

/-! ## Acknowledgements -/

/-- A number that is no `int`. -/
def overflows (n : ℤ) : Bool := n < -2 ^ 31 ∨ 2 ^ 31 ≤ n

/-- **`ikcp_update_ack`**. What is computed in an `int` may overflow, but for `delta` and its
sum, which are a `long`. -/
def ikcpUpdateAck (kcp : Ikcpcb) (rtt : Int32) : Ikcpcb :=
  let kcp :=
    if kcp.rxSrtt = 0 then { kcp with rxSrtt := rtt, rxRttval := rtt / 2 }
    else
      let delta := |(rtt - kcp.rxSrtt).toInt|
      let rxSrtt := (7 * kcp.rxSrtt + rtt) / 8
      { kcp with
        rxRttval := Int32.ofInt (((3 * kcp.rxRttval).toInt + delta).tdiv 4)
        rxSrtt := if rxSrtt < 1 then 1 else rxSrtt
        undefined := kcp.undefined || (overflows (rtt.toInt - kcp.rxSrtt.toInt)
          || overflows (3 * kcp.rxRttval.toInt) || overflows (7 * kcp.rxSrtt.toInt)
          || overflows (7 * kcp.rxSrtt.toInt + rtt.toInt)) }
  let rto := kcp.rxSrtt.toUInt32 + imax kcp.interval (4 * kcp.rxRttval).toUInt32
  { kcp with
    rxRto := (ibound kcp.rxMinrto.toUInt32 rto IKCP_RTO_MAX).toInt32
    undefined := kcp.undefined || overflows (4 * kcp.rxRttval.toInt) }

/-- **`ikcp_shrink_buf`**. -/
def ikcpShrinkBuf (kcp : Ikcpcb) : Ikcpcb :=
  { kcp with sndUna := match kcp.sndBuf with
      | seg :: _ => seg.sn
      | [] => kcp.sndNxt }

/-- The segment of a number is taken out of the send buffer, if it is found before a later one. -/
def removeAcked (sn : UInt32) : List Ikcpseg → List Ikcpseg
  | [] => []
  | seg :: buf =>
    if sn = seg.sn then buf
    else if itimediff sn seg.sn < 0 then seg :: buf
    else seg :: removeAcked sn buf

/-- **`ikcp_parse_ack`**. -/
def ikcpParseAck (kcp : Ikcpcb) (sn : UInt32) : Ikcpcb :=
  if itimediff sn kcp.sndUna < 0 ∨ itimediff sn kcp.sndNxt ≥ 0 then kcp
  else
    let buf := removeAcked sn kcp.sndBuf
    { kcp with
      sndBuf := buf
      nsndBuf := kcp.nsndBuf - UInt32.ofNat (kcp.sndBuf.length - buf.length) }

/-- **`ikcp_parse_una`**. -/
def ikcpParseUna (kcp : Ikcpcb) (una : UInt32) : Ikcpcb :=
  let buf := kcp.sndBuf.dropWhile (fun seg => itimediff una seg.sn > 0)
  { kcp with
    sndBuf := buf
    nsndBuf := kcp.nsndBuf - UInt32.ofNat (kcp.sndBuf.length - buf.length) }

/-- The segments before the one that was acknowledged were skipped once more. -/
def skipBefore (sn : UInt32) : List Ikcpseg → List Ikcpseg
  | [] => []
  | seg :: buf =>
    if itimediff sn seg.sn < 0 then seg :: buf
    else (if sn ≠ seg.sn then { seg with fastack := seg.fastack + 1 } else seg) :: skipBefore sn buf

/-- **`ikcp_parse_fastack`**. -/
def ikcpParseFastack (kcp : Ikcpcb) (sn : UInt32) : Ikcpcb :=
  if itimediff sn kcp.sndUna < 0 ∨ itimediff sn kcp.sndNxt ≥ 0 then kcp
  else { kcp with sndBuf := skipBefore sn kcp.sndBuf }

/-- The smallest capacity that is enough, by doubling; more than 28 doublings overflow. -/
def growBlock (newsize : UInt32) : ℕ → UInt32 → UInt32
  | 0, newblock => newblock
  | fuel + 1, newblock =>
    if newblock < newsize then growBlock newsize fuel (newblock <<< 1) else newblock

/-- `kcp->ackcount`. -/
def Ikcpcb.ackcount (kcp : Ikcpcb) : UInt32 := UInt32.ofNat kcp.acklist.length

/-- **`ikcp_ack_push`**. -/
def ikcpAckPush (kcp : Ikcpcb) (sn ts : UInt32) : Ikcpcb :=
  let newsize := kcp.ackcount + 1
  { kcp with
    ackblock := if newsize > kcp.ackblock then growBlock newsize 28 8 else kcp.ackblock
    acklist := kcp.acklist ++ [(sn, ts)] }

/-! ## Data -/

/-- **Where a segment goes** in the receive buffer, which is given from its end: behind the
first one that is not later, and nowhere if that has the same number. -/
def insertSorted (newseg : Ikcpseg) : List Ikcpseg → Option (List Ikcpseg)
  | [] => some [newseg]
  | seg :: prev =>
    if seg.sn = newseg.sn then none
    else if itimediff newseg.sn seg.sn > 0 then some (newseg :: seg :: prev)
    else (insertSorted newseg prev).map (seg :: ·)

/-- **`ikcp_parse_data`**. -/
def ikcpParseData (kcp : Ikcpcb) (newseg : Ikcpseg) : Ikcpcb :=
  if itimediff newseg.sn (kcp.rcvNxt + kcp.rcvWnd) ≥ 0 ∨ itimediff newseg.sn kcp.rcvNxt < 0 then kcp
  else
    let kcp := match insertSorted newseg kcp.rcvBuf.reverse with
      | none => kcp
      | some buf => { kcp with rcvBuf := buf.reverse, nrcvBuf := kcp.nrcvBuf + 1 }
    moveAvailable kcp.rcvBuf kcp

/-! ## Input -/

/-- **The largest acknowledgement** of a datagram, `maxack`, if there is one, `flag`. -/
def noteAck (maxack : Option UInt32) (sn : UInt32) : Option UInt32 :=
  match maxack with
  | none => some sn
  | some max => if itimediff sn max > 0 then some sn else some max

/-- **What a segment does** once its header has been checked. -/
def inputSegment (kcp : Ikcpcb) (maxack : Option UInt32) (seg : Ikcpseg) :
    Ikcpcb × Option UInt32 :=
  let kcp := { kcp with rmtWnd := seg.wnd }
  let kcp := ikcpShrinkBuf (ikcpParseUna kcp seg.una)
  if seg.cmd = IKCP_CMD_ACK then
    let kcp := if itimediff kcp.current seg.ts ≥ 0 then
        ikcpUpdateAck kcp (kcp.current - seg.ts).toInt32
      else kcp
    (ikcpShrinkBuf (ikcpParseAck kcp seg.sn), noteAck maxack seg.sn)
  else if seg.cmd = IKCP_CMD_PUSH then
    if itimediff seg.sn (kcp.rcvNxt + kcp.rcvWnd) < 0 then
      let kcp := ikcpAckPush kcp seg.sn seg.ts
      if itimediff seg.sn kcp.rcvNxt ≥ 0 then (ikcpParseData kcp seg, maxack) else (kcp, maxack)
    else (kcp, maxack)
  else if seg.cmd = IKCP_CMD_WASK then
    ({ kcp with probe := kcp.probe ||| IKCP_ASK_TELL }, maxack)
  else (kcp, maxack)

/-- **The loop of `ikcp_input`** over the segments of a datagram. Every round takes a header
off it, so there are no more rounds than bytes. -/
def inputLoop : ℕ → Ikcpcb → Option UInt32 → List UInt8 → ℤ × Ikcpcb × Option UInt32
  | 0, kcp, maxack, _ => (0, kcp, maxack)
  | fuel + 1, kcp, maxack, data =>
    if data.length < IKCP_OVERHEAD.toNat then (0, kcp, maxack)
    else
      let (seg, len, data) := decodeSeg data
      if seg.conv ≠ kcp.conv then (-1, kcp, maxack)
      else if data.length < len.toNat ∨ toInt len < 0 then (-2, kcp, maxack)
      else if seg.cmd ≠ IKCP_CMD_PUSH ∧ seg.cmd ≠ IKCP_CMD_ACK ∧ seg.cmd ≠ IKCP_CMD_WASK
          ∧ seg.cmd ≠ IKCP_CMD_WINS then (-3, kcp, maxack)
      else
        let (kcp, maxack) := inputSegment kcp maxack { seg with data := data.take len.toNat }
        inputLoop fuel kcp maxack (data.drop len.toNat)

/-- The congestion window one step further, by a segment or, beyond the threshold, by less. -/
def growCwnd (kcp : Ikcpcb) : Ikcpcb :=
  let mss := kcp.mss
  if kcp.cwnd < kcp.ssthresh then { kcp with cwnd := kcp.cwnd + 1, incr := kcp.incr + mss }
  else
    let incr := if kcp.incr < mss then mss else kcp.incr
    let incr := incr + ((mss * mss) / incr + mss / 16)
    { kcp with
      incr := incr
      cwnd := if (kcp.cwnd + 1) * mss ≤ incr then (incr + mss - 1) / (if mss > 0 then mss else 1)
        else kcp.cwnd }

/-- **The congestion window grows** when something new was acknowledged, up to the window of
the other side. -/
def growWindow (kcp : Ikcpcb) : Ikcpcb :=
  if kcp.cwnd < kcp.rmtWnd then
    let grown := growCwnd kcp
    if grown.cwnd > grown.rmtWnd then
      { grown with cwnd := grown.rmtWnd, incr := grown.rmtWnd * kcp.mss }
    else grown
  else kcp

/-- What the largest acknowledgement of a datagram skipped, if there is one. -/
def parseMaxack (kcp : Ikcpcb) : Option UInt32 → Ikcpcb
  | some sn => ikcpParseFastack kcp sn
  | none => kcp

/-- **`ikcp_input`**: `size` is the length of the datagram. -/
def ikcpInput (kcp : Ikcpcb) (data : List UInt8) : ℤ × Ikcpcb :=
  if data.length < IKCP_OVERHEAD.toNat then (-1, kcp)
  else
    let (ret, read, maxack) := inputLoop (data.length + 1) kcp none data
    if ret ≠ 0 then (ret, read)
    else
      let acked := parseMaxack read maxack
      (0, if itimediff acked.sndUna kcp.sndUna > 0 then growWindow acked else acked)

/-! ## Output -/

/-- **What was put out.** -/
structure Outbox where
  /-- The datagrams given to the callback. -/
  out : List (List UInt8)
  /-- The bytes from the start of the buffer to `ptr`. -/
  buffer : List UInt8

/-- `ikcp_output`, and back to the start of the buffer. -/
def Outbox.output (box : Outbox) : Outbox :=
  ⟨if box.buffer.isEmpty then box.out else box.out ++ [box.buffer], []⟩

/-- **A segment is put into the buffer**, which is sent first if it would be longer than a
datagram may be. -/
def Outbox.put (mtu : UInt32) (box : Outbox) (seg : Ikcpseg) : Outbox :=
  let box := if (box.buffer.length : ℤ) + toInt (IKCP_OVERHEAD + seg.len) > toInt mtu then box.output
    else box
  { box with buffer := box.buffer ++ seg.bytes }

/-- **`ikcp_wnd_unused`**. -/
def ikcpWndUnused (kcp : Ikcpcb) : UInt32 :=
  if kcp.nrcvQue < kcp.rcvWnd then kcp.rcvWnd - kcp.nrcvQue else 0

/-- `seg` in `ikcp_flush`, which the acknowledgements and the probes are made of. -/
def flushSeg (kcp : Ikcpcb) : Ikcpseg :=
  ⟨kcp.conv, IKCP_CMD_ACK, 0, ikcpWndUnused kcp, 0, 0, kcp.rcvNxt, 0, 0, 0, 0, []⟩

/-- **The acknowledgements**: the segment is used for one after another, and keeps what the
last one had. -/
def flushAcks (mtu : UInt32) : List (UInt32 × UInt32) → Outbox → Ikcpseg → Outbox × Ikcpseg
  | [], box, seg => (box, seg)
  | (sn, ts) :: acks, box, seg =>
    let seg := { seg with sn := sn, ts := ts }
    flushAcks mtu acks (box.put mtu seg) seg

/-- **Whether the window of the other side is to be asked for.** -/
def probeWindow (kcp : Ikcpcb) : Ikcpcb :=
  if kcp.rmtWnd = 0 then
    if kcp.probeWait = 0 then
      { kcp with probeWait := IKCP_PROBE_INIT, tsProbe := kcp.current + IKCP_PROBE_INIT }
    else if itimediff kcp.current kcp.tsProbe ≥ 0 then
      let wait := if kcp.probeWait < IKCP_PROBE_INIT then IKCP_PROBE_INIT else kcp.probeWait
      let wait := wait + wait / 2
      let wait := if wait > IKCP_PROBE_LIMIT then IKCP_PROBE_LIMIT else wait
      { kcp with
        probeWait := wait
        tsProbe := kcp.current + wait
        probe := kcp.probe ||| IKCP_ASK_SEND }
    else kcp
  else { kcp with tsProbe := 0, probeWait := 0 }

/-- A probe, if it is asked for. -/
def putProbe (mtu probe ask cmd : UInt32) (box : Outbox) (seg : Ikcpseg) : Outbox :=
  if probe &&& ask ≠ 0 then box.put mtu { seg with cmd := cmd } else box

/-- **How many segments may be under way.** -/
def flushWindow (kcp : Ikcpcb) : UInt32 :=
  let cwnd := imin kcp.sndWnd kcp.rmtWnd
  if kcp.nocwnd = 0 then imin kcp.cwnd cwnd else cwnd

/-- **Segments are given numbers** and moved from the queue into the send buffer, as far as the
window allows; the segments given are those of the queue. -/
def admitSegments (cwnd wnd : UInt32) : List Ikcpseg → Ikcpcb → Ikcpcb
  | [], kcp => { kcp with sndQueue := [] }
  | seg :: queue, kcp =>
    if itimediff kcp.sndNxt (kcp.sndUna + cwnd) < 0 then
      admitSegments cwnd wnd queue { kcp with
        nsndQue := kcp.nsndQue - 1
        nsndBuf := kcp.nsndBuf + 1
        sndNxt := kcp.sndNxt + 1
        sndBuf := kcp.sndBuf ++ [{ seg with
          conv := kcp.conv
          cmd := IKCP_CMD_PUSH
          wnd := wnd
          ts := kcp.current
          sn := kcp.sndNxt
          una := kcp.rcvNxt
          resendts := kcp.current
          rto := kcp.rxRto.toUInt32
          fastack := 0
          xmit := 0 }] }
    else { kcp with sndQueue := seg :: queue }

/-- **Why a segment is sent**: for the first time, because it timed out, or because it was
skipped often enough. -/
inductive Cause where
  | first
  | timeout
  | skipped
deriving DecidableEq

/-- **Whether a segment is to be sent**, and its timer then. -/
def Ikcpseg.due (kcp : Ikcpcb) (resent rtomin : UInt32) (seg : Ikcpseg) :
    Option (Cause × Ikcpseg) :=
  if seg.xmit = 0 then
    some (.first, { seg with
      xmit := seg.xmit + 1
      rto := kcp.rxRto.toUInt32
      resendts := kcp.current + kcp.rxRto.toUInt32 + rtomin })
  else if itimediff kcp.current seg.resendts ≥ 0 then
    let rto :=
      if kcp.nodelay = 0 then seg.rto + imax seg.rto kcp.rxRto.toUInt32
      else
        let step := if kcp.nodelay < 2 then seg.rto.toInt32 else kcp.rxRto
        seg.rto + (step / 2).toUInt32
    some (.timeout, { seg with xmit := seg.xmit + 1, rto := rto, resendts := kcp.current + rto })
  else if seg.fastack ≥ resent then
    if seg.xmit.toInt32 ≤ kcp.fastlimit ∨ kcp.fastlimit ≤ 0 then
      some (.skipped, { seg with
        xmit := seg.xmit + 1
        fastack := 0
        resendts := kcp.current + seg.rto })
    else none
  else none

/-- **What the loop over the send buffer carries.** -/
structure Flushing where
  box : Outbox
  /-- The segments the loop has come past. -/
  done : List Ikcpseg
  xmit : UInt32
  state : UInt32
  /-- A segment was lost. -/
  lost : Bool
  /-- How many segments are sent again because they were skipped. -/
  change : ℕ

/-- **One round of the loop over the send buffer.** -/
def Flushing.segment (kcp : Ikcpcb) (wnd resent rtomin : UInt32) (f : Flushing) (seg : Ikcpseg) :
    Flushing :=
  match seg.due kcp resent rtomin with
  | none => { f with done := f.done ++ [seg] }
  | some (cause, seg) =>
    let seg := { seg with ts := kcp.current, wnd := wnd, una := kcp.rcvNxt }
    { box := f.box.put kcp.mtu seg
      done := f.done ++ [seg]
      xmit := if cause = .timeout then f.xmit + 1 else f.xmit
      state := if seg.xmit ≥ kcp.deadLink then 0xffffffff else f.state
      lost := f.lost || cause = .timeout
      change := if cause = .skipped then f.change + 1 else f.change }

/-- The congestion window after segments were skipped. -/
def skipWindow (kcp : Ikcpcb) (resent : UInt32) (change : ℕ) : Ikcpcb :=
  if change ≠ 0 then
    let half := (kcp.sndNxt - kcp.sndUna) / 2
    let ssthresh := if half < IKCP_THRESH_MIN then IKCP_THRESH_MIN else half
    { kcp with
      ssthresh := ssthresh
      cwnd := ssthresh + resent
      incr := (ssthresh + resent) * kcp.mss }
  else kcp

/-- The congestion window after a segment was lost. -/
def loseWindow (kcp : Ikcpcb) (cwnd : UInt32) (lost : Bool) : Ikcpcb :=
  if lost then
    let half := cwnd / 2
    { kcp with
      ssthresh := if half < IKCP_THRESH_MIN then IKCP_THRESH_MIN else half
      cwnd := 1
      incr := kcp.mss }
  else kcp

/-- **The congestion window shrinks** when something was skipped or lost, but not to nothing. -/
def shrinkWindow (kcp : Ikcpcb) (cwnd resent : UInt32) (lost : Bool) (change : ℕ) : Ikcpcb :=
  let kcp := loseWindow (skipWindow kcp resent change) cwnd lost
  if kcp.cwnd < 1 then { kcp with cwnd := 1, incr := kcp.mss } else kcp

/-- **A datagram that was not put together inside the buffer**, from whose start it was: it is
longer. From `2 ^ 30` bytes on, the `int` in which its length and that of the next
segment are added may overflow. -/
def Ikcpcb.overruns (kcp : Ikcpcb) (data : List UInt8) : Bool :=
  kcp.buffer.toNat < data.length ∨ 2 ^ 30 ≤ data.length

/-- **`ikcp_flush`**: the datagrams that are sent, in order. All that is written to the buffer is
sent, so that what was written past its end is in one of them. -/
def ikcpFlush (kcp : Ikcpcb) : List (List UInt8) × Ikcpcb :=
  if kcp.updated = 0 then ([], kcp)
  else
    let (box, seg) := flushAcks kcp.mtu kcp.acklist ⟨[], []⟩ (flushSeg kcp)
    let kcp := probeWindow { kcp with acklist := [] }
    let box := putProbe kcp.mtu kcp.probe IKCP_ASK_SEND IKCP_CMD_WASK box seg
    let box := putProbe kcp.mtu kcp.probe IKCP_ASK_TELL IKCP_CMD_WINS box seg
    let cwnd := flushWindow kcp
    let kcp := admitSegments cwnd seg.wnd kcp.sndQueue { kcp with probe := 0 }
    let resent := if kcp.fastresend > 0 then kcp.fastresend.toUInt32 else 0xffffffff
    let rtomin := if kcp.nodelay = 0 then (kcp.rxRto >>> 3).toUInt32 else 0
    let f := kcp.sndBuf.foldl (Flushing.segment kcp seg.wnd resent rtomin)
      ⟨box, [], kcp.xmit, kcp.state, false, 0⟩
    let out := f.box.output.out
    let kcp := { kcp with
      sndBuf := f.done
      xmit := f.xmit
      state := f.state
      undefined := kcp.undefined || out.any kcp.overruns }
    (out, shrinkWindow kcp cwnd resent f.lost f.change)

/-! ## The clock -/

/-- **The clock is set**: how late it is for the next flush, `slap`, which is forgotten if it is
too far away. -/
def setClock (kcp : Ikcpcb) (current : UInt32) : ℤ × Ikcpcb :=
  let kcp := { kcp with current := current }
  let kcp := if kcp.updated = 0 then { kcp with updated := 1, tsFlush := kcp.current } else kcp
  let slap := itimediff kcp.current kcp.tsFlush
  if slap ≥ 10000 ∨ slap < -10000 then (0, { kcp with tsFlush := kcp.current }) else (slap, kcp)

/-- When the flush after this one is. -/
def nextFlush (kcp : Ikcpcb) : Ikcpcb :=
  let kcp := { kcp with tsFlush := kcp.tsFlush + kcp.interval }
  if itimediff kcp.current kcp.tsFlush ≥ 0 then { kcp with tsFlush := kcp.current + kcp.interval }
  else kcp

/-- **`ikcp_update`**. -/
def ikcpUpdate (kcp : Ikcpcb) (current : UInt32) : List (List UInt8) × Ikcpcb :=
  let (slap, kcp) := setClock kcp current
  if slap ≥ 0 then ikcpFlush (nextFlush kcp) else ([], kcp)

/-- The loop of `ikcp_check`: when the next segment is due, if none is already. -/
def checkPackets (current : UInt32) : List Ikcpseg → ℤ → Option ℤ
  | [], tmPacket => some tmPacket
  | seg :: buf, tmPacket =>
    let diff := itimediff seg.resendts current
    if diff ≤ 0 then none
    else checkPackets current buf (if diff < tmPacket then diff else tmPacket)

/-- **`ikcp_check`**. -/
def ikcpCheck (kcp : Ikcpcb) (current : UInt32) : UInt32 :=
  if kcp.updated = 0 then current
  else
    let slap := itimediff current kcp.tsFlush
    let tsFlush := if slap ≥ 10000 ∨ slap < -10000 then current else kcp.tsFlush
    if itimediff current tsFlush ≥ 0 then current
    else
      let tmFlush := itimediff tsFlush current
      match checkPackets current kcp.sndBuf 0x7fffffff with
      | none => current
      | some tmPacket =>
        let minimal := UInt32.ofInt (if tmPacket < tmFlush then tmPacket else tmFlush)
        current + if minimal ≥ kcp.interval then kcp.interval else minimal

/-! ## Settings -/

/-- **`ikcp_setmtu`**. The buffer is replaced by one for the new mtu, whose size is computed in
32 bits; segments that were cut before stay as they are. -/
def ikcpSetmtu (kcp : Ikcpcb) (mtu : Int32) : ℤ × Ikcpcb :=
  if mtu < 50 ∨ mtu < IKCP_OVERHEAD.toInt32 then (-1, kcp)
  else (0, { kcp with
    mtu := mtu.toUInt32
    mss := mtu.toUInt32 - IKCP_OVERHEAD
    buffer := (mtu.toUInt32 + IKCP_OVERHEAD) * 3 })

/-- An interval within its bounds. -/
def clampInterval (interval : Int32) : UInt32 :=
  (if interval > 5000 then 5000 else if interval < 10 then 10 else interval).toUInt32

/-- **`ikcp_interval`**. -/
def ikcpInterval (kcp : Ikcpcb) (interval : Int32) : Ikcpcb :=
  { kcp with interval := clampInterval interval }

/-- **`ikcp_nodelay`**. -/
def ikcpNodelay (kcp : Ikcpcb) (nodelay interval resend nc : Int32) : Ikcpcb :=
  let kcp := if nodelay ≥ 0 then { kcp with
      nodelay := nodelay.toUInt32
      rxMinrto := (if nodelay ≠ 0 then IKCP_RTO_NDL else IKCP_RTO_MIN).toInt32 }
    else kcp
  let kcp := if interval ≥ 0 then { kcp with interval := clampInterval interval } else kcp
  let kcp := if resend ≥ 0 then { kcp with fastresend := resend } else kcp
  if nc ≥ 0 then { kcp with nocwnd := nc } else kcp

/-- **`ikcp_wndsize`**. -/
def ikcpWndsize (kcp : Ikcpcb) (sndwnd rcvwnd : Int32) : Ikcpcb :=
  let kcp := if sndwnd > 0 then { kcp with sndWnd := sndwnd.toUInt32 } else kcp
  if rcvwnd > 0 then { kcp with rcvWnd := imax rcvwnd.toUInt32 IKCP_WND_RCV } else kcp

/-- **`ikcp_waitsnd`**. -/
def ikcpWaitsnd (kcp : Ikcpcb) : ℤ := toInt (kcp.nsndBuf + kcp.nsndQue)

end Kcp
