import LinuxLearn.Simulation
import LinuxLearn.UstackFd
import Mathlib.Data.List.GetD

/-!
# The receive path of a stream

A TCP stream of `tcp_concurrency.c` keeps what it has received in a ring
of fragments. `ng_tcp_enqueue_recvbuffer` puts the payload of a segment
there, or a fragment without data where the peer has sent its FIN, and
`nrecv` takes the first fragment off and copies it out.

A fragment that does not fit the caller's buffer is copied in part. What
is left is shifted to the front of its data, and the fragment goes back to
the ring – to its end, behind what has come in since – and what `nrecv`
returns is how much is left, not how much it copied. The ring is a byte
stream as long as this does not happen (`byte_stream`).
-/

namespace Ustack

/-- `RING_SIZE`. -/
def RING_SIZE : ℕ := 1024

/-- `rte_ring_mp_enqueue`: a ring holds one entry less than its size; nobody
looks whether there was room. -/
def ringEnqueue {α : Type} (ring : List α) (x : α) : List α :=
  if ring.length < RING_SIZE - 1 then ring ++ [x] else ring

theorem ringEnqueue_of_lt {α : Type} {ring : List α} (h : ring.length < RING_SIZE - 1) (x : α) :
    ringEnqueue ring x = ring ++ [x] := if_pos h

theorem ringEnqueue_cases {α : Type} (ring : List α) (x : α) :
    ringEnqueue ring x = ring ∨ ringEnqueue ring x = ring ++ [x] := by
  unfold ringEnqueue
  split
  · exact Or.inr rfl
  · exact Or.inl rfl

/-- `ntohs`. -/
def ntohs (x : UInt16) : UInt16 := x <<< 8 ||| x >>> 8

/-- What an `int` is as a sequence number. -/
theorem toNat_ofInt (n : ℤ) : (UInt32.ofInt n).toNat = (n % 2 ^ 32).toNat := by
  show (UInt32.ofNat (n % 2 ^ 32).toNat).toNat = _
  rw [UInt32.toNat_ofNat', Nat.mod_eq_of_lt]
  omega

theorem ofInt_natCast (n : ℕ) : UInt32.ofInt (n : ℤ) = UInt32.ofNat n := by
  refine UInt32.toNat_inj.mp ?_
  rw [toNat_ofInt, UInt32.toNat_ofNat']
  omega

/-- `TCP_INITIAL_WINDOW`. -/
def TCP_INITIAL_WINDOW : UInt16 := 14600

/-- `RTE_TCP_FIN_FLAG`. -/
def RTE_TCP_FIN_FLAG : UInt8 := 0x01

/-- `RTE_TCP_SYN_FLAG`. -/
def RTE_TCP_SYN_FLAG : UInt8 := 0x02

/-- `RTE_TCP_PSH_FLAG`. -/
def RTE_TCP_PSH_FLAG : UInt8 := 0x08

/-- `RTE_TCP_ACK_FLAG`. -/
def RTE_TCP_ACK_FLAG : UInt8 := 0x10

/-- **`NG_TCP_STATUS`.** -/
inductive TcpStatus where
  | closed
  | listen
  | synRcvd
  | synSent
  | established
  | finWait1
  | finWait2
  | closing
  | timeWait
  | closeWait
  | lastAck
deriving DecidableEq

/-- **`struct ng_tcp_fragment`.** -/
structure TcpFragment where
  sport : UInt16
  dport : UInt16
  seqnum : UInt32
  acknum : UInt32
  /-- The length of the header in words, in the high four bits. -/
  hdrlenOff : UInt8
  tcpFlags : UInt8
  /-- The window that is told. -/
  windows : UInt16
  tcpUrp : UInt16
  /-- How many words of options there are. -/
  optlen : ℤ
  /-- The memory it points to; `none` if it is null. -/
  data : Option (List UInt8)
  /-- How many bytes of data there are. -/
  length : ℕ
deriving DecidableEq

/-- A zeroed fragment. -/
def TcpFragment.zero : TcpFragment := ⟨0, 0, 0, 0, 0, 0, 0, 0, 0, none, 0⟩

/-- **`struct ng_tcp_stream`.** Ports and addresses are in network order. -/
structure TcpStream where
  /-- The descriptor, or `-1` before it is accepted. -/
  fd : ℤ
  /-- The address of the peer. -/
  sip : UInt32
  /-- The address of this side. -/
  dip : UInt32
  /-- The port of the peer. -/
  sport : UInt16
  /-- The port of this side. -/
  dport : UInt16
  /-- The next number to be sent. -/
  sndNxt : UInt32
  /-- The next number that is expected. -/
  rcvNxt : UInt32
  status : TcpStatus
  /-- What is to be sent. -/
  sndbuf : List TcpFragment
  /-- What was received and not read. -/
  rcvbuf : List TcpFragment

/-- **A received segment**: the fields of its headers that are read. -/
structure TcpSegment where
  srcAddr : UInt32
  dstAddr : UInt32
  /-- That of the IP packet. -/
  totalLength : UInt16
  srcPort : UInt16
  dstPort : UInt16
  /-- In host order, as `recvAck`. -/
  sentSeq : UInt32
  recvAck : UInt32
  /-- The length of the header in words, in the high four bits. -/
  dataOff : UInt8
  tcpFlags : UInt8
  /-- The memory from the TCP header on. -/
  mem : List UInt8
  /-- The checksum is right. -/
  cksumOk : Bool

namespace TcpSegment

/-- `tcphdr->data_off >> 4`. -/
def hdrlen (seg : TcpSegment) : ℕ := (seg.dataOff >>> 4).toNat

/-- `ntohs(iphdr->total_length) - sizeof(struct rte_ipv4_hdr)`. -/
def tcplen (seg : TcpSegment) : ℤ := seg.totalLength.toNat - 20

/-- `tcplen - hdrlen * 4`, with the length of the segment itself. -/
def payloadlen (seg : TcpSegment) : ℤ := seg.tcplen - seg.hdrlen * 4

/-- **The payload of a segment.** -/
def payload (seg : TcpSegment) : List UInt8 := (seg.mem.drop (seg.hdrlen * 4)).take seg.payloadlen.toNat

/-- A flag is set. -/
def Has (seg : TcpSegment) (flag : UInt8) : Prop := seg.tcpFlags &&& flag ≠ 0

instance (seg : TcpSegment) (flag : UInt8) : Decidable (seg.Has flag) :=
  inferInstanceAs (Decidable (seg.tcpFlags &&& flag ≠ 0))

end TcpSegment

/-- **`ng_tcp_enqueue_recvbuffer`.** A fragment without data is queued where there
is no payload, also where its length comes out negative. -/
def ngTcpEnqueueRecvbuffer (stream : TcpStream) (seg : TcpSegment) (tcplen : ℤ)
    (malloc : ℕ → Bool) : Except Stop (ℤ × TcpStream) :=
  if ¬ malloc 0 then .ok (-1, stream)
  else
    let rfragment : TcpFragment :=
      { TcpFragment.zero with dport := ntohs seg.dstPort, sport := ntohs seg.srcPort }
    let payloadlen := tcplen - seg.hdrlen * 4
    if 0 < payloadlen then
      if ¬ malloc 1 then .ok (-1, stream)
      else if seg.mem.length < seg.hdrlen * 4 + payloadlen.toNat then .error .overread
      else
        let rfragment : TcpFragment :=
          { rfragment with
            data := some ((seg.mem.drop (seg.hdrlen * 4)).take payloadlen.toNat ++ [0])
            length := payloadlen.toNat }
        .ok (0, { stream with rcvbuf := ringEnqueue stream.rcvbuf rfragment })
    else .ok (0, { stream with rcvbuf := ringEnqueue stream.rcvbuf rfragment })

/-- The loop of `nrecv` that moves `n` bytes down by `len`. -/
def shiftDown (data : List UInt8) (len n : ℕ) : List UInt8 :=
  (List.range n).foldl (fun data i => data.set i (data.getD (len + i) 0)) data

/-- **`nrecv`** on the stream it has found: what it returns, and what it copies
to the caller's buffer. -/
def TcpStream.nrecv (stream : TcpStream) (len : ℕ) :
    Except Stop (ℤ × List UInt8 × TcpStream) :=
  match stream.rcvbuf with
  | [] => .error .blocked
  | fragment :: rcvbuf =>
    if fragment.length > len then
      match fragment.data with
      | none => .error .null
      | some data =>
        let fragment := { fragment with
          data := some (shiftDown data len (fragment.length - len))
          length := fragment.length - len }
        .ok (fragment.length, data.take len,
          { stream with rcvbuf := ringEnqueue rcvbuf fragment })
    else if fragment.length = 0 then .ok (0, [], { stream with rcvbuf := rcvbuf })
    else
      match fragment.data with
      | none => .error .null
      | some data =>
        .ok (fragment.length, data.take fragment.length, { stream with rcvbuf := rcvbuf })

/-! ## Fragments -/

/-- Moving the bytes down leaves those at the front that were behind `len`. -/
theorem shiftDown_eq {data : List UInt8} {len n : ℕ} (h : len + n ≤ data.length) :
    shiftDown data len n = (data.drop len).take n ++ data.drop n := by
  induction n with
  | zero => simp [shiftDown]
  | succ n ih =>
    have hn : len + n < data.length := by omega
    have htake : ((data.drop len).take n).length = n := by
      rw [List.length_take, List.length_drop]
      omega
    have hget : ((data.drop len).take n ++ data.drop n).getD (len + n) 0 = data.getD (len + n) 0 := by
      rw [List.getD_append_right _ _ _ _ (by omega), htake, Nat.add_sub_cancel]
      simp [List.getD_eq_getElem?_getD, Nat.add_comm n len]
    have hset : (data.drop n).set 0 (data.getD (len + n) 0)
        = data.getD (len + n) 0 :: data.drop (n + 1) := by
      rw [List.drop_eq_getElem_cons (by omega)]
      rfl
    have hsucc : (data.drop len).take (n + 1) = (data.drop len).take n ++ [data.getD (len + n) 0] := by
      rw [List.take_succ_eq_append_getElem (by rw [List.length_drop]; omega), List.getElem_drop,
        List.getD_eq_getElem _ _ hn]
    have hprev := ih (by omega)
    unfold shiftDown at hprev ⊢
    rw [List.range_succ, List.foldl_append, hprev, List.foldl_cons, List.foldl_nil, hget,
      List.set_append_right _ _ htake.le, htake, Nat.sub_self, hset, hsucc, List.append_assoc]
    rfl

namespace TcpFragment

/-- The bytes a fragment carries. -/
def payload (f : TcpFragment) : List UInt8 := (f.data.getD []).take f.length

/-- **A fragment with data.** -/
def Sound (f : TcpFragment) : Prop := 0 < f.length ∧ ∃ data, f.data = some data ∧ f.length < data.length

theorem Sound.length_payload {f : TcpFragment} (h : f.Sound) : f.payload.length = f.length := by
  obtain ⟨-, data, hdata, hlt⟩ := h
  rw [payload, hdata, Option.getD_some, List.length_take, min_eq_left hlt.le]

/-- What is left of a fragment that was copied in part. -/
theorem Sound.rest {f : TcpFragment} (h : f.Sound) {len : ℕ} (hlt : len < f.length)
    {data : List UInt8} (hdata : f.data = some data) :
    Sound { f with data := some (shiftDown data len (f.length - len)), length := f.length - len }
      ∧ f.payload = data.take len ++ payload
        { f with data := some (shiftDown data len (f.length - len)), length := f.length - len } := by
  obtain ⟨-, data', hdata', hlength⟩ := h
  obtain rfl := Option.some.inj (hdata.symm.trans hdata')
  have hshift : shiftDown data len (f.length - len)
      = (data.drop len).take (f.length - len) ++ data.drop (f.length - len) :=
    shiftDown_eq (by omega)
  have htake : ((data.drop len).take (f.length - len)).length = f.length - len := by
    rw [List.length_take, List.length_drop]
    omega
  constructor
  · refine ⟨Nat.sub_pos_of_lt hlt, _, rfl, ?_⟩
    show f.length - len < (shiftDown data len (f.length - len)).length
    rw [hshift, List.length_append, htake, List.length_drop]
    omega
  · show (f.data.getD []).take f.length
      = data.take len ++ (shiftDown data len (f.length - len)).take (f.length - len)
    rw [hshift, List.take_left' htake, hdata, Option.getD_some, ← List.take_add]
    congr 1
    omega

end TcpFragment

namespace TcpStream

/-- A payload is queued. -/
theorem enqueue_payload {stream : TcpStream} {seg : TcpSegment} (hpos : 0 < seg.payloadlen)
    (hfits : seg.tcplen ≤ seg.mem.length) (hroom : stream.rcvbuf.length < RING_SIZE - 1) :
    ∃ f : TcpFragment, f.Sound ∧ f.payload = seg.payload ∧ f.length = seg.payloadlen.toNat
      ∧ ngTcpEnqueueRecvbuffer stream seg seg.tcplen (fun _ => true)
        = .ok (0, { stream with rcvbuf := stream.rcvbuf ++ [f] }) := by
  have hle : seg.hdrlen * 4 + seg.payloadlen.toNat ≤ seg.mem.length := by
    unfold TcpSegment.payloadlen at hpos ⊢
    omega
  have hlength : seg.payload.length = seg.payloadlen.toNat := by
    rw [TcpSegment.payload, List.length_take, List.length_drop]
    omega
  refine ⟨{ TcpFragment.zero with
    dport := ntohs seg.dstPort
    sport := ntohs seg.srcPort
    data := some (seg.payload ++ [0])
    length := seg.payloadlen.toNat }, ⟨?_, _, rfl, ?_⟩, ?_, rfl, ?_⟩
  · show 0 < seg.payloadlen.toNat
    omega
  · show seg.payloadlen.toNat < (seg.payload ++ [0]).length
    rw [List.length_append, hlength]
    exact Nat.lt_succ_self _
  · exact List.take_left' hlength
  · unfold ngTcpEnqueueRecvbuffer
    rw [if_neg (not_not.mpr rfl)]
    show (if 0 < seg.payloadlen then _ else _) = _
    rw [if_pos hpos, if_neg (not_not.mpr rfl)]
    show (if seg.mem.length < seg.hdrlen * 4 + seg.payloadlen.toNat then _ else _) = _
    rw [if_neg hle.not_gt]
    simp only [ringEnqueue_of_lt hroom]
    rfl

/-- The FIN of the peer is queued as a fragment without data. -/
theorem enqueue_fin (stream : TcpStream) (seg : TcpSegment)
    (hroom : stream.rcvbuf.length < RING_SIZE - 1) :
    ∃ f : TcpFragment, f.length = 0
      ∧ ngTcpEnqueueRecvbuffer stream seg seg.hdrlen (fun _ => true)
        = .ok (0, { stream with rcvbuf := stream.rcvbuf ++ [f] }) := by
  have hneg : ¬ 0 < (seg.hdrlen : ℤ) - seg.hdrlen * 4 := by omega
  refine ⟨{ TcpFragment.zero with
    dport := ntohs seg.dstPort
    sport := ntohs seg.srcPort }, rfl, ?_⟩
  unfold ngTcpEnqueueRecvbuffer
  rw [if_neg (not_not.mpr rfl)]
  simp only [if_neg hneg, ringEnqueue_of_lt hroom]

section Nrecv

variable {stream : TcpStream} {f : TcpFragment} {rest : List TcpFragment} {len : ℕ}

/-- **A fragment that fits** is copied as a whole. -/
theorem nrecv_whole (hrcvbuf : stream.rcvbuf = f :: rest) (hf : f.Sound) (hle : f.length ≤ len) :
    stream.nrecv len = .ok (f.length, f.payload, { stream with rcvbuf := rest }) := by
  obtain ⟨hpos, data, hdata, -⟩ := hf
  unfold nrecv TcpFragment.payload
  simp only [hrcvbuf, if_neg hle.not_gt, if_neg hpos.ne', hdata, Option.getD_some]

/-- **The FIN.** -/
theorem nrecv_fin (hrcvbuf : stream.rcvbuf = f :: rest) (hf : f.length = 0) (len : ℕ) :
    stream.nrecv len = .ok (0, [], { stream with rcvbuf := rest }) := by
  have hle : ¬ f.length > len := by omega
  unfold nrecv
  simp only [hrcvbuf, if_neg hle, if_pos hf]

/-- **Where all fragments fit**, what returns takes one off. -/
theorem nrecv_fits {n : ℤ} {copied : List UInt8} {stream' : TcpStream}
    (hfits : ∀ f ∈ stream.rcvbuf, f.length ≤ len) (h : stream.nrecv len = .ok (n, copied, stream')) :
    ∃ f rest, stream.rcvbuf = f :: rest ∧ stream' = { stream with rcvbuf := rest } := by
  unfold nrecv at h
  split at h
  · cases h
  · next f rest hrcvbuf =>
    have hle : f.length ≤ len := hfits f (by rw [hrcvbuf]; exact List.mem_cons_self)
    refine ⟨f, rest, hrcvbuf, ?_⟩
    rw [if_neg hle.not_gt] at h
    split at h
    · cases h
      rfl
    · split at h
      · cases h
      · cases h
        rfl

/-- **A fragment that does not fit** is copied in part; what is returned is how
much is left, and the rest goes to the end of the ring. -/
theorem nrecv_part (hrcvbuf : stream.rcvbuf = f :: rest) (hf : f.Sound) (hlt : len < f.length) :
    ∃ f' : TcpFragment, f'.Sound ∧ f'.length = f.length - len
      ∧ f.payload = f.payload.take len ++ f'.payload
      ∧ stream.nrecv len = .ok ((f.length - len : ℕ), f.payload.take len,
        { stream with rcvbuf := ringEnqueue rest f' }) := by
  obtain ⟨hpos, data, hdata, hlength⟩ := hf
  obtain ⟨hsound, hpayload⟩ := TcpFragment.Sound.rest ⟨hpos, data, hdata, hlength⟩ hlt hdata
  have htake : f.payload.take len = data.take len := by
    rw [TcpFragment.payload, hdata, Option.getD_some, List.take_take, min_eq_left hlt.le]
  refine ⟨_, hsound, rfl, htake ▸ hpayload, ?_⟩
  unfold nrecv
  simp only [hrcvbuf, if_pos hlt, hdata, htake]

end Nrecv

/-! ## Runs -/

/-- **What happens to a stream**: a segment with a payload comes, or one with a
FIN, or the application asks for so many bytes. -/
inductive Input where
  | data (seg : TcpSegment)
  | fin (seg : TcpSegment)
  | recv (len : ℕ)

/-- **What it leaves behind**: a payload that was queued, the FIN, or what an
`nrecv` returned and copied. -/
inductive Note where
  | arrived (payload : List UInt8)
  | fin
  | returned (ret : ℤ) (copied : List UInt8)

/-- The payloads queued, in order. -/
def arrived (log : List Note) : List UInt8 :=
  log.flatMap (fun n => match n with
    | .arrived payload => payload
    | _ => [])

/-- The bytes copied, in order. -/
def delivered (log : List Note) : List UInt8 :=
  log.flatMap (fun n => match n with
    | .returned _ copied => copied
    | _ => [])

/-- **One step.** The FIN closes the stream for further payloads. -/
def step (stream : TcpStream) : Input → Except Stop (List Note × TcpStream)
  | .data seg => do
    let (_, stream) ← ngTcpEnqueueRecvbuffer stream seg seg.tcplen (fun _ => true)
    return ([.arrived seg.payload], stream)
  | .fin seg => do
    let (_, stream) ← ngTcpEnqueueRecvbuffer { stream with status := .closeWait } seg seg.hdrlen
      (fun _ => true)
    return ([.fin], stream)
  | .recv len => do
    let (ret, copied, stream) ← stream.nrecv len
    return ([.returned ret copied], stream)

/-- The stream as a machine. -/
def machine : Machine TcpStream Input (List Note) := fun stream i => (step stream i).toOption

/-- **What is assumed of segments and calls**: payloads are not empty and come
before the FIN, the ring has room, and `nrecv` is asked for something. -/
def Feeds (stream : TcpStream) : Input → Prop
  | .data seg => stream.status = .established ∧ 0 < seg.payloadlen ∧ seg.tcplen ≤ seg.mem.length
    ∧ stream.rcvbuf.length < RING_SIZE - 1
  | .fin _ => stream.status = .established ∧ stream.rcvbuf.length < RING_SIZE - 1
  | .recv len => 0 < len

/-- **`nrecv` does not split a fragment**, but where it is the only one there is
and twice as long as the buffer. -/
def Fits (stream : TcpStream) : Input → Prop
  | .recv len => ∀ f rest, stream.rcvbuf = f :: rest →
    f.length ≤ len ∨ (f.length = 2 * len ∧ rest = [])
  | _ => True

/-- **A byte stream**: `nrecv` returns what it copied, what was copied is the
front of what was queued, and `0` is returned only after the FIN and
everything before it. -/
structure IsByteStream (log : List Note) : Prop where
  returned : ∀ ret copied, .returned ret copied ∈ log → ret = copied.length
  inOrder : delivered log <+: arrived log
  zero : ∀ before after copied, log = before ++ .returned 0 copied :: after →
    .fin ∈ before ∧ delivered before = arrived before

/-- **What the ring holds**: what was queued and not yet copied, and the FIN
behind it. -/
structure Inv (log : List Note) (stream : TcpStream) : Prop where
  ring : ∃ fs fin, stream.rcvbuf = fs ++ fin ∧ (∀ f ∈ fs, f.Sound)
    ∧ arrived log = delivered log ++ fs.flatMap TcpFragment.payload
    ∧ (fin = [] ∨ ∃ f, fin = [f] ∧ f.length = 0 ∧ .fin ∈ log ∧ stream.status ≠ .established)
  stream : IsByteStream log

section Run

variable {log : List Note} {stream : TcpStream}

theorem arrived_append (log log' : List Note) : arrived (log ++ log') = arrived log ++ arrived log' :=
  List.flatMap_append

theorem delivered_append (log log' : List Note) :
    delivered (log ++ log') = delivered log ++ delivered log' := List.flatMap_append

/-- One more entry of the log. -/
theorem IsByteStream.concat (h : IsByteStream log) {n : Note}
    (hreturned : ∀ ret copied, n = .returned ret copied → ret = copied.length)
    (hinOrder : delivered (log ++ [n]) <+: arrived (log ++ [n]))
    (hzero : ∀ copied, n = .returned 0 copied → .fin ∈ log ∧ delivered log = arrived log) :
    IsByteStream (log ++ [n]) where
  returned := by
    intro ret copied hmem
    rcases List.mem_append.mp hmem with hmem | hmem
    · exact h.returned ret copied hmem
    · exact hreturned ret copied (List.mem_singleton.mp hmem).symm
  inOrder := hinOrder
  zero := by
    intro before after copied heq
    rcases List.eq_nil_or_concat after with rfl | ⟨after', n', rfl⟩
    · obtain ⟨rfl, hn⟩ := List.append_inj' heq rfl
      exact hzero copied (List.cons.inj hn).1
    · rw [List.concat_eq_append, ← List.cons_append, ← List.append_assoc] at heq
      obtain ⟨hlog, -⟩ := List.append_inj' heq rfl
      exact h.zero before after' copied hlog

/-- **A payload comes.** -/
theorem Inv.data (h : Inv log stream) {seg : TcpSegment} (hseg : Feeds stream (.data seg)) :
    ∃ stream', step stream (.data seg) = .ok ([.arrived seg.payload], stream')
      ∧ Inv (log ++ [Note.arrived seg.payload]) stream' := by
  obtain ⟨hstatus, hpos, hfits, hroom⟩ := hseg
  obtain ⟨f, hsound, hpayload, -, henqueue⟩ := enqueue_payload hpos hfits hroom
  obtain ⟨fs, fin, hrcvbuf, hfs, hlog, hfin⟩ := h.ring
  obtain rfl : fin = [] := by
    rcases hfin with hfin | ⟨-, -, -, -, hne⟩
    · exact hfin
    · exact absurd hstatus hne
  have hcontents : arrived (log ++ [Note.arrived seg.payload])
      = delivered (log ++ [Note.arrived seg.payload]) ++ (fs ++ [f]).flatMap TcpFragment.payload := by
    rw [arrived_append, delivered_append, hlog]
    simp [arrived, delivered, hpayload]
  refine ⟨_, bind_ok henqueue rfl, ?_, ?_⟩
  · refine ⟨fs ++ [f], [], ?_, ?_, hcontents, Or.inl rfl⟩
    · show stream.rcvbuf ++ [f] = fs ++ [f] ++ []
      rw [hrcvbuf, List.append_nil, List.append_nil]
    · intro x hx
      rcases List.mem_append.mp hx with hx | hx
      · exact hfs x hx
      · rw [List.mem_singleton.mp hx]
        exact hsound
  · refine h.stream.concat (fun _ _ he => nomatch he) ?_ (fun _ he => nomatch he)
    rw [hcontents]
    exact List.prefix_append _ _

/-- **The FIN comes.** -/
theorem Inv.fin (h : Inv log stream) {seg : TcpSegment} (hseg : Feeds stream (.fin seg)) :
    ∃ stream', step stream (.fin seg) = .ok ([.fin], stream') ∧ Inv (log ++ [Note.fin]) stream' := by
  obtain ⟨hstatus, hroom⟩ := hseg
  obtain ⟨f, hf, henqueue⟩ := enqueue_fin { stream with status := .closeWait } seg hroom
  obtain ⟨fs, fin, hrcvbuf, hfs, hlog, hfin⟩ := h.ring
  obtain rfl : fin = [] := by
    rcases hfin with hfin | ⟨-, -, -, -, hne⟩
    · exact hfin
    · exact absurd hstatus hne
  have hcontents : arrived (log ++ [Note.fin])
      = delivered (log ++ [Note.fin]) ++ fs.flatMap TcpFragment.payload := by
    rw [arrived_append, delivered_append, hlog]
    simp [arrived, delivered]
  refine ⟨_, bind_ok henqueue rfl, ?_, ?_⟩
  · refine ⟨fs, [f], ?_, hfs, hcontents, Or.inr ⟨f, rfl, hf, by simp, fun he => nomatch he⟩⟩
    show stream.rcvbuf ++ [f] = fs ++ [f]
    rw [hrcvbuf, List.append_nil]
  · refine h.stream.concat (fun _ _ he => nomatch he) ?_ (fun _ he => nomatch he)
    rw [hcontents]
    exact List.prefix_append _ _

/-- **The application has received something**, of the length that was returned,
and the rest is in the ring. -/
theorem Inv.returned (h : Inv log stream) {fs : List TcpFragment} (fs' fin : List TcpFragment)
    {copied : List UInt8}
    (hlog : arrived log = delivered log ++ fs.flatMap TcpFragment.payload)
    (hsplit : fs.flatMap TcpFragment.payload = copied ++ fs'.flatMap TcpFragment.payload)
    (hfs' : ∀ f ∈ fs', f.Sound)
    (hfin : fin = [] ∨ ∃ f, fin = [f] ∧ f.length = 0 ∧ .fin ∈ log ∧ stream.status ≠ .established)
    {ret : ℤ} (hret : ret = copied.length)
    (hzero : ret = 0 → .fin ∈ log ∧ delivered log = arrived log) :
    Inv (log ++ [Note.returned ret copied]) { stream with rcvbuf := fs' ++ fin } := by
  have hcontents : arrived (log ++ [Note.returned ret copied])
      = delivered (log ++ [Note.returned ret copied]) ++ fs'.flatMap TcpFragment.payload := by
    rw [arrived_append, delivered_append, hlog, hsplit]
    simp [arrived, delivered]
  refine ⟨⟨fs', fin, rfl, hfs', hcontents, ?_⟩, h.stream.concat ?_ ?_ ?_⟩
  · refine hfin.imp_right (fun ⟨f, hf, hlength, hmem, hstatus⟩ => ?_)
    exact ⟨f, hf, hlength, List.mem_append_left _ hmem, hstatus⟩
  · rintro ret' copied' ⟨⟩
    exact hret
  · rw [hcontents]
    exact List.prefix_append _ _
  · rintro copied' ⟨⟩
    exact hzero rfl

/-- **The application asks for bytes**, and gets a fragment as a whole, or half of
the only one, or is told of the FIN. -/
theorem Inv.recv (h : Inv log stream) {len : ℕ} (hlen : 0 < len) (hfits : Fits stream (.recv len))
    (hne : stream.rcvbuf ≠ []) :
    ∃ ret copied stream', step stream (.recv len) = .ok ([.returned ret copied], stream')
      ∧ Inv (log ++ [Note.returned ret copied]) stream' := by
  obtain ⟨fs, fin, hrcvbuf, hfs, hlog, hfin⟩ := h.ring
  cases fs with
  | nil =>
    obtain rfl | ⟨f, rfl, hf, hmem, hstatus⟩ := hfin
    · exact absurd hrcvbuf hne
    · have hdone : delivered log = arrived log := by
        rw [hlog]
        exact (List.append_nil _).symm
      exact ⟨0, [], _, bind_ok (nrecv_fin hrcvbuf hf len) rfl,
        h.returned [] [] hlog rfl hfs (Or.inl rfl) rfl (fun _ => ⟨hmem, hdone⟩)⟩
  | cons f fs =>
    obtain ⟨hsound, hfs'⟩ := List.forall_mem_cons.mp hfs
    have hlength := hsound.length_payload
    rcases hfits f (fs ++ fin) hrcvbuf with hle | ⟨hdouble, hrest⟩
    · refine ⟨f.length, f.payload, _, bind_ok (nrecv_whole hrcvbuf hsound hle) rfl, ?_⟩
      refine h.returned fs fin hlog rfl hfs' hfin (by rw [hlength]) (fun hzero => ?_)
      exact absurd (Int.ofNat.inj hzero) hsound.1.ne'
    · obtain ⟨rfl, rfl⟩ := List.append_eq_nil_iff.mp hrest
      obtain ⟨f', hsound', -, hpayload, hnrecv⟩ := nrecv_part hrcvbuf hsound
        (show len < f.length by omega)
      rw [ringEnqueue_of_lt (by simp [RING_SIZE])] at hnrecv
      refine ⟨_, _, _, bind_ok hnrecv rfl, ?_⟩
      refine h.returned [f'] [] hlog ?_ ?_ (Or.inl rfl) ?_ (fun hzero => ?_)
      · simpa using hpayload
      · exact List.forall_mem_singleton.mpr hsound'
      · rw [List.length_take, hlength]
        omega
      · omega

/-- **A step** returns and keeps the invariant, unless it waits. -/
theorem Inv.step (h : Inv log stream) {i : Input} (hfeeds : Feeds stream i) (hfits : Fits stream i)
    (hwaits : ∀ len, i = .recv len → stream.rcvbuf ≠ []) :
    ∃ out stream', TcpStream.step stream i = .ok (out, stream') ∧ Inv (log ++ out) stream' := by
  cases i with
  | data seg =>
    obtain ⟨stream', hstep, h'⟩ := h.data hfeeds
    exact ⟨_, stream', hstep, h'⟩
  | fin seg =>
    obtain ⟨stream', hstep, h'⟩ := h.fin hfeeds
    exact ⟨_, stream', hstep, h'⟩
  | recv len =>
    obtain ⟨ret, copied, stream', hstep, h'⟩ := h.recv hfeeds hfits (hwaits len rfl)
    exact ⟨_, stream', hstep, h'⟩

/-- An `nrecv` on an empty ring waits. -/
theorem step_recv_nil (h : stream.rcvbuf = []) (len : ℕ) :
    TcpStream.step stream (.recv len) = .error .blocked := by
  have hnrecv : stream.nrecv len = .error .blocked := by
    unfold nrecv
    rw [h]
  show (stream.nrecv len >>= _) = _
  rw [hnrecv]
  rfl

/-- **Every run of a stream is a byte stream**, if `nrecv` never splits a
fragment but the only one, in two halves. Then `nrecv` returns if there is
something in the ring, and what it returns is what it copied exactly if it
does not split a fragment, or splits it in halves. -/
theorem byte_stream {stream₀ : TcpStream} (h₀ : stream₀.rcvbuf = [])
    (h : machine.Reach (fun stream i => Feeds stream i ∧ Fits stream i) stream₀ log stream) :
    IsByteStream log
    ∧ ∀ f rest, stream.rcvbuf = f :: rest → ∀ len, 0 < len →
      ∃ ret copied stream', stream.nrecv len = .ok (ret, copied, stream')
        ∧ (ret = copied.length ↔ f.length ≤ len ∨ f.length = 2 * len) := by
  have hinv : Inv log stream := by
    refine Machine.Reach.invariant (I := Inv) ?_ ?_ h
    · refine ⟨⟨[], [], h₀, fun f hf => absurd hf List.not_mem_nil, rfl, Or.inl rfl⟩, ?_, ?_, ?_⟩
      · exact fun ret copied hmem => absurd hmem List.not_mem_nil
      · exact List.prefix_refl _
      · intro before after copied heq
        exact absurd heq.symm (List.append_ne_nil_of_right_ne_nil _ (List.cons_ne_nil _ _))
    · rintro log stream i out stream' hinv ⟨hfeeds, hfits⟩ hstep
      have hreturns := eq_ok_of_toOption hstep
      have hwaits : ∀ len, i = .recv len → stream.rcvbuf ≠ [] := by
        rintro len rfl hnil
        cases (step_recv_nil hnil len).symm.trans hreturns
      obtain ⟨out', stream'', hok, h'⟩ := hinv.step hfeeds hfits hwaits
      obtain ⟨rfl, rfl⟩ := Prod.mk.inj (Except.ok.inj (hok.symm.trans hreturns))
      exact h'
  refine ⟨hinv.stream, ?_⟩
  intro f rest hrcvbuf len hlen
  obtain ⟨fs, fin, hfs, hsounds, -, hfin⟩ := hinv.ring
  cases fs with
  | nil =>
    obtain rfl | ⟨f', rfl, hf', -, -⟩ := hfin
    · cases hrcvbuf.symm.trans hfs
    · obtain ⟨rfl, rfl⟩ := List.cons.inj (hrcvbuf.symm.trans hfs)
      exact ⟨_, _, _, nrecv_fin hrcvbuf hf' len, iff_of_true rfl (Or.inl (by omega))⟩
  | cons f' fs =>
    obtain ⟨rfl, -⟩ := List.cons.inj (hrcvbuf.symm.trans hfs)
    have hsound := hsounds f List.mem_cons_self
    have hlength := hsound.length_payload
    by_cases hle : f.length ≤ len
    · refine ⟨_, _, _, nrecv_whole hrcvbuf hsound hle, iff_of_true ?_ (Or.inl hle)⟩
      rw [hlength]
    · obtain ⟨f'', -, -, -, hnrecv⟩ := nrecv_part hrcvbuf hsound (not_le.mp hle)
      refine ⟨_, _, _, hnrecv, ?_⟩
      rw [List.length_take, hlength]
      omega

/-! A stream on which the peer has said `hello`. -/

/-- A segment with five bytes of payload. -/
def helloSegment : TcpSegment where
  srcAddr := 1
  dstAddr := 2
  totalLength := 45
  srcPort := 3
  dstPort := 4
  sentSeq := 0
  recvAck := 0
  dataOff := 0x50
  tcpFlags := RTE_TCP_PSH_FLAG ||| RTE_TCP_ACK_FLAG
  mem := List.replicate 20 0 ++ [104, 101, 108, 108, 111]
  cksumOk := true

/-- A stream that is open, and has received nothing. -/
def openStream : TcpStream := ⟨5, 1, 2, 3, 4, 0, 0, .established, [], []⟩

/-- What the segment is queued as. -/
def helloFragment : TcpFragment :=
  { TcpFragment.zero with
    dport := ntohs 4
    sport := ntohs 3
    data := some [104, 101, 108, 108, 111, 0]
    length := 5 }

/-- The segment comes in. -/
theorem reach_hello {P : TcpStream → Input → Prop} (h : P openStream (.data helloSegment)) :
    machine.Reach P openStream [.arrived [104, 101, 108, 108, 111]]
      { openStream with rcvbuf := [helloFragment] } :=
  (Machine.Reach.refl (M := machine)).step h rfl

theorem feeds_helloSegment : Feeds openStream (.data helloSegment) :=
  ⟨rfl, by decide, by decide, by decide⟩

/-- The five bytes are received with a buffer of ten. -/
theorem byte_stream_hello :
    ∃ log stream, machine.Reach (fun stream i => Feeds stream i ∧ Fits stream i) openStream log stream
      ∧ delivered log = [104, 101, 108, 108, 111] ∧ IsByteStream log := by
  have hfits : Fits { openStream with rcvbuf := [helloFragment] } (.recv 10) := by
    rintro f rest ⟨⟩
    exact Or.inl (by decide)
  have hlen : Feeds { openStream with rcvbuf := [helloFragment] } (.recv 10) :=
    show 0 < 10 by decide
  have hrecv := (reach_hello (P := fun stream i => Feeds stream i ∧ Fits stream i)
    ⟨feeds_helloSegment, trivial⟩).step ⟨hlen, hfits⟩ (show machine _ (.recv 10) = some
      ([.returned 5 [104, 101, 108, 108, 111]], openStream) from rfl)
  exact ⟨_, _, hrecv, rfl, (byte_stream rfl hrecv).1⟩

/-- With a buffer of three, three bytes are copied and two returned. -/
theorem not_byte_stream :
    ¬ ∀ (stream₀ : TcpStream) (log : List Note) (stream : TcpStream), stream₀.rcvbuf = [] →
      machine.Reach Feeds stream₀ log stream → IsByteStream log := by
  intro h
  have hlen : Feeds { openStream with rcvbuf := [helloFragment] } (.recv 3) :=
    show 0 < 3 by decide
  have hrecv := (reach_hello feeds_helloSegment).step hlen (show machine _ (.recv 3) = some
    ([.returned 2 [104, 101, 108]], { openStream with rcvbuf := [{ helloFragment with
      data := some [108, 111, 108, 108, 111, 0]
      length := 2 }] }) from rfl)
  have hreturned := (h openStream _ _ rfl hrecv).returned 2 [104, 101, 108]
    (List.mem_append_right _ List.mem_cons_self)
  exact absurd hreturned (by decide)

end Run

end TcpStream

end Ustack
