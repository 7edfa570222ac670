import LinuxLearn.UstackFrame
import LinuxLearn.UstackSequence

/-!
# Segments that are sent

`ng_tcp_pkt` makes a packet of a fragment. Its length is that of the headers,
of the options and of the payload, of which `total_length` keeps 16 bits, and
the payload is put behind the options. Whoever receives it takes the length
of the header from `data_off`, and the rest of `total_length` as payload.

No fragment has options: `data_off` says five words. But `nclose` fills in a
fragment that was not cleared, so `optlen` is what was in its memory, and is
taken for options by the one side and for payload by the other. Fragments of
`nsend` may be longer than a packet. All others are read as they were
written (`segment_round_trips_iff`).
-/

namespace Ustack

/-- **`ng_encode_tcp_apppkt`**: what is stored into the packet, where `fragment->data` can
be read. An address is computed modulo `2 ^ 64`. -/
def ngEncodeTcpApppkt (dpdk : Dpdk) (msg : Bytes) (sip dip : UInt32) (srcmac dstmac : Mac)
    (fragment : TcpFragment) : Except Stop (List (ℕ × List UInt8)) := do
  let totalLen := UInt32.ofNat fragment.length + 14 + 20 + 20 + UInt32.ofInt fragment.optlen * 4
  let headers := ipHeaders dpdk msg srcmac dstmac (totalLen - 14).toUInt16 TCP sip dip
    ++ [(34, Bytes.bytes16 fragment.sport), (36, Bytes.bytes16 fragment.dport),
      (38, (Bytes.bytes32 fragment.seqnum).reverse), (42, (Bytes.bytes32 fragment.acknum).reverse),
      (46, [fragment.hdrlenOff]), (48, Bytes.bytes16 fragment.windows),
      (52, Bytes.bytes16 fragment.tcpUrp), (47, [fragment.tcpFlags])]
  let payload ← (match fragment.data with
    | none => .ok []
    | some data =>
      if data.length < fragment.length then .error .overread
      else .ok [(((54 + 4 * fragment.optlen) % 2 ^ 64).toNat, data.take fragment.length)])
  let stores := headers ++ payload ++ [(50, [0, 0])]
  return stores ++ [(50, Bytes.bytes16 (dpdk.rteIpv4UdptcpCksum (msg.storeAll stores)))]

/-- **`ng_tcp_pkt`**: the length of the packet, and what is stored into it. -/
def ngTcpPkt (dpdk : Dpdk) (msg : Bytes) (sip dip : UInt32) (srcmac dstmac : Mac)
    (fragment : TcpFragment) : Except Stop (UInt32 × List (ℕ × List UInt8)) := do
  let totalLen := UInt32.ofNat fragment.length + 14 + 20 + 20 + UInt32.ofInt fragment.optlen * 4
  let stores ← ngEncodeTcpApppkt dpdk msg sip dip srcmac dstmac fragment
  return (totalLen, stores)

/-- **A segment there and back**: it is written into the memory of a packet, which has room
for `room` bytes, and read from there as it was. -/
def TcpRoundTrips (dpdk : Dpdk) (msg : Bytes) (room : ℕ) (sip dip : UInt32) (srcmac dstmac : Mac)
    (f : TcpFragment) : Prop :=
  ∃ totalLen stores, ngTcpPkt dpdk msg sip dip srcmac dstmac f = .ok (totalLen, stores)
    ∧ (∀ st ∈ stores, st.1 + st.2.length ≤ room)
    ∧ ∀ seg, seg = TcpSegment.ofBytes (msg.storeAll stores) room true →
      seg.srcPort = f.sport ∧ seg.dstPort = f.dport ∧ seg.sentSeq = f.seqnum
      ∧ seg.recvAck = f.acknum ∧ seg.tcpFlags = f.tcpFlags
      ∧ ∀ stream : TcpStream, stream.rcvbuf = [] → ∃ r, r.payload = f.payload
        ∧ ngTcpEnqueueRecvbuffer stream seg seg.tcplen (fun _ => true)
          = .ok (0, { stream with rcvbuf := [r] })

/-- **The fragments that are enqueued**, by those who enqueue them. -/
inductive Produced : TcpFragment → Prop
  | nsend {stream : TcpStream} {buf : List UInt8} {len : ℕ} (hle : len ≤ buf.length) :
    Produced (dataFragment stream buf len)
  | handleListen {seg : TcpSegment} {iss : UInt32} : Produced (synAckFragment seg iss)
  | sendAckpkt {seg : TcpSegment} {seqnum acknum : UInt32} : Produced (ackFragment seg seqnum acknum)
  | nclose {stream : TcpStream} {garbage : TcpFragment} : Produced (finFragment stream garbage)

/-- **What a packet can hold**: the fragment fits, and what is said of options either is
nothing, or takes `total_length` back over zero. -/
def TcpFragment.Whole (f : TcpFragment) (room : ℕ) : Prop :=
  f.length + 54 ≤ room ∧ f.length + 40 < 2 ^ 16
    ∧ (4 * f.optlen % 2 ^ 16 = 0 ∨ 2 ^ 16 - 40 ≤ 4 * f.optlen % 2 ^ 16)

/-! ## What is enqueued -/

namespace Stack

section Produced

variable {s : Stack} {e : Event} {p : Ptr} {x x' : TcpStream} {notes : List StreamNote}

/-- **What an event enqueues**, somebody has produced. -/
theorem Evolves.produced (hevolves : Evolves s p x e notes x') :
    ∀ f ∈ x'.sndbuf.drop x.sndbuf.length, Produced f := by
  intro f hf
  obtain ⟨-, ⟨buf, len, hle, rfl⟩ | ⟨garbage, rfl⟩⟩ | ⟨seg, seqnum, acknum, rfl⟩ := hevolves.put hf
  · exact .nsend hle
  · exact .nclose
  · exact .sendAckpkt

end Produced

/-- **Whatever becomes of a stream**, what is enqueued was produced. -/
theorem Becomes.produced {s : Stack} {e : Event} {p : Ptr} {o o' : Option TcpStream}
    {out : List StreamNote} (hbecomes : Becomes s e p o out o') : ∀ f ∈ queuedIn out, Produced f := by
  intro f hf
  cases hbecomes with
  | evolves hevolves =>
    rw [queuedIn_append, hevolves.queuedIn_notes, List.nil_append, queuedIn_grown] at hf
    exact hevolves.produced f hf
  | born hp hborn =>
    rw [queuedIn_grown] at hf
    cases hborn with
    | made => exact absurd hf List.not_mem_nil
    | opened =>
      obtain rfl := List.mem_singleton.mp hf
      exact .handleListen
    | halfOpened => exact absurd hf List.not_mem_nil
  | @out x macaddr he =>
    rw [(sent_carries x macaddr p 0).2.2] at hf
    exact absurd hf List.not_mem_nil
  | _ => exact absurd hf List.not_mem_nil

/-- **In every run**, whatever is in a ring that is sent from was put there by one of the
four. -/
theorem produced_of_reach {log : List TcpNote} {s : Stack}
    (hreach : tcpMachine.Reach (fun _ _ => True) init log s) (p : Ptr) :
    ∀ f ∈ queuedIn (history p log), Produced f := by
  refine reach_stream (I := fun p log _ => ∀ f ∈ queuedIn (history p log), Produced f)
    (fun p f hf => absurd hf List.not_mem_nil) ?_ hreach p
  intro log s e s' p hallotted hnew _ hbecomes hproduced f hf
  rw [history_append, queuedIn_append] at hf
  exact (List.mem_append.mp hf).elim (hproduced f) (hbecomes.produced f)

end Stack

/-! ## Lengths -/

section Trip

variable {dpdk : Dpdk} {msg : Bytes} {room : ℕ} {sip dip : UInt32} {srcmac dstmac : Mac}
  {f : TcpFragment}

/-- **What a produced fragment is**: it has five words of header, and no data, or data and no
options. -/
theorem Produced.shape (hf : Produced f) : f.hdrlenOff = 0x50
    ∧ ((f.data = none ∧ f.length = 0)
      ∨ ∃ data, f.data = some data ∧ f.length ≤ data.length ∧ f.length < 2 ^ 32 ∧ f.optlen = 0) := by
  cases hf with
  | @nsend stream buf len hle =>
    refine ⟨rfl, Or.inr ⟨_, rfl, ?_, Nat.mod_lt _ (by decide), rfl⟩⟩
    show len % 2 ^ 32 ≤ (buf.take len ++ [0]).length
    rw [List.length_append, List.length_take, min_eq_left hle]
    exact (Nat.mod_le _ _).trans (Nat.le_succ _)
  | handleListen => exact ⟨rfl, Or.inl ⟨rfl, rfl⟩⟩
  | sendAckpkt => exact ⟨rfl, Or.inl ⟨rfl, rfl⟩⟩
  | nclose => exact ⟨rfl, Or.inl ⟨rfl, rfl⟩⟩

/-- **The total length**, as 16 bits keep it. -/
theorem toNat_totalLength (length : ℕ) (optlen : ℤ) :
    (((UInt32.ofNat length + 14 + 20 + 20 + UInt32.ofInt optlen * 4 - 14).toUInt16.toNat : ℕ) : ℤ)
      = (length + 40 + 4 * optlen) % 2 ^ 16 := by
  rw [UInt32.toNat_toUInt16, UInt32.toNat_sub, UInt32.toNat_add, UInt32.toNat_add, UInt32.toNat_add,
    UInt32.toNat_add, UInt32.toNat_mul, toNat_ofInt, UInt32.toNat_ofNat']
  simp
  omega

/-! ## The packet -/

/-- What is written of the TCP header in front of the payload. -/
def TcpFragment.header (f : TcpFragment) : List (ℕ × List UInt8) :=
  [(34, Bytes.bytes16 f.sport), (36, Bytes.bytes16 f.dport), (38, (Bytes.bytes32 f.seqnum).reverse),
    (42, (Bytes.bytes32 f.acknum).reverse), (46, [f.hdrlenOff]), (48, Bytes.bytes16 f.windows),
    (52, Bytes.bytes16 f.tcpUrp), (47, [f.tcpFlags])]

/-- What is written of the payload. -/
def TcpFragment.body (f : TcpFragment) : List (ℕ × List UInt8) :=
  match f.data with
  | none => []
  | some _ => [(54, f.payload)]

/-- **The stores of a produced fragment**: the headers, the payload behind 54 bytes, and the
checksum. -/
theorem ngTcpPkt_eq (dpdk : Dpdk) (msg : Bytes) (sip dip : UInt32) (srcmac dstmac : Mac)
    (hf : Produced f) :
    ∃ totalLen cksum, ngTcpPkt dpdk msg sip dip srcmac dstmac f = .ok (totalLen,
      ipHeaders dpdk msg srcmac dstmac (UInt32.ofNat f.length + 14 + 20 + 20
          + UInt32.ofInt f.optlen * 4 - 14).toUInt16 TCP sip dip
        ++ (f.header ++ f.body ++ [(50, [0, 0]), (50, Bytes.bytes16 cksum)])) := by
  obtain ⟨-, ⟨hdata, hlength⟩ | ⟨data, hdata, hle, hlt, hoptlen⟩⟩ := hf.shape
  · unfold ngTcpPkt ngEncodeTcpApppkt TcpFragment.body
    rw [hdata]
    exact ⟨_, _, rfl⟩
  · unfold ngTcpPkt ngEncodeTcpApppkt TcpFragment.body TcpFragment.payload
    rw [hdata, hoptlen]
    simp only [if_neg hle.not_gt, Option.getD_some]
    exact ⟨_, _, rfl⟩

/-- The payload is behind the headers. -/
theorem body_le (f : TcpFragment) : ∀ s ∈ f.body, 54 ≤ s.1 := by
  unfold TcpFragment.body
  split
  · exact fun s hs => absurd hs List.not_mem_nil
  · intro s hs
    rw [List.mem_singleton.mp hs]

/-- **What a packet of these stores holds.** -/
theorem load_packet {len cksum : UInt16} {m : Bytes}
    (hm : m = msg.storeAll (ipHeaders dpdk msg srcmac dstmac len TCP sip dip
      ++ (f.header ++ f.body ++ [(50, [0, 0]), (50, Bytes.bytes16 cksum)]))) :
    m.net16 16 = len ∧ m.word16 34 = f.sport ∧ m.word16 36 = f.dport ∧ m.net32 38 = f.seqnum
      ∧ m.net32 42 = f.acknum ∧ m 46 = f.hdrlenOff ∧ m 47 = f.tcpFlags
      ∧ (f.data ≠ none → m.load 54 f.payload.length = f.payload) := by
  have hheader : ∀ s ∈ f.header, 34 ≤ s.1 := by simp [TcpFragment.header]
  have hcksum : ∀ s ∈ [(50, [0, 0]), (50, Bytes.bytes16 cksum)], 50 ≤ s.1 := by simp
  have hrest : ∀ s ∈ f.body ++ [(50, [0, 0]), (50, Bytes.bytes16 cksum)], 50 ≤ s.1 := by
    intro s hs
    rcases List.mem_append.mp hs with hs | hs
    · exact (show 50 ≤ 54 by decide).trans (body_le f s hs)
    · exact hcksum s hs
  have hbehind : ∀ s ∈ f.header ++ f.body ++ [(50, [0, 0]), (50, Bytes.bytes16 cksum)], 34 ≤ s.1 := by
    intro s hs
    rw [List.append_assoc] at hs
    exact (List.mem_append.mp hs).elim (hheader s)
      (fun hs => (show 34 ≤ 50 by decide).trans (hrest s hs))
  have hlen : m.load 16 2 = (Bytes.bytes16 len).reverse := by
    rw [hm]
    exact (load_ipHeaders hbehind).1
  rw [Bytes.storeAll_append] at hm
  -- a field of the TCP header that no other overlaps
  have hfield : ∀ {off : ℕ} {bs : List UInt8} (before : List (ℕ × List UInt8))
      {after : List (ℕ × List UInt8)},
      f.header = before ++ (off, bs) :: after → off + bs.length ≤ 50 →
      (∀ s ∈ after, off + bs.length ≤ s.1 ∨ s.1 + s.2.length ≤ off) → m.load off bs.length = bs := by
    intro off bs before after heq hle hafter
    rw [hm, heq, List.append_assoc, List.append_assoc, List.cons_append]
    refine Bytes.load_storeAll _ rfl (fun s hs => ?_)
    exact (List.mem_append.mp hs).elim (hafter s) (fun hs => Or.inl (hle.trans (hrest s hs)))
  refine ⟨Bytes.net16_eq hlen, ?_, ?_, ?_, ?_, ?_, ?_, fun hdata => ?_⟩
  · exact Bytes.word16_eq (hfield [] rfl (by simp) (by simp))
  · exact Bytes.word16_eq (hfield [_] rfl (by simp) (by simp))
  · exact Bytes.net32_eq (hfield [_, _] rfl (by simp) (by simp))
  · exact Bytes.net32_eq (hfield [_, _, _] rfl (by simp) (by simp))
  · exact List.singleton_injective (hfield [_, _, _, _] rfl (by simp) (by simp))
  · exact List.singleton_injective (hfield [_, _, _, _, _, _, _] rfl (by simp) (by simp))
  · rw [hm]
    obtain ⟨data, hdata⟩ := Option.ne_none_iff_exists'.mp hdata
    have hbody : f.body = [(54, f.payload)] := by
      unfold TcpFragment.body
      rw [hdata]
    rw [hbody, List.append_assoc]
    exact Bytes.load_storeAll _ rfl (by simp)

/-- **The stores of a packet stay in its memory** where the payload does. -/
theorem stores_le_iff {len cksum : UInt16} (hdata : f.data = none → f.length = 0)
    (hle : f.payload.length = f.length) :
    (∀ st ∈ ipHeaders dpdk msg srcmac dstmac len TCP sip dip
      ++ (f.header ++ f.body ++ [(50, [0, 0]), (50, Bytes.bytes16 cksum)]), st.1 + st.2.length ≤ room)
      ↔ f.length + 54 ≤ room := by
  have hheaders : ∀ s ∈ ipHeaders dpdk msg srcmac dstmac len TCP sip dip, s.1 + s.2.length ≤ 54 :=
    fun s hs => (ipHeaders_le s hs).trans (by decide)
  have hheader : ∀ s ∈ f.header, s.1 + s.2.length ≤ 54 := by simp [TcpFragment.header]
  have hcksum : ∀ s ∈ [(50, [0, 0]), (50, Bytes.bytes16 cksum)], s.1 + s.2.length ≤ 54 := by simp
  have hbody : ∀ s ∈ f.body, s.1 + s.2.length = f.length + 54 := by
    unfold TcpFragment.body
    split
    · exact fun s hs => absurd hs List.not_mem_nil
    · intro s hs
      rw [List.mem_singleton.mp hs, hle, Nat.add_comm]
  constructor
  · intro h
    cases hf : f.data with
    | none =>
      rw [hdata hf, Nat.zero_add]
      refine h (52, Bytes.bytes16 f.tcpUrp) (List.mem_append_right _ ?_)
      simp [TcpFragment.header]
    | some data =>
      have hmem : (54, f.payload) ∈ f.body := by
        unfold TcpFragment.body
        rw [hf]
        exact List.mem_singleton_self _
      rw [← hbody _ hmem]
      exact h _ (List.mem_append_right _ (List.mem_append_left _ (List.mem_append_right _ hmem)))
  · intro h st hst
    have h54 : 54 ≤ room := (Nat.le_add_left 54 f.length).trans h
    rcases List.mem_append.mp hst with hst | hst
    · exact (hheaders st hst).trans h54
    rcases List.mem_append.mp hst with hst | hst
    · rcases List.mem_append.mp hst with hst | hst
      · exact (hheader st hst).trans h54
      · exact (hbody st hst).trans_le h
    · exact (hcksum st hst).trans h54

/-! ## What is received -/

/-- **A segment is queued with its payload**, if that is in the packet. -/
theorem enqueueRecvbuffer_eq {stream : TcpStream} {seg : TcpSegment} (hring : stream.rcvbuf = []) :
    (∃ r, r.payload = f.payload ∧ ngTcpEnqueueRecvbuffer stream seg seg.tcplen (fun _ => true)
        = .ok (0, { stream with rcvbuf := [r] }))
      ↔ (0 < seg.payloadlen → seg.hdrlen * 4 + seg.payloadlen.toNat ≤ seg.mem.length)
        ∧ seg.payload = f.payload := by
  -- where it returns, what is queued has the payload of the segment
  have hqueued : ∀ r₀ : TcpFragment, r₀.payload = seg.payload →
      ngTcpEnqueueRecvbuffer stream seg seg.tcplen (fun _ => true)
        = .ok (0, { stream with rcvbuf := [r₀] }) →
      ((∃ r, r.payload = f.payload ∧ ngTcpEnqueueRecvbuffer stream seg seg.tcplen (fun _ => true)
        = .ok (0, { stream with rcvbuf := [r] })) ↔ seg.payload = f.payload) := by
    intro r₀ hr₀ hok
    constructor
    · rintro ⟨r, hr, hok'⟩
      have hstream := (Prod.mk.inj (Except.ok.inj (hok.symm.trans hok'))).2
      have hring' : [r₀] = [r] := congrArg TcpStream.rcvbuf hstream
      rw [← hr₀, List.singleton_injective hring', hr]
    · exact fun h => ⟨r₀, hr₀.trans h, hok⟩
  by_cases hpos : 0 < seg.payloadlen
  · by_cases hfits : seg.hdrlen * 4 + seg.payloadlen.toNat ≤ seg.mem.length
    · have htcplen : seg.tcplen ≤ seg.mem.length := by
        unfold TcpSegment.payloadlen at hpos hfits
        omega
      have hroom : stream.rcvbuf.length < RING_SIZE - 1 := by
        rw [hring]
        decide
      obtain ⟨r₀, -, hr₀, -, hok⟩ := TcpStream.enqueue_payload hpos htcplen hroom
      rw [hring] at hok
      rw [hqueued r₀ hr₀ hok]
      exact (and_iff_right (fun _ => hfits)).symm
    · refine iff_of_false ?_ (fun h => hfits (h.1 hpos))
      rintro ⟨r, -, hok⟩
      unfold ngTcpEnqueueRecvbuffer at hok
      rw [if_neg (not_not.mpr rfl)] at hok
      simp only at hok
      rw [if_pos (show 0 < seg.tcplen - seg.hdrlen * 4 from hpos), if_neg (not_not.mpr trivial),
        if_pos (show seg.mem.length < seg.hdrlen * 4 + (seg.tcplen - seg.hdrlen * 4).toNat
          from not_le.mp hfits)] at hok
      cases hok
  · have hempty : seg.payload = [] := by
      unfold TcpSegment.payload
      rw [Int.toNat_of_nonpos (not_lt.mp hpos), List.take_zero]
    have hok : ngTcpEnqueueRecvbuffer stream seg seg.tcplen (fun _ => true)
        = .ok (0, { stream with
          rcvbuf := [{ TcpFragment.zero with dport := ntohs seg.dstPort, sport := ntohs seg.srcPort }] }) := by
      unfold ngTcpEnqueueRecvbuffer
      rw [if_neg (not_not.mpr rfl)]
      simp only
      rw [if_neg (show ¬ 0 < seg.tcplen - seg.hdrlen * 4 from hpos), hring]
      rfl
    rw [hqueued { TcpFragment.zero with dport := ntohs seg.dstPort, sport := ntohs seg.srcPort }
      hempty.symm hok]
    exact (and_iff_right (fun h => absurd h hpos)).symm

/-- The length of the payload that is queued. -/
theorem length_payload_of_le {seg : TcpSegment}
    (hfits : seg.hdrlen * 4 + seg.payloadlen.toNat ≤ seg.mem.length) :
    seg.payload.length = seg.payloadlen.toNat := by
  unfold TcpSegment.payload
  rw [List.length_take, List.length_drop]
  omega

/-- **What is read as payload is the payload**, if and only if `total_length` says so. -/
theorem payload_eq_iff (hf : Produced f) {m : Bytes} {seg : TcpSegment}
    (hseg : seg = TcpSegment.ofBytes m room true) (hroom : f.length + 54 ≤ room)
    (hlen : (seg.totalLength.toNat : ℤ) = (f.length + 40 + 4 * f.optlen) % 2 ^ 16)
    (hdataOff : m 46 = f.hdrlenOff) (hbody : f.data ≠ none → m.load 54 f.payload.length = f.payload) :
    ((0 < seg.payloadlen → seg.hdrlen * 4 + seg.payloadlen.toNat ≤ seg.mem.length)
        ∧ seg.payload = f.payload)
      ↔ f.length + 40 < 2 ^ 16
        ∧ (4 * f.optlen % 2 ^ 16 = 0 ∨ 2 ^ 16 - 40 ≤ 4 * f.optlen % 2 ^ 16) := by
  obtain ⟨hhdrlenOff, hshape⟩ := hf.shape
  have hhdrlen : seg.hdrlen = 5 := by
    rw [hseg]
    show (m 46 >>> 4).toNat = 5
    rw [hdataOff, hhdrlenOff]
    rfl
  have hmem : seg.mem.length = room - 34 := by
    rw [hseg]
    exact Bytes.length_load
  have hpayloadlen : seg.payloadlen = seg.totalLength.toNat - 40 := by
    unfold TcpSegment.payloadlen TcpSegment.tcplen
    rw [hhdrlen]
    omega
  have hempty : ¬ 0 < seg.payloadlen → seg.payload = [] := by
    intro h
    unfold TcpSegment.payload
    rw [Int.toNat_of_nonpos (not_lt.mp h), List.take_zero]
  obtain ⟨hdata, hlength⟩ | ⟨data, hdata, hle, -, hoptlen⟩ := hshape
  · -- nothing was sent: nothing must be read
    have hpayload : f.payload = [] := by
      unfold TcpFragment.payload
      rw [hlength, List.take_zero]
    rw [hlength] at hlen ⊢
    rw [hpayload]
    constructor
    · rintro ⟨hfits, hnil⟩
      have hneg : ¬ 0 < seg.payloadlen := by
        intro hpos
        have hzero := length_payload_of_le (hfits hpos)
        rw [hnil, List.length_nil] at hzero
        omega
      omega
    · rintro ⟨-, hopt⟩
      have hneg : ¬ 0 < seg.payloadlen := by omega
      exact ⟨fun hpos => absurd hpos hneg, hempty hneg⟩
  · have hpayload : f.payload.length = f.length := by
      unfold TcpFragment.payload
      rw [hdata, Option.getD_some, List.length_take, min_eq_left hle]
    rw [hoptlen] at hlen ⊢
    rw [and_iff_left (Or.inl (by decide))]
    constructor
    · rintro ⟨hfits, heq⟩
      have hlength := congrArg List.length heq
      rw [hpayload] at hlength
      by_cases hpos : 0 < seg.payloadlen
      · rw [length_payload_of_le (hfits hpos)] at hlength
        omega
      · rw [hempty hpos, List.length_nil] at hlength
        omega
    · intro hlt
      have hpayloadlen' : seg.payloadlen.toNat = f.length := by omega
      refine ⟨fun _ => ?_, ?_⟩
      · rw [hhdrlen, hpayloadlen', hmem]
        omega
      · obtain ⟨k, rfl⟩ := Nat.exists_eq_add_of_le hroom
        have hsplit : f.length + 54 + k - 34 = 20 + (f.length + k) := by omega
        unfold TcpSegment.payload
        rw [hpayloadlen', hhdrlen, hseg]
        show ((m.load 34 (f.length + 54 + k - 34)).drop 20).take f.length = f.payload
        rw [hsplit, Bytes.load_drop, Bytes.load_take (Nat.le_add_right _ k), ← hpayload]
        refine hbody ?_
        rw [hdata]
        exact Option.some_ne_none data

/-- **The packet of a fragment**, and what is read of it: its fields, and the payload where
the lengths agree. -/
theorem packet_of_produced (dpdk : Dpdk) (msg : Bytes) (room : ℕ) (sip dip : UInt32)
    (srcmac dstmac : Mac) (hf : Produced f) :
    ∃ totalLen stores, ngTcpPkt dpdk msg sip dip srcmac dstmac f = .ok (totalLen, stores)
      ∧ ((∀ st ∈ stores, st.1 + st.2.length ≤ room) ↔ f.length + 54 ≤ room)
      ∧ ∀ seg, seg = TcpSegment.ofBytes (msg.storeAll stores) room true →
        (seg.srcPort = f.sport ∧ seg.dstPort = f.dport ∧ seg.sentSeq = f.seqnum
          ∧ seg.recvAck = f.acknum ∧ seg.tcpFlags = f.tcpFlags)
        ∧ ∀ stream : TcpStream, stream.rcvbuf = [] → f.length + 54 ≤ room →
          ((∃ r, r.payload = f.payload
            ∧ ngTcpEnqueueRecvbuffer stream seg seg.tcplen (fun _ => true)
              = .ok (0, { stream with rcvbuf := [r] }))
          ↔ f.length + 40 < 2 ^ 16
            ∧ (4 * f.optlen % 2 ^ 16 = 0 ∨ 2 ^ 16 - 40 ≤ 4 * f.optlen % 2 ^ 16)) := by
  obtain ⟨totalLen, cksum, hpkt⟩ := ngTcpPkt_eq dpdk msg sip dip srcmac dstmac hf
  generalize hstores : ipHeaders dpdk msg srcmac dstmac (UInt32.ofNat f.length + 14 + 20 + 20
      + UInt32.ofInt f.optlen * 4 - 14).toUInt16 TCP sip dip
    ++ (f.header ++ f.body ++ [(50, [0, 0]), (50, Bytes.bytes16 cksum)]) = stores at hpkt
  obtain ⟨hlen, hsport, hdport, hseqnum, hacknum, hdataOff, hflags, hbody⟩ :=
    load_packet (m := msg.storeAll stores) (by rw [← hstores])
  have hshape := hf.shape.2
  refine ⟨totalLen, stores, hpkt, ?_, ?_⟩
  · rw [← hstores]
    refine stores_le_iff ?_ ?_
    · obtain ⟨-, hlength⟩ | ⟨data, hdata, -⟩ := hshape
      · exact fun _ => hlength
      · exact fun hnone => by cases hnone.symm.trans hdata
    · obtain ⟨-, hlength⟩ | ⟨data, hdata, hle, -⟩ := hshape
      · unfold TcpFragment.payload
        rw [hlength, List.take_zero, List.length_nil]
      · unfold TcpFragment.payload
        rw [hdata, Option.getD_some, List.length_take, min_eq_left hle]
  · rintro seg rfl
    have htotal : ((TcpSegment.ofBytes (msg.storeAll stores) room true).totalLength.toNat : ℤ)
        = (f.length + 40 + 4 * f.optlen) % 2 ^ 16 := by
      rw [← toNat_totalLength, ← hlen]
      rfl
    refine ⟨⟨hsport, hdport, hseqnum, hacknum, hflags⟩, fun stream hring hfits => ?_⟩
    rw [enqueueRecvbuffer_eq hring]
    exact payload_eq_iff hf rfl hfits htotal hdataOff hbody

/-- What comes back as it was is whole. -/
theorem TcpRoundTrips.whole (hf : Produced f) (h : TcpRoundTrips dpdk msg room sip dip srcmac dstmac f) :
    f.Whole room := by
  obtain ⟨totalLen, stores, hpkt, hroom, hread⟩ := packet_of_produced dpdk msg room sip dip
    srcmac dstmac hf
  obtain ⟨totalLen', stores', hpkt', hle, hseg⟩ := h
  obtain ⟨-, rfl⟩ := Prod.mk.inj (Except.ok.inj (hpkt.symm.trans hpkt'))
  obtain ⟨-, -, -, -, -, hqueued⟩ := hseg _ rfl
  have hfits := hroom.mp hle
  have hring : (Stack.newStream 0).rcvbuf = [] := rfl
  exact ⟨hfits, ((hread _ rfl).2 _ hring hfits).mp (hqueued _ hring)⟩

/-- **A fragment comes there and back as it was**, if and only if it is whole: the packet has
room for it, its length fits into 16 bits, and so do its options, which are read as
payload unless there are none. -/
theorem segment_round_trips_iff (hf : Produced f) :
    TcpRoundTrips dpdk msg room sip dip srcmac dstmac f ↔ f.Whole room := by
  refine ⟨fun h => h.whole hf, ?_⟩
  rintro ⟨hfits, hwhole⟩
  obtain ⟨totalLen, stores, hpkt, hroom, hread⟩ := packet_of_produced dpdk msg room sip dip
    srcmac dstmac hf
  refine ⟨totalLen, stores, hpkt, hroom.mpr hfits, fun seg hseg => ?_⟩
  obtain ⟨⟨hsport, hdport, hseqnum, hacknum, hflags⟩, hqueued⟩ := hread seg hseg
  exact ⟨hsport, hdport, hseqnum, hacknum, hflags,
    fun stream hring => (hqueued stream hring hfits).mpr hwhole⟩

/-- An ACK is whole. -/
theorem segment_round_trips_ack :
    TcpRoundTrips noCksum (fun _ => 0) 2048 1 2 (Vector.replicate 6 0) (Vector.replicate 6 0)
      (ackFragment (peerSegment RTE_TCP_ACK_FLAG 501 1001 []) 1001 501) :=
  (segment_round_trips_iff .sendAckpkt).mpr ⟨by decide, by decide, by decide⟩

/-- The FIN of `nclose`, where one word of options was left in its memory. -/
def finWithOptions : TcpFragment := finFragment (Stack.newStream 3) { TcpFragment.zero with optlen := 1 }

/-- Four bytes come with it. -/
theorem not_segment_round_trips :
    ¬ ∀ (dpdk : Dpdk) (msg : Bytes) (room : ℕ) (sip dip : UInt32) (srcmac dstmac : Mac)
      (f : TcpFragment), Produced f → f.length + 54 ≤ room → f.length + 54 ≤ 1514 →
      TcpRoundTrips dpdk msg room sip dip srcmac dstmac f := by
  intro h
  have hwhole : finWithOptions.Whole 2048 := (h noCksum (fun _ => 0) 2048 1 2 (Vector.replicate 6 0)
    (Vector.replicate 6 0) finWithOptions .nclose (by decide) (by decide)).whole .nclose
  exact absurd hwhole.2.2 (by decide)

end Trip

end Ustack
