import LinuxLearn.UstackFrame
import LinuxLearn.UstackHistory

/-!
# Datagrams

A UDP socket has two rings of `struct offload`. `nsendto` puts a copy of what
it is given into the one, which `ng_udp_pkt` makes a packet of, and
`udp_process` puts what is in a packet into the other, for `nrecvfrom` to
copy out.

A datagram has two lengths, with its header of eight bytes and without it,
and they are mixed up: `ng_encode_udp_apppkt` copies as many bytes of
payload as there are with the header, and `udp_process` allocates as many as
there are without it, but keeps the other number. So eight bytes behind the
payload are read when it is sent, and eight behind the copy when it is
received (`udp_round_trip`).
-/

namespace Ustack

/-- **`struct offload`.** -/
structure Offload where
  sip : UInt32
  dip : UInt32
  sport : UInt16
  dport : UInt16
  /-- The memory it points to. -/
  data : List UInt8
  /-- In one that is received that of the datagram, with its UDP header. -/
  length : UInt16
deriving DecidableEq

/-- **What is done to the buffer of a packet.** -/
inductive MbufUse where
  | access
  | free
deriving DecidableEq

/-- **The stack and the rings of its UDP sockets.** -/
structure Sockets where
  stack : Stack
  /-- What is to be sent, by socket. -/
  sndbuf : Ptr → List Offload
  /-- What was received and not read, by socket. -/
  rcvbuf : Ptr → List Offload

/-- **`get_hostinfo_fromip_port`.** -/
def Stack.getHostinfoFromipPort (s : Stack) (dip : UInt32) (port : UInt16) (proto : UInt8) :
    Option (Ptr × Localhost) :=
  s.lhost.first (fun host => dip = host.localip ∧ port = host.localport ∧ proto.toNat = IPPROTO_UDP)

namespace Sockets

/-- **`udp_process`**, and what it does to the packet. A datagram that is said to be
shorter than its header has a size of almost `2 ^ 64`. -/
def udpProcess (w : Sockets) (udpmbuf : Frame) (malloc : ℕ → Bool) :
    Except Stop (ℤ × List MbufUse × Sockets) :=
  match w.stack.getHostinfoFromipPort udpmbuf.dstAddr udpmbuf.dstPort udpmbuf.nextProtoId with
  | none => .ok (-3, [.access, .free], w)
  | some (p, _) =>
    if ¬ malloc 0 then .ok (-1, [.access, .free], w)
    else
      let length := udpmbuf.dgramLen
      if ¬ malloc 1 then .ok (-2, [.access, .free], w)
      else if udpmbuf.length < 42 + udpmbuf.dataLen.toNat then .error .overread
      else
        let ol : Offload :=
          { sip := udpmbuf.srcAddr
            dip := udpmbuf.dstAddr
            sport := udpmbuf.srcPort
            dport := udpmbuf.dstPort
            data := (udpmbuf.drop 42).take udpmbuf.dataLen.toNat
            length := length }
        .ok (0, [.access, .access, .free],
          { w with rcvbuf := Function.update w.rcvbuf p (ringEnqueue (w.rcvbuf p) ol) })

/-- **`nrecvfrom`**: what it returns, the address it writes and what it copies. An
object that is no UDP socket is used as one. -/
def nrecvfrom (w : Sockets) (sockfd : ℤ) (len : ℕ) (malloc : ℕ → Bool) :
    Except Stop (ℤ × Option SockaddrIn × List UInt8 × Sockets) :=
  match w.stack.getHostinfoFromfd sockfd with
  | none => .ok (-1, none, [], w)
  | some (.udp p _) =>
    match w.rcvbuf p with
    | [] => .error .blocked
    | ol :: rcvbuf =>
      let saddr : SockaddrIn := ⟨ol.sport, ol.sip⟩
      let length := ol.length.toNat
      if len < length then
        if ol.data.length < len then .error .overread
        else if ¬ malloc 0 then .error .null
        else if ol.data.length < length then .error .overread
        else
          let rest : Offload :=
            { ol with data := (ol.data.drop len).take (length - len)
                      length := ol.length - UInt16.ofNat len }
          .ok (len, some saddr, ol.data.take len,
            { w with rcvbuf := Function.update w.rcvbuf p (ringEnqueue rcvbuf rest) })
      else if ol.data.length < length then .error .overread
      else
        .ok (length, some saddr, ol.data.take length,
          { w with rcvbuf := Function.update w.rcvbuf p rcvbuf })
  | some _ => .error .confused

/-- **`nsendto`.** -/
def nsendto (w : Sockets) (sockfd : ℤ) (buf : List UInt8) (len : ℕ) (daddr : SockaddrIn)
    (malloc : ℕ → Bool) : Except Stop (ℤ × Sockets) :=
  match w.stack.getHostinfoFromfd sockfd with
  | none => .ok (-1, w)
  | some (.udp p host) =>
    if ¬ malloc 0 then .ok (-1, w)
    else if ¬ malloc 1 then .ok (-1, w)
    else if buf.length < len then .error .overread
    else
      let ol : Offload :=
        { dip := daddr.sinAddr
          dport := daddr.sinPort
          sip := host.localip
          sport := host.localport
          length := UInt16.ofNat len
          data := buf.take len }
      .ok (len, { w with sndbuf := Function.update w.sndbuf p (ringEnqueue (w.sndbuf p) ol) })
  | some _ => .error .confused

end Sockets

/-- **`ng_encode_udp_apppkt`**: what is stored into the packet, where the payload can be
read. -/
def ngEncodeUdpApppkt (dpdk : Dpdk) (msg : Bytes) (sip dip : UInt32) (sport dport : UInt16)
    (srcmac dstmac : Mac) (data : List UInt8) (totalLen : UInt16) :
    Except Stop (List (ℕ × List UInt8)) :=
  let udplen := totalLen - 14 - 20
  if data.length < udplen.toNat then .error .overread
  else
    let stores := ipHeaders dpdk msg srcmac dstmac (totalLen - 14) UDP sip dip
      ++ [(34, Bytes.bytes16 sport), (36, Bytes.bytes16 dport), (38, (Bytes.bytes16 udplen).reverse),
        (42, data.take udplen.toNat), (40, [0, 0])]
    .ok (stores ++ [(40, Bytes.bytes16 (dpdk.rteIpv4UdptcpCksum (msg.storeAll stores)))])

/-- **`ng_udp_pkt`.** -/
def ngUdpPkt (dpdk : Dpdk) (msg : Bytes) (sip dip : UInt32) (sport dport : UInt16)
    (srcmac dstmac : Mac) (data : List UInt8) (length : UInt16) :
    Except Stop (List (ℕ × List UInt8)) :=
  ngEncodeUdpApppkt dpdk msg sip dip sport dport srcmac dstmac data (length + 42)

/-! ## There and back -/

/-- **A datagram there and back**: `ng_udp_pkt` reads the payload only and writes the packet
only, `udp_process` queues it with its addresses and ports, and `nrecvfrom` returns
the payload, whole. -/
def UdpRoundTrips (dpdk : Dpdk) (msg : Bytes) (sip dip : UInt32) (sport dport : UInt16)
    (srcmac dstmac : Mac) (payload : List UInt8) (w : Sockets) (p : Ptr) (sockfd : ℤ) : Prop :=
  ∃ stores, ngUdpPkt dpdk msg sip dip sport dport srcmac dstmac payload
      (UInt16.ofNat payload.length) = .ok stores
    ∧ (∀ st ∈ stores, st.1 + st.2.length ≤ payload.length + 42)
    ∧ ∃ uses w', w.udpProcess ((msg.storeAll stores).load 0 (payload.length + 42)) (fun _ => true)
        = .ok (0, uses, w')
      ∧ (∃ ol, w'.rcvbuf p = [ol] ∧ ol.sip = sip ∧ ol.dip = dip ∧ ol.sport = sport ∧ ol.dport = dport)
      ∧ ∀ len, payload.length ≤ len → ∃ addr w'', w'.nrecvfrom sockfd len (fun _ => true)
        = .ok (payload.length, addr, payload, w'')

section Trip

variable {dpdk : Dpdk} {msg : Bytes} {sip dip : UInt32} {sport dport : UInt16} {srcmac dstmac : Mac}
  {payload data : List UInt8} {w : Sockets} {p : Ptr} {host : Localhost} {sockfd : ℤ}

/-- The length that the encoder has for the payload. -/
theorem udplen_eq (h : payload.length + 42 ≤ 1514) :
    (UInt16.ofNat payload.length + 42 - 14 - 20).toNat = payload.length + 8 := by
  have hlt : payload.length < 65536 := by omega
  simp [UInt16.toNat_sub, UInt16.toNat_add, UInt16.toNat_ofNat', Nat.mod_eq_of_lt hlt]
  omega

/-- **The payload alone is not enough** to make a packet of. -/
theorem ngUdpPkt_overread (h : payload.length + 42 ≤ 1514) :
    ngUdpPkt dpdk msg sip dip sport dport srcmac dstmac payload (UInt16.ofNat payload.length)
      = .error .overread := by
  unfold ngUdpPkt ngEncodeUdpApppkt
  exact if_pos (by rw [udplen_eq h]; omega)

/-- **The packet that is made** where eight bytes are behind the payload, which are copied
behind it. -/
theorem ngUdpPkt_eq (dpdk : Dpdk) (msg : Bytes) (sip dip : UInt32) (sport dport : UInt16)
    (srcmac dstmac : Mac) (h : payload.length + 42 ≤ 1514) {behind : List UInt8}
    (hbehind : behind.length = 8) :
    ∃ stores, ngUdpPkt dpdk msg sip dip sport dport srcmac dstmac (payload ++ behind)
        (UInt16.ofNat payload.length) = .ok stores
      ∧ (42, payload ++ behind) ∈ stores
      ∧ (msg.storeAll stores).load 23 1 = [UDP]
      ∧ (msg.storeAll stores).load 26 4 = Bytes.bytes32 sip
      ∧ (msg.storeAll stores).load 30 4 = Bytes.bytes32 dip
      ∧ (msg.storeAll stores).load 34 2 = Bytes.bytes16 sport
      ∧ (msg.storeAll stores).load 36 2 = Bytes.bytes16 dport
      ∧ (msg.storeAll stores).load 38 2
        = (Bytes.bytes16 (UInt16.ofNat payload.length + 42 - 14 - 20)).reverse
      ∧ (msg.storeAll stores).load 42 (payload.length + 8) = payload ++ behind := by
  have hudplen := udplen_eq h
  have hdata : (payload ++ behind).length = payload.length + 8 := by
    rw [List.length_append, hbehind]
  unfold ngUdpPkt ngEncodeUdpApppkt
  simp only [hudplen, hdata, lt_irrefl, if_false, List.take_of_length_le hdata.le]
  refine ⟨_, rfl, by simp, ?_⟩
  rw [List.append_assoc]
  refine ⟨?_, ?_, ?_, ?_, ?_, ?_, ?_⟩
  · exact (load_ipHeaders (by simp)).2.1
  · exact (load_ipHeaders (by simp)).2.2.1
  · exact (load_ipHeaders (by simp)).2.2.2
  · rw [Bytes.storeAll_append]
    exact Bytes.load_storeAll [] rfl (by simp)
  · rw [Bytes.storeAll_append]
    exact Bytes.load_storeAll [_] rfl (by simp)
  · rw [Bytes.storeAll_append]
    exact Bytes.load_storeAll [_, _] rfl (by simp)
  · rw [Bytes.storeAll_append]
    exact Bytes.load_storeAll [_, _, _] hdata (by simp)

/-- **What `udp_process` queues** of a packet: its addresses, its ports and the bytes behind
the UDP header, and the length that the header says. -/
theorem udpProcess_eq {m : Bytes} {n : ℕ} {length : UInt16}
    (hbound : w.stack.getHostinfoFromipPort dip dport UDP = some (p, host))
    (hproto : m.load 23 1 = [UDP]) (hsip : m.load 26 4 = Bytes.bytes32 sip)
    (hdip : m.load 30 4 = Bytes.bytes32 dip) (hsport : m.load 34 2 = Bytes.bytes16 sport)
    (hdport : m.load 36 2 = Bytes.bytes16 dport)
    (hlength : m.load 38 2 = (Bytes.bytes16 length).reverse) (hn : length.toNat = n + 8) :
    w.udpProcess (m.load 0 (n + 42)) (fun _ => true) = .ok (0, [.access, .access, .free],
      { w with
        rcvbuf := Function.update w.rcvbuf p
          (ringEnqueue (w.rcvbuf p) ⟨sip, dip, sport, dport, m.load 42 n, length⟩) }) := by
  have hload : ∀ {off k}, off + k ≤ 42 → (Bytes.ofList (m.load 0 (n + 42))).load off k = m.load off k :=
    fun h => Bytes.load_ofList_load (h.trans (Nat.le_add_left 42 n))
  have hframe : (m.load 0 (n + 42)).drop 42 = m.load 42 n := by
    rw [Nat.add_comm, Bytes.load_drop, Nat.zero_add]
  have hsrcAddr : Frame.srcAddr (m.load 0 (n + 42)) = sip :=
    Bytes.word32_eq ((hload (by decide)).trans hsip)
  have hdstAddr : Frame.dstAddr (m.load 0 (n + 42)) = dip :=
    Bytes.word32_eq ((hload (by decide)).trans hdip)
  have hsrcPort : Frame.srcPort (m.load 0 (n + 42)) = sport :=
    Bytes.word16_eq ((hload (by decide)).trans hsport)
  have hdstPort : Frame.dstPort (m.load 0 (n + 42)) = dport :=
    Bytes.word16_eq ((hload (by decide)).trans hdport)
  have hdgramLen : Frame.dgramLen (m.load 0 (n + 42)) = length :=
    Bytes.net16_eq ((hload (by decide)).trans hlength)
  have hnextProtoId : Frame.nextProtoId (m.load 0 (n + 42)) = UDP :=
    List.singleton_injective ((hload (k := 1) (by decide)).trans hproto)
  have hdataLen : (Frame.dataLen (m.load 0 (n + 42))).toNat = n := by
    rw [Frame.toNat_dataLen_of_le (by rw [hdgramLen, hn]; exact Nat.le_add_left 8 n), hdgramLen, hn,
      Nat.add_sub_cancel]
  unfold Sockets.udpProcess
  rw [hsrcAddr, hdstAddr, hsrcPort, hdstPort, hdgramLen, hnextProtoId, hbound]
  simp only [hdataLen, hframe, Bytes.length_load, not_true_eq_false, if_false, Nat.add_comm 42 n,
    lt_irrefl]
  rw [List.take_of_length_le Bytes.length_load.le]

/-- **`nrecvfrom` reads past the end** of a copy that is shorter than its length, whatever the
buffer. -/
theorem nrecvfrom_overread (hfd : w.stack.getHostinfoFromfd sockfd = some (.udp p host)) {ol : Offload}
    (hring : w.rcvbuf p = [ol]) (hlength : ol.data.length < ol.length.toNat) (len : ℕ) :
    w.nrecvfrom sockfd len (fun _ => true) = .error .overread := by
  unfold Sockets.nrecvfrom
  rw [hfd]
  simp only [hring, not_true_eq_false, if_false, if_pos hlength]
  split
  · split <;> rfl
  · rfl

/-- **No datagram comes there and back.** There is always something read behind the payload;
where eight bytes are there, they are written behind the packet. The addresses,
the ports and the payload are queued as they were sent, and `nrecvfrom` reads
behind them. -/
theorem udp_round_trip (h : payload.length + 42 ≤ 1514)
    (hbound : w.stack.getHostinfoFromipPort dip dport UDP = some (p, host)) (hring : w.rcvbuf p = [])
    (hfd : w.stack.getHostinfoFromfd sockfd = some (.udp p host)) :
    ¬ UdpRoundTrips dpdk msg sip dip sport dport srcmac dstmac payload w p sockfd
    ∧ ∀ behind : List UInt8, behind.length = 8 →
      ∃ stores, ngUdpPkt dpdk msg sip dip sport dport srcmac dstmac (payload ++ behind)
          (UInt16.ofNat payload.length) = .ok stores
        ∧ (∃ st ∈ stores, st.1 + st.2.length = payload.length + 50)
        ∧ ∃ length w', length.toNat = payload.length + 8
          ∧ w.udpProcess ((msg.storeAll stores).load 0 (payload.length + 42)) (fun _ => true)
            = .ok (0, [.access, .access, .free], w')
          ∧ w'.rcvbuf p = [⟨sip, dip, sport, dport, payload, length⟩]
          ∧ ∀ len, w'.nrecvfrom sockfd len (fun _ => true) = .error .overread := by
  constructor
  · rintro ⟨stores, hstores, -⟩
    cases (ngUdpPkt_overread h).symm.trans hstores
  · intro behind hbehind
    obtain ⟨stores, hstores, hmem, hproto, hsip, hdip, hsport, hdport, hlength, hdata⟩ :=
      ngUdpPkt_eq dpdk msg sip dip sport dport srcmac dstmac h hbehind
    have hudplen := udplen_eq h
    have hpayload : (msg.storeAll stores).load 42 payload.length = payload := by
      rw [← Bytes.load_take (Nat.le_add_right payload.length 8), hdata]
      exact List.take_left' rfl
    have hprocess := udpProcess_eq hbound hproto hsip hdip hsport hdport hlength hudplen
    rw [hpayload, hring] at hprocess
    have hrcvbuf : Function.update w.rcvbuf p (ringEnqueue [] ⟨sip, dip, sport, dport, payload,
        UInt16.ofNat payload.length + 42 - 14 - 20⟩) p
        = [⟨sip, dip, sport, dport, payload, UInt16.ofNat payload.length + 42 - 14 - 20⟩] :=
      Function.update_self ..
    refine ⟨stores, hstores, ⟨_, hmem, ?_⟩, _, _, hudplen, hprocess, hrcvbuf, ?_⟩
    · rw [List.length_append, hbehind]
      omega
    · refine nrecvfrom_overread hfd hrcvbuf ?_
      show payload.length < _
      rw [hudplen]
      omega

/-! One byte, to a socket that is bound to port 4 of address 2. -/

/-- A socket at address 1, with the descriptor 3. -/
def boundSockets : Sockets where
  stack := { Stack.init with lhost := [(1, ⟨3, 2, 4⟩)] }
  sndbuf := fun _ => []
  rcvbuf := fun _ => []

/-- Eight zeros are behind the byte. -/
theorem udp_round_trip_one :
    ¬ UdpRoundTrips noCksum (fun _ => 0) 1 2 3 4 (Vector.replicate 6 0) (Vector.replicate 6 0) [104]
      boundSockets 1 3 :=
  (udp_round_trip (by decide) rfl rfl rfl).1

/-- To send one byte, nine are read. -/
theorem not_udp_round_trip :
    ¬ ∀ (dpdk : Dpdk) (msg : Bytes) (sip dip : UInt32) (sport dport : UInt16) (srcmac dstmac : Mac)
      (payload : List UInt8) (w : Sockets) (p : Ptr) (host : Localhost) (sockfd : ℤ),
      payload.length + 42 ≤ 1514 → w.stack.getHostinfoFromipPort dip dport UDP = some (p, host) →
      w.rcvbuf p = [] → w.stack.getHostinfoFromfd sockfd = some (.udp p host) →
      UdpRoundTrips dpdk msg sip dip sport dport srcmac dstmac payload w p sockfd := by
  intro h
  obtain ⟨stores, hstores, -⟩ := h noCksum (fun _ => 0) 1 2 3 4 (Vector.replicate 6 0)
    (Vector.replicate 6 0) [104] boundSockets 1 _ 3 (by decide) rfl rfl rfl
  have hstop : ngUdpPkt noCksum (fun _ => 0) 1 2 3 4 (Vector.replicate 6 0) (Vector.replicate 6 0) [104]
      1 = .error .overread := rfl
  cases hstop.symm.trans hstores

end Trip

end Ustack
