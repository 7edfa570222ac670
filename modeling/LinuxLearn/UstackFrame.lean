import LinuxLearn.Bytes
import LinuxLearn.UstackTcp

/-!
# Frames

What comes in and goes out is an Ethernet frame: an Ethernet header of 14
bytes, an IP header of 20 and that of UDP or TCP, each field at its offset.
Addresses and ports are kept as they are in the frame, and read and written
as the machine reads and writes a word; lengths and sequence numbers are
turned around.

The checksums are DPDK's. Nothing depends on what they are, but whether a
segment is taken at all.
-/

namespace Ustack

/-- **A frame that was received**, byte by byte. -/
abbrev Frame := List UInt8

/-- `RTE_ETHER_TYPE_IPV4`. -/
def RTE_ETHER_TYPE_IPV4 : UInt16 := 0x0800

/-- `IPPROTO_TCP`, as a byte. -/
def TCP : UInt8 := 6

/-- `IPPROTO_UDP`, as a byte. -/
def UDP : UInt8 := 17

/-- **The checksums of DPDK**, of a frame in memory. -/
structure Dpdk where
  rteIpv4Cksum : Bytes → UInt16
  rteIpv4UdptcpCksum : Bytes → UInt16

/-- No checksum is computed. -/
def noCksum : Dpdk := ⟨fun _ => 0, fun _ => 0⟩

namespace Frame

/-- The frame in memory. -/
def bytes (frame : Frame) : Bytes := Bytes.ofList frame

/-- `ehdr->ether_type`. -/
def etherType (frame : Frame) : UInt16 := frame.bytes.net16 12

/-- `ehdr->s_addr`. -/
def sAddr (frame : Frame) : Mac := ⟨(frame.bytes.load 6 6).toArray, by simp⟩

/-- `iphdr->next_proto_id`. -/
def nextProtoId (frame : Frame) : UInt8 := frame.bytes 23

/-- `iphdr->src_addr`. -/
def srcAddr (frame : Frame) : UInt32 := frame.bytes.word32 26

/-- `iphdr->dst_addr`. -/
def dstAddr (frame : Frame) : UInt32 := frame.bytes.word32 30

/-- `udphdr->src_port`, or that of TCP. -/
def srcPort (frame : Frame) : UInt16 := frame.bytes.word16 34

/-- `udphdr->dst_port`, or that of TCP. -/
def dstPort (frame : Frame) : UInt16 := frame.bytes.word16 36

/-- `ntohs(udphdr->dgram_len)`. -/
def dgramLen (frame : Frame) : UInt16 := frame.bytes.net16 38

/-- `ol->length - sizeof(struct rte_udp_hdr)`, which is a `size_t`. -/
def dataLen (frame : Frame) : UInt64 := frame.dgramLen.toUInt64 - 8

theorem toNat_dataLen (frame : Frame) :
    frame.dataLen.toNat = (2 ^ 64 - 8 + frame.dgramLen.toNat) % 2 ^ 64 := by
  unfold dataLen
  rw [UInt64.toNat_sub, UInt16.toNat_toUInt64]
  rfl

/-- A length that has that of the header in it. -/
theorem toNat_dataLen_of_le {frame : Frame} (h : 8 ≤ frame.dgramLen.toNat) :
    frame.dataLen.toNat = frame.dgramLen.toNat - 8 := by
  have hlt := frame.dgramLen.toNat_lt
  rw [toNat_dataLen]
  omega

end Frame

/-- **A TCP segment in memory**, as `ng_tcp_process` reads it: `len` bytes from the
Ethernet header on. -/
def TcpSegment.ofBytes (m : Bytes) (len : ℕ) (cksumOk : Bool) : TcpSegment where
  srcAddr := m.word32 26
  dstAddr := m.word32 30
  totalLength := m.net16 16
  srcPort := m.word16 34
  dstPort := m.word16 36
  sentSeq := m.net32 38
  recvAck := m.net32 42
  dataOff := m 46
  tcpFlags := m 47
  mem := m.load 34 (len - 34)
  cksumOk := cksumOk

/-- **The segment of a frame**: its checksum is taken out, computed and compared. -/
def Frame.segment (dpdk : Dpdk) (frame : Frame) : TcpSegment :=
  let tcpcksum := frame.bytes.word16 50
  let m := frame.bytes.store 50 [0, 0]
  let cksum := dpdk.rteIpv4UdptcpCksum m
  .ofBytes m frame.length (cksum = tcpcksum)

/-- **The Ethernet header and the IP header** as both encoders write them; `len` is
that of the packet behind the Ethernet header. -/
def ipHeaders (dpdk : Dpdk) (msg : Bytes) (srcmac dstmac : Mac) (len : UInt16) (proto : UInt8)
    (sip dip : UInt32) : List (ℕ × List UInt8) :=
  let stores :=
    [(6, srcmac.toList), (0, dstmac.toList), (12, (Bytes.bytes16 RTE_ETHER_TYPE_IPV4).reverse),
      (14, [0x45]), (15, [0]), (16, (Bytes.bytes16 len).reverse), (18, [0, 0]), (20, [0, 0]),
      (22, [64]), (23, [proto]), (26, Bytes.bytes32 sip), (30, Bytes.bytes32 dip), (24, [0, 0])]
  stores ++ [(24, Bytes.bytes16 (dpdk.rteIpv4Cksum (msg.storeAll stores)))]

/-- The headers are the first 34 bytes. -/
theorem ipHeaders_le {dpdk : Dpdk} {msg : Bytes} {srcmac dstmac : Mac} {len : UInt16} {proto : UInt8}
    {sip dip : UInt32} :
    ∀ s ∈ ipHeaders dpdk msg srcmac dstmac len proto sip dip, s.1 + s.2.length ≤ 34 := by
  unfold ipHeaders
  simp

/-- **What is in the IP header**, and stays there. -/
theorem load_ipHeaders {dpdk : Dpdk} {msg : Bytes} {srcmac dstmac : Mac} {len : UInt16} {proto : UInt8}
    {sip dip : UInt32} {stores : List (ℕ × List UInt8)} (hstores : ∀ s ∈ stores, 34 ≤ s.1) :
    let m := msg.storeAll (ipHeaders dpdk msg srcmac dstmac len proto sip dip ++ stores)
    m.load 16 2 = (Bytes.bytes16 len).reverse ∧ m.load 23 1 = [proto]
      ∧ m.load 26 4 = Bytes.bytes32 sip ∧ m.load 30 4 = Bytes.bytes32 dip := by
  intro m
  have hkeep : ∀ {off n}, off + n ≤ 34 →
      m.load off n = (msg.storeAll (ipHeaders dpdk msg srcmac dstmac len proto sip dip)).load off n := by
    intro off n h
    show (msg.storeAll (_ ++ stores)).load off n = _
    rw [Bytes.storeAll_append]
    exact Bytes.load_storeAll_of_disjoint (fun s hs => Or.inl (h.trans (hstores s hs)))
  rw [hkeep (by decide), hkeep (by decide), hkeep (by decide), hkeep (by decide)]
  unfold ipHeaders
  refine ⟨?_, ?_, ?_, ?_⟩
  · exact Bytes.load_storeAll [_, _, _, _, _] rfl (by simp)
  · exact Bytes.load_storeAll [_, _, _, _, _, _, _, _, _] rfl (by simp)
  · exact Bytes.load_storeAll [_, _, _, _, _, _, _, _, _, _] rfl (by simp)
  · exact Bytes.load_storeAll [_, _, _, _, _, _, _, _, _, _, _] rfl (by simp)

end Ustack
