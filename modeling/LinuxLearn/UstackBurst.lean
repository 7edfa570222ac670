import LinuxLearn.UstackArp
import LinuxLearn.UstackUdp

/-!
# Bursts of packets

`pkt_process` takes up to 32 packets at a time from its ring and looks at
one after another. UDP and TCP packets are processed, and each is freed by
whoever has processed it. All others are for the kernel: but what is handed
over to it then is not the packet, but the whole burst.

So a burst in which one packet is for the kernel is right only if it is the
only one (`consumedOnce_iff`). Otherwise packets are handed over that were
freed before, or are looked at, and freed, after they were handed over.
-/

namespace Ustack

/-- **What comes with a packet** from outside. -/
structure PacketEnv where
  /-- There is memory for an ARP entry. -/
  arp : Bool
  /-- Which allocations for a datagram succeed. -/
  udp : ℕ → Bool
  /-- What comes with a segment. -/
  tcp : SegmentEnv

/-- **The program, as `pkt_process` sees it.** -/
structure World where
  sockets : Sockets
  arpt : ArpTable

/-- The program before any call. -/
def World.init : World := ⟨⟨Stack.init, fun _ => [], fun _ => []⟩, ArpTable.init⟩

/-- **What is done to the buffers of a burst**: one is read or written, freed, or handed
over to the kernel. -/
inductive BurstUse where
  | access (i : ℕ)
  | free (i : ℕ)
  | handOver (i : ℕ)
deriving DecidableEq

/-- What is done to a packet, where that is the `i`th of a burst. -/
def MbufUse.at (i : ℕ) : MbufUse → BurstUse
  | .access => .access i
  | .free => .free i

/-- **`rte_kni_tx_burst`**, which takes all it is given. -/
def rteKniTxBurst (num : ℕ) : List BurstUse := (List.range num).map .handOver

/-- **`ng_tcp_process`**, and what it does to the packet: it is freed on every way out. -/
def Sockets.tcpProcess (dpdk : Dpdk) (w : Sockets) (tcpmbuf : Frame) (env : SegmentEnv) :
    Except Stop (ℤ × List MbufUse × Sockets) := do
  let (ret, stack) ← w.stack.ngTcpProcess (tcpmbuf.segment dpdk) env
  let uses : List MbufUse :=
    if ret = -1 then [.access, .free]
    else if ret = -2 then [.access, .access, .free]
    else [.access, .access, .access, .free]
  return (ret, uses, { w with stack := stack })

namespace World

/-- **One packet of a burst** in `pkt_process`, the `i`th of `numRecvd`. -/
def packet (dpdk : Dpdk) (numRecvd i : ℕ) (w : World) (mbuf : Frame) (env : PacketEnv) :
    Except Stop (List BurstUse × World) :=
  if mbuf.etherType = RTE_ETHER_TYPE_IPV4 then do
    let (_, arpt) ← w.arpt.ngArpEntryInsert mbuf.srcAddr mbuf.sAddr env.arp
    if mbuf.nextProtoId = UDP then do
      let (_, uses, sockets) ← w.sockets.udpProcess mbuf env.udp
      return (.access i :: .access i :: uses.map (MbufUse.at i), ⟨sockets, arpt⟩)
    else if mbuf.nextProtoId = TCP then do
      let (_, uses, sockets) ← w.sockets.tcpProcess dpdk mbuf env.tcp
      return (.access i :: .access i :: uses.map (MbufUse.at i), ⟨sockets, arpt⟩)
    else return (.access i :: .access i :: rteKniTxBurst numRecvd, { w with arpt := arpt })
  else return (.access i :: rteKniTxBurst numRecvd, w)

/-- The loop of `pkt_process`, from the `i`th packet on. What is in a packet that was given
away is taken to be what was there before. -/
def packets (dpdk : Dpdk) (numRecvd : ℕ) :
    ℕ → World → List (Frame × PacketEnv) → Except Stop (List BurstUse × World)
  | _, w, [] => .ok ([], w)
  | i, w, (mbuf, env) :: mbufs => do
    let (uses, w) ← w.packet dpdk numRecvd i mbuf env
    let (rest, w) ← packets dpdk numRecvd (i + 1) w mbufs
    return (uses ++ rest, w)

/-- **`pkt_process`**, one time through: what it does to the packets of a burst. What
follows – `rte_kni_handle_request`, `udp_out` and `ng_tcp_out` – has no use for
them. -/
def pktProcess (dpdk : Dpdk) (w : World) (mbufs : List (Frame × PacketEnv)) :
    Except Stop (List BurstUse × World) :=
  packets dpdk mbufs.length 0 w mbufs

end World

/-- A packet that is neither UDP nor TCP, and is handed over. -/
def Frame.Forwarded (mbuf : Frame) : Prop :=
  mbuf.etherType ≠ RTE_ETHER_TYPE_IPV4 ∨ (mbuf.nextProtoId ≠ UDP ∧ mbuf.nextProtoId ≠ TCP)

instance (mbuf : Frame) : Decidable mbuf.Forwarded :=
  inferInstanceAs (Decidable (_ ∨ _))

/-- How often a buffer is given away, in either way. -/
def consumed (i : ℕ) (uses : List BurstUse) : ℕ := uses.count (.free i) + uses.count (.handOver i)

/-- **Nothing is looked at after it was given away.** -/
def Untouched (uses : List BurstUse) : Prop :=
  uses.Pairwise (fun u v => ∀ i, u = .free i ∨ u = .handOver i → v ≠ .access i)

/-- **Each of `n` buffers is consumed exactly once**, and not looked at after it was. -/
structure ConsumedOnce (n : ℕ) (uses : List BurstUse) : Prop where
  once : ∀ i < n, consumed i uses = 1
  untouched : Untouched uses

/-! ## One packet -/

section Burst

variable {dpdk : Dpdk} {n i j : ℕ} {w w' : World} {mbuf : Frame} {env : PacketEnv}
  {uses uses' : List BurstUse} {mbufs : List (Frame × PacketEnv)}

theorem consumed_append (i : ℕ) (uses uses' : List BurstUse) :
    consumed i (uses ++ uses') = consumed i uses + consumed i uses' := by
  unfold consumed
  rw [List.count_append, List.count_append]
  omega

/-- Nothing is consumed by looking at it. -/
theorem consumed_access (i j k : ℕ) : consumed i (List.replicate k (.access j)) = 0 := by
  have hnot : ∀ u : BurstUse, u ≠ .access j → (List.replicate k (BurstUse.access j)).count u = 0 :=
    fun u hu => List.count_eq_zero.mpr (fun hmem => hu (List.eq_of_mem_replicate hmem))
  unfold consumed
  rw [hnot (.free i) (fun he => by cases he), hnot (.handOver i) (fun he => by cases he)]

theorem consumed_pos (h : .free i ∈ uses ∨ .handOver i ∈ uses) : 0 < consumed i uses := by
  unfold consumed
  rcases h with h | h
  · exact Nat.add_pos_left (List.count_pos_iff.mpr h) _
  · exact Nat.add_pos_right _ (List.count_pos_iff.mpr h)

/-- Looking at a buffer, and then giving it away. -/
theorem untouched_access_append (k : ℕ) {us : List BurstUse} (hus : Untouched us) :
    Untouched (List.replicate k (.access i) ++ us) := by
  refine List.pairwise_append.mpr ⟨?_, hus, ?_⟩
  · refine List.pairwise_replicate.mpr (Or.inr (fun j hj => ?_))
    rcases hj with hj | hj <;> cases hj
  · intro u hu v hv j hj
    rw [List.eq_of_mem_replicate hu] at hj
    rcases hj with hj | hj <;> cases hj

/-- **What is done to a packet that is processed**: it is looked at, and freed. -/
theorem udpProcess_uses {s s' : Sockets} {malloc : ℕ → Bool} {ret : ℤ} {us : List MbufUse}
    (hok : s.udpProcess mbuf malloc = .ok (ret, us, s')) :
    ∃ k, us = List.replicate k .access ++ [.free] := by
  unfold Sockets.udpProcess at hok
  split at hok
  · cases hok
    exact ⟨1, rfl⟩
  · split at hok
    · cases hok
      exact ⟨1, rfl⟩
    · simp only at hok
      split at hok
      · cases hok
        exact ⟨1, rfl⟩
      · split at hok
        · cases hok
        · cases hok
          exact ⟨2, rfl⟩

theorem tcpProcess_uses {s s' : Sockets} {senv : SegmentEnv} {ret : ℤ} {us : List MbufUse}
    (hok : s.tcpProcess dpdk mbuf senv = .ok (ret, us, s')) :
    ∃ k, us = List.replicate k .access ++ [.free] := by
  obtain ⟨⟨ret, stack⟩, -, hret⟩ := exists_of_bind_eq_ok hok
  cases hret
  split
  · exact ⟨1, rfl⟩
  · split
    · exact ⟨2, rfl⟩
    · exact ⟨3, rfl⟩

/-- The same, in its burst. -/
theorem map_at_eq (i k : ℕ) :
    BurstUse.access i :: .access i
        :: (List.replicate k MbufUse.access ++ [MbufUse.free]).map (MbufUse.at i)
      = List.replicate (k + 2) (BurstUse.access i) ++ [.free i] := by
  rw [List.map_append, List.map_replicate]
  rfl

/-- **What is done to a burst because of one packet**: it is looked at, and then freed – or
all of them are handed over. -/
theorem packet_uses (hok : w.packet dpdk n i mbuf env = .ok (uses, w')) :
    (¬ mbuf.Forwarded ∧ ∃ k, uses = List.replicate (k + 1) (.access i) ++ [.free i])
      ∨ (mbuf.Forwarded ∧ ∃ k, uses = List.replicate (k + 1) (.access i) ++ rteKniTxBurst n) := by
  unfold World.packet at hok
  split at hok
  · next hip =>
    obtain ⟨⟨ret, arpt⟩, -, hok⟩ := exists_of_bind_eq_ok hok
    simp only at hok
    split at hok
    · next hudp =>
      obtain ⟨⟨ret, us, sockets⟩, hprocess, hret⟩ := exists_of_bind_eq_ok hok
      obtain ⟨k, rfl⟩ := udpProcess_uses hprocess
      cases hret
      exact Or.inl ⟨fun h => h.elim (absurd hip) (fun h => h.1 hudp), k + 1, map_at_eq i k⟩
    · next hudp =>
      split at hok
      · next htcp =>
        obtain ⟨⟨ret, us, sockets⟩, hprocess, hret⟩ := exists_of_bind_eq_ok hok
        obtain ⟨k, rfl⟩ := tcpProcess_uses hprocess
        cases hret
        exact Or.inl ⟨fun h => h.elim (absurd hip) (fun h => h.2 htcp), k + 1, map_at_eq i k⟩
      · next htcp =>
        cases hok
        exact Or.inr ⟨Or.inr ⟨hudp, htcp⟩, 1, rfl⟩
  · next hip =>
    cases hok
    exact Or.inr ⟨Or.inl hip, 0, rfl⟩

/-! ## The whole burst -/

/-- The first packet of what is left, and the others. -/
theorem packets_cons (hok : w.packets dpdk n i ((mbuf, env) :: mbufs) = .ok (uses, w')) :
    ∃ us w₁ rest, w.packet dpdk n i mbuf env = .ok (us, w₁)
      ∧ w₁.packets dpdk n (i + 1) mbufs = .ok (rest, w') ∧ uses = us ++ rest := by
  unfold World.packets at hok
  obtain ⟨⟨us, w₁⟩, hpacket, hok⟩ := exists_of_bind_eq_ok hok
  obtain ⟨⟨rest, w₂⟩, hpackets, hret⟩ := exists_of_bind_eq_ok hok
  cases hret
  exact ⟨us, w₁, rest, hpacket, hpackets, rfl⟩

/-- **Where none is handed over**, each packet is freed once, and only those that are still
to come are looked at. -/
theorem packets_processed (hnone : ∀ b ∈ mbufs, ¬ b.1.Forwarded)
    (hok : w.packets dpdk n i mbufs = .ok (uses, w')) :
    (∀ j, i ≤ j → j < i + mbufs.length → consumed j uses = 1) ∧ (∀ j < i, consumed j uses = 0)
      ∧ (∀ j < i, .access j ∉ uses) ∧ Untouched uses := by
  induction mbufs generalizing i w uses with
  | nil =>
    cases hok
    exact ⟨fun j hle hlt => absurd hlt (not_lt.mpr hle), fun j _ => rfl,
      fun j _ => List.not_mem_nil, List.Pairwise.nil⟩
  | cons b mbufs ih =>
    obtain ⟨mbuf, env⟩ := b
    obtain ⟨hb, hrest⟩ := List.forall_mem_cons.mp hnone
    obtain ⟨us, w₁, rest, hpacket, hpackets, rfl⟩ := packets_cons hok
    obtain ⟨honce, hzero, haccess, huntouched⟩ := ih hrest hpackets
    obtain ⟨-, k, rfl⟩ | ⟨hforwarded, -⟩ := packet_uses hpacket
    · have hfreed : ∀ j, consumed j (List.replicate (k + 1) (.access i) ++ [.free i] ++ rest)
          = consumed j [.free i] + consumed j rest := by
        intro j
        rw [consumed_append, consumed_append, consumed_access, Nat.zero_add]
      refine ⟨fun j hle hlt => ?_, fun j hlt => ?_, fun j hlt hmem => ?_, ?_⟩
      · rw [hfreed]
        rcases hle.eq_or_lt with rfl | hlt'
        · rw [hzero i i.lt_succ_self]
          simp [consumed]
        · rw [honce j hlt' (by rw [List.length_cons] at hlt; omega)]
          simp [consumed, hlt'.ne]
      · rw [hfreed, hzero j (hlt.trans i.lt_succ_self)]
        simp [consumed, hlt.ne']
      · rcases List.mem_append.mp hmem with hmem | hmem
        · simp [hlt.ne] at hmem
        · exact haccess j (hlt.trans i.lt_succ_self) hmem
      · rw [List.append_assoc]
        refine untouched_access_append (k + 1) (List.Pairwise.cons ?_ huntouched)
        rintro v hv j (hj | hj) rfl
        · cases hj
          exact haccess i i.lt_succ_self hv
        · cases hj
    · exact absurd hforwarded hb

/-- **Where one is handed over**, all are. -/
theorem handOver_mem (hok : w.packets dpdk n i mbufs = .ok (uses, w')) {b : Frame × PacketEnv}
    (hb : b ∈ mbufs) (hforwarded : b.1.Forwarded) (hj : j < n) : .handOver j ∈ uses := by
  induction mbufs generalizing i w uses with
  | nil => exact absurd hb List.not_mem_nil
  | cons c mbufs ih =>
    obtain ⟨mbuf, env⟩ := c
    obtain ⟨us, w₁, rest, hpacket, hpackets, rfl⟩ := packets_cons hok
    rcases List.mem_cons.mp hb with rfl | hb
    · obtain ⟨hnot, -⟩ | ⟨-, k, rfl⟩ := packet_uses hpacket
      · exact absurd hforwarded hnot
      · refine List.mem_append_left _ (List.mem_append_right _ ?_)
        exact List.mem_map.mpr ⟨j, List.mem_range.mpr hj, rfl⟩
    · exact List.mem_append_right _ (ih hpackets hb)

/-- **Two packets or more, and one for the kernel**: something goes wrong with one of the
first two. -/
theorem not_consumedOnce {b₀ b₁ b : Frame × PacketEnv}
    (hok : w.packets dpdk (mbufs.length + 2) 0 (b₀ :: b₁ :: mbufs) = .ok (uses, w'))
    (hb : b ∈ b₀ :: b₁ :: mbufs) (hforwarded : b.1.Forwarded) :
    ¬ ConsumedOnce (mbufs.length + 2) uses := by
  rintro ⟨honce, huntouched⟩
  obtain ⟨us₀, w₁, rest, hpacket₀, hpackets, rfl⟩ := packets_cons hok
  obtain ⟨us₁, w₂, rest, hpacket₁, -, rfl⟩ := packets_cons hpackets
  obtain ⟨hprocessed, k, rfl⟩ | ⟨-, k, rfl⟩ := packet_uses hpacket₀
  · -- the first packet is freed, and handed over later
    have hb' : b ∈ b₁ :: mbufs := by
      rcases List.mem_cons.mp hb with rfl | hb
      · exact absurd hforwarded hprocessed
      · exact hb
    have hhanded := consumed_pos (Or.inr (handOver_mem hpackets hb' hforwarded (Nat.succ_pos _)))
    have hfreed : 0 < consumed 0 (List.replicate (k + 1) (.access 0) ++ [.free 0]) :=
      consumed_pos (Or.inl (List.mem_append_right _ (List.mem_singleton_self _)))
    have hone := honce 0 (Nat.succ_pos _)
    rw [consumed_append] at hone
    omega
  · -- the second is handed over, and looked at later
    have hhanded : .handOver 1 ∈ List.replicate (k + 1) (BurstUse.access 0)
        ++ rteKniTxBurst (mbufs.length + 2) :=
      List.mem_append_right _ (List.mem_map.mpr ⟨1, List.mem_range.mpr (by omega), rfl⟩)
    have hlooked : .access 1 ∈ us₁ := by
      obtain ⟨-, k, rfl⟩ | ⟨-, k, rfl⟩ := packet_uses hpacket₁
      · exact List.mem_append_left _ List.mem_cons_self
      · exact List.mem_append_left _ List.mem_cons_self
    exact (List.pairwise_append.mp huntouched).2.2 _ hhanded _ (List.mem_append_left _ hlooked) 1
      (Or.inr rfl) rfl

/-- One packet alone is given away once, whatever it is. -/
theorem consumedOnce_one (hok : w.packets dpdk 1 0 [(mbuf, env)] = .ok (uses, w')) :
    ConsumedOnce 1 uses := by
  obtain ⟨us, w₁, rest, hpacket, hpackets, rfl⟩ := packets_cons hok
  cases hpackets
  obtain ⟨k, u, hu, rfl⟩ : ∃ k u, consumed 0 [u] = 1
      ∧ us = List.replicate (k + 1) (.access 0) ++ [u] := by
    obtain ⟨-, k, hus⟩ | ⟨-, k, hus⟩ := packet_uses hpacket
    · exact ⟨k, .free 0, rfl, hus⟩
    · exact ⟨k, .handOver 0, rfl, hus⟩
  rw [List.append_nil]
  refine ⟨fun i hi => ?_, untouched_access_append (k + 1) (List.pairwise_singleton _ _)⟩
  obtain rfl := Nat.lt_one_iff.mp hi
  rw [consumed_append, consumed_access, hu]

/-- **Each packet of a burst is consumed exactly once**, if and only if none is for the kernel,
or there is only one. -/
theorem consumedOnce_iff (hok : w.pktProcess dpdk mbufs = .ok (uses, w')) :
    ConsumedOnce mbufs.length uses ↔ (∀ b ∈ mbufs, ¬ b.1.Forwarded) ∨ mbufs.length ≤ 1 := by
  constructor
  · intro honce
    by_contra hnot
    obtain ⟨hsome, hlength⟩ := not_or.mp hnot
    simp only [not_forall, not_not] at hsome
    obtain ⟨b, hb, hforwarded⟩ := hsome
    cases mbufs with
    | nil => exact hlength (Nat.zero_le 1)
    | cons b₀ mbufs =>
      cases mbufs with
      | nil => exact hlength le_rfl
      | cons b₁ mbufs => exact not_consumedOnce hok hb hforwarded honce
  · intro h
    by_cases hnone : ∀ b ∈ mbufs, ¬ b.1.Forwarded
    · obtain ⟨honce, -, -, huntouched⟩ := packets_processed hnone hok
      refine ⟨fun i hi => honce i (Nat.zero_le i) ?_, huntouched⟩
      rwa [Nat.zero_add]
    · have hlength := h.resolve_left hnone
      cases mbufs with
      | nil => exact absurd (fun b hb => absurd hb List.not_mem_nil) hnone
      | cons b mbufs =>
        obtain rfl : mbufs = [] :=
          List.length_eq_zero_iff.mp (Nat.le_zero.mp (Nat.le_of_succ_le_succ hlength))
        exact consumedOnce_one hok

/-! Packets to a stack where nothing was done yet. -/

/-- An empty IPv4 packet. -/
def ipPacket (proto : UInt8) : Frame :=
  List.replicate 12 0 ++ [8, 0] ++ List.replicate 9 0 ++ [proto] ++ List.replicate 36 0

/-- There is memory for everything. -/
def packetEnv : PacketEnv := ⟨true, fun _ => true, ⟨fun _ => true, 0, 0⟩⟩

set_option maxRecDepth 8000 in
/-- UDP and TCP are freed. -/
theorem consumedOnce_iff_processed :
    ∃ uses w', World.init.pktProcess noCksum [(ipPacket UDP, packetEnv), (ipPacket TCP, packetEnv)]
        = .ok (uses, w')
      ∧ ConsumedOnce 2 uses := by
  obtain ⟨uses, w', hok⟩ : ∃ uses w', World.init.pktProcess noCksum
      [(ipPacket UDP, packetEnv), (ipPacket TCP, packetEnv)] = .ok (uses, w') := ⟨_, _, rfl⟩
  exact ⟨uses, w', hok, (consumedOnce_iff hok).mpr (Or.inl (by decide))⟩

set_option maxRecDepth 8000 in
/-- Two packets that are not IPv4 are handed over twice. -/
theorem not_consumedOnce_twice :
    ¬ ∀ (dpdk : Dpdk) (w w' : World) (mbufs : List (Frame × PacketEnv)) (uses : List BurstUse),
      mbufs.length ≤ 32 → w.pktProcess dpdk mbufs = .ok (uses, w') →
      ConsumedOnce mbufs.length uses := by
  intro h
  have hok : World.init.pktProcess noCksum
      [(List.replicate 60 0, packetEnv), (List.replicate 60 0, packetEnv)]
      = .ok ([.access 0, .handOver 0, .handOver 1, .access 1, .handOver 0, .handOver 1], World.init) :=
    rfl
  exact absurd ((h _ _ _ _ _ (by decide) hok).once 0 (by decide)) (by decide)

end Burst

end Ustack
