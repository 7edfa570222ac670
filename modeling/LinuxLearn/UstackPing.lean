import LinuxLearn.UstackFrame

/-!
# Answering a ping

The stack of `tcp-orig` answers an echo request by an echo reply, and the ICMP header of that
has a checksum: the words of the header are added up, what is above 16 bits is added to what is
below until nothing is above, and the bits are flipped. To such a sum multiples of `65535` make
no difference (`foldSum_eq`).

So a header with its checksum in it is accepted by whoever adds it up again, and it is not once a
word of it is another, except that the sum does not tell zero from `0xffff` (`echo_reply`).
-/

namespace Ustack

/-- `IPPROTO_ICMP`, as a byte. -/
def ICMP : UInt8 := 1

/-- `RTE_IP_ICMP_ECHO_REPLY`. -/
def RTE_IP_ICMP_ECHO_REPLY : UInt8 := 0

/-- `RTE_IP_ICMP_ECHO_REQUEST`. -/
def RTE_IP_ICMP_ECHO_REQUEST : UInt8 := 8

/-! ## The checksum -/

/-- The loop of `ng_checksum` over the words, and the byte that may be left. Fewer than `2 ^ 31`
bytes do not make `sum` overflow. -/
def sumWords (m : Bytes) : ℕ → ℕ → ℕ → ℕ
  | addr, count + 2, sum => sumWords m (addr + 2) count (sum + (m.word16 addr).toNat)
  | addr, 1, sum => sum + (m addr).toNat
  | _, 0, sum => sum

/-- The loop of `ng_checksum` that adds what is above 16 bits to what is below. -/
def foldSum (sum : ℕ) : ℕ :=
  if sum >>> 16 = 0 then sum else foldSum ((sum &&& 0xffff) + (sum >>> 16))
termination_by sum
decreasing_by
  rename_i h
  rw [Nat.shiftRight_eq_div_pow] at h ⊢
  rw [show 0xffff = 2 ^ 16 - 1 from rfl, Nat.and_two_pow_sub_one_eq_mod]
  omega

/-- **`ng_checksum`**, of `count` bytes at `addr`. -/
def ngChecksum (m : Bytes) (addr count : ℕ) : UInt16 := ~~~ UInt16.ofNat (foldSum (sumWords m addr count 0))

/-- **What is left of a sum**: nothing of nothing, and else the rest by `65535`, taken from one
on. -/
theorem foldSum_eq (sum : ℕ) : foldSum sum = if sum = 0 then 0 else (sum - 1) % 65535 + 1 := by
  fun_induction foldSum sum with
  | case1 sum h =>
    rw [Nat.shiftRight_eq_div_pow] at h
    split <;> omega
  | case2 sum h ih =>
    rw [ih]
    rw [Nat.shiftRight_eq_div_pow] at h ⊢
    rw [show 0xffff = 2 ^ 16 - 1 from rfl, Nat.and_two_pow_sub_one_eq_mod]
    split <;> split <;> omega

section Checksum

variable {m m' : Bytes} {addr count j : ℕ} {w : UInt16}

theorem toNat_ngChecksum :
    (ngChecksum m addr count).toNat = 65535 - foldSum (sumWords m addr count 0) := by
  have hlt : foldSum (sumWords m addr count 0) < 2 ^ 16 := by
    rw [foldSum_eq]
    split <;> omega
  unfold ngChecksum
  rw [UInt16.toNat_not, UInt16.toNat_ofNat', Nat.mod_eq_of_lt hlt]
  rfl

/-- **A checksum is zero** if the sum is a multiple of `65535`, and not nothing. -/
theorem ngChecksum_eq_zero_iff :
    ngChecksum m addr count = 0 ↔ sumWords m addr count 0 ≠ 0 ∧ 65535 ∣ sumWords m addr count 0 := by
  rw [← UInt16.toNat_inj, toNat_ngChecksum, foldSum_eq, UInt16.toNat_zero]
  split <;> omega

/-- What was added up before is added to the rest. -/
theorem sumWords_eq (m : Bytes) (addr count sum : ℕ) :
    sumWords m addr count sum = sum + sumWords m addr count 0 := by
  induction count using Nat.twoStepInduction generalizing addr sum with
  | zero => rfl
  | one =>
    unfold sumWords
    rw [Nat.zero_add]
  | more count ih _ =>
    unfold sumWords
    rw [ih, ih (addr + 2) (0 + (m.word16 addr).toNat), Nat.zero_add, Nat.add_assoc]

theorem sumWords_add_two (m : Bytes) (addr count : ℕ) :
    sumWords m addr (count + 2) 0 = (m.word16 addr).toNat + sumWords m (addr + 2) count 0 := by
  rw [sumWords, sumWords_eq, Nat.zero_add]

/-- Only what is added up matters. -/
theorem sumWords_congr (h : ∀ i < count, m (addr + i) = m' (addr + i)) :
    sumWords m addr count 0 = sumWords m' addr count 0 := by
  induction count using Nat.twoStepInduction generalizing addr with
  | zero => rfl
  | one =>
    unfold sumWords
    rw [show m addr = m' addr from h 0 one_pos]
  | more count ih _ =>
    have hword : m.word16 addr = m'.word16 addr := by
      unfold Bytes.word16
      rw [Bytes.load_congr (fun i hi => h i (by omega))]
    rw [sumWords_add_two, sumWords_add_two, hword, ih (fun i hi => ?_)]
    rw [Nat.add_assoc]
    exact h (2 + i) (by omega)

theorem word16_store (m : Bytes) (off : ℕ) (w : UInt16) : (m.store off (Bytes.bytes16 w)).word16 off = w :=
  Bytes.word16_eq (show (m.store off (Bytes.bytes16 w)).load off (Bytes.bytes16 w).length = _ from Bytes.load_store)

/-- **A word is replaced**: the sum has the new one for the old one. -/
theorem sumWords_store (m : Bytes) (addr : ℕ) (w : UInt16) (h : 2 * j + 2 ≤ count) :
    sumWords (m.store (addr + 2 * j) (Bytes.bytes16 w)) addr count 0 + (m.word16 (addr + 2 * j)).toNat
      = sumWords m addr count 0 + w.toNat := by
  obtain ⟨count, rfl⟩ := Nat.exists_eq_add_of_le' ((Nat.le_add_left 2 (2 * j)).trans h)
  induction j generalizing addr count with
  | zero =>
    have hrest : sumWords (m.store addr (Bytes.bytes16 w)) (addr + 2) count 0 = sumWords m (addr + 2) count 0 := by
      refine sumWords_congr (fun i _ => ?_)
      have hload : (m.store addr (Bytes.bytes16 w)).load (addr + 2 + i) 1 = m.load (addr + 2 + i) 1 :=
        Bytes.load_store_of_disjoint (Or.inr (Nat.le_add_right _ _))
      exact List.singleton_injective hload
    rw [Nat.mul_zero, Nat.add_zero, sumWords_add_two, sumWords_add_two, word16_store, hrest]
    omega
  | succ j ih =>
    obtain ⟨count, rfl⟩ := Nat.exists_eq_add_of_le' (show 2 ≤ count by omega)
    have hword : (m.store (addr + 2 * (j + 1)) (Bytes.bytes16 w)).word16 addr = m.word16 addr := by
      unfold Bytes.word16
      rw [Bytes.load_store_of_disjoint (Or.inl (by omega))]
    have hrest := ih (addr + 2) count (by omega)
    rw [show addr + 2 + 2 * j = addr + 2 * (j + 1) by ring] at hrest
    rw [sumWords_add_two _ _ (count + 2), sumWords_add_two _ _ (count + 2), hword]
    omega

/-- **A checksum that is put into what it is of** makes that acceptable. -/
theorem ngChecksum_filled (h : 2 * j + 2 ≤ count) (hzero : m.word16 (addr + 2 * j) = 0) :
    ngChecksum (m.store (addr + 2 * j) (Bytes.bytes16 (ngChecksum m addr count))) addr count = 0 := by
  have hsum := sumWords_store m addr (ngChecksum m addr count) h
  rw [hzero, toNat_ngChecksum, foldSum_eq, UInt16.toNat_zero] at hsum
  rw [ngChecksum_eq_zero_iff]
  split at hsum <;> omega

/-- **A word of what was acceptable is another**, and it is not acceptable. -/
theorem ngChecksum_changed (hok : ngChecksum m addr count = 0) (h : 2 * j + 2 ≤ count)
    (hne : w ≠ m.word16 (addr + 2 * j))
    (hzero : ¬ (w = 0 ∧ m.word16 (addr + 2 * j) = 0xffff))
    (hones : ¬ (w = 0xffff ∧ m.word16 (addr + 2 * j) = 0)) :
    ngChecksum (m.store (addr + 2 * j) (Bytes.bytes16 w)) addr count ≠ 0 := by
  intro hok'
  obtain ⟨-, hdvd⟩ := ngChecksum_eq_zero_iff.mp hok
  obtain ⟨-, hdvd'⟩ := ngChecksum_eq_zero_iff.mp hok'
  have hsum := sumWords_store m addr w h
  generalize m.word16 (addr + 2 * j) = old at *
  have hw := w.toNat_lt
  have hold := old.toNat_lt
  have hcases : w.toNat = old.toNat ∨ (w.toNat = 0 ∧ old.toNat = 65535) ∨ (w.toNat = 65535 ∧ old.toNat = 0) := by
    omega
  obtain heq | ⟨heq, heq'⟩ | ⟨heq, heq'⟩ := hcases
  · exact hne (UInt16.toNat_inj.mp heq)
  · exact hzero ⟨UInt16.toNat_inj.mp heq, UInt16.toNat_inj.mp heq'⟩
  · exact hones ⟨UInt16.toNat_inj.mp heq, UInt16.toNat_inj.mp heq'⟩

end Checksum

/-! ## The reply -/

/-- **`ng_encode_icmp_pkt`**: what is stored into the packet. -/
def ngEncodeIcmpPkt (dpdk : Dpdk) (msg : Bytes) (gSrcMac dstMac : Mac) (sip dip : UInt32) (id seqnb : UInt16) :
    List (ℕ × List UInt8) :=
  let stores := ipHeaders dpdk msg gSrcMac dstMac 28 ICMP sip dip
    ++ [(34, [RTE_IP_ICMP_ECHO_REPLY]), (35, [0]), (38, Bytes.bytes16 id), (40, Bytes.bytes16 seqnb),
      (36, [0, 0])]
  stores ++ [(36, Bytes.bytes16 (ngChecksum (msg.storeAll stores) 34 8))]

/-- **`ng_send_icmp`**: the length of the packet, and what is stored into it. Without memory for
one the program exits. -/
def ngSendIcmp (dpdk : Dpdk) (msg : Bytes) (gSrcMac dstMac : Mac) (sip dip : UInt32) (id seqnb : UInt16) :
    ℕ × List (ℕ × List UInt8) :=
  (14 + 20 + 8, ngEncodeIcmpPkt dpdk msg gSrcMac dstMac sip dip id seqnb)

namespace Frame

/-- `icmphdr->icmp_type`. -/
def icmpType (frame : Frame) : UInt8 := frame.bytes 34

/-- `icmphdr->icmp_ident`. -/
def icmpIdent (frame : Frame) : UInt16 := frame.bytes.word16 38

/-- `icmphdr->icmp_seq_nb`. -/
def icmpSeqNb (frame : Frame) : UInt16 := frame.bytes.word16 40

end Frame

/-- **`pkt_process`** of `tcp-orig`, as far as ICMP goes: the reply that is sent, if one is. -/
def icmpProcess (dpdk : Dpdk) (msg : Bytes) (gSrcMac : Mac) (frame : Frame) : Option (ℕ × List (ℕ × List UInt8)) :=
  if frame.etherType ≠ RTE_ETHER_TYPE_IPV4 then none
  else if frame.nextProtoId = ICMP then
    if frame.icmpType = RTE_IP_ICMP_ECHO_REQUEST then
      some (ngSendIcmp dpdk msg gSrcMac frame.sAddr frame.dstAddr frame.srcAddr frame.icmpIdent frame.icmpSeqNb)
    else none
  else none

section Reply

variable (dpdk : Dpdk) (msg : Bytes) (gSrcMac dstMac : Mac) (sip dip : UInt32) (id seqnb : UInt16)

/-- **What is in an echo reply.** -/
theorem load_icmpPkt {m : Bytes} (hm : m = msg.storeAll (ngEncodeIcmpPkt dpdk msg gSrcMac dstMac sip dip id seqnb)) :
    m.load 0 6 = dstMac.toList ∧ m.load 26 4 = Bytes.bytes32 sip ∧ m.load 30 4 = Bytes.bytes32 dip
      ∧ m.load 34 1 = [RTE_IP_ICMP_ECHO_REPLY] ∧ m.load 38 2 = Bytes.bytes16 id
      ∧ m.load 40 2 = Bytes.bytes16 seqnb := by
  unfold ngEncodeIcmpPkt at hm
  dsimp only at hm
  rw [List.append_assoc] at hm
  generalize ngChecksum _ 34 8 = cksum at hm
  obtain ⟨-, -, hsip, hdip⟩ : m.load 16 2 = _ ∧ m.load 23 1 = _ ∧ m.load 26 4 = _ ∧ m.load 30 4 = _ := by
    rw [hm]
    exact load_ipHeaders (by simp)
  subst hm
  refine ⟨?_, hsip, hdip, ?_, ?_, ?_⟩
  · rw [Bytes.storeAll_append, Bytes.load_storeAll_of_disjoint (by simp)]
    unfold ipHeaders
    exact Bytes.load_storeAll [_] (by simp) (by simp)
  all_goals rw [Bytes.storeAll_append]
  · exact Bytes.load_storeAll [] rfl (by simp)
  · exact Bytes.load_storeAll [_, _] rfl (by simp)
  · exact Bytes.load_storeAll [_, _, _] rfl (by simp)

/-- It is what was allocated for it. -/
theorem icmpPkt_le : ∀ s ∈ ngEncodeIcmpPkt dpdk msg gSrcMac dstMac sip dip id seqnb, s.1 + s.2.length ≤ 42 := by
  intro s hs
  unfold ngEncodeIcmpPkt at hs
  dsimp only at hs
  rw [List.append_assoc] at hs
  generalize ngChecksum _ 34 8 = cksum at hs
  rw [List.mem_append] at hs
  cases hs with
  | inl hs => exact (ipHeaders_le s hs).trans (by decide)
  | inr hs =>
    revert s
    simp

/-- **An echo reply carries its checksum.** -/
theorem ngChecksum_icmpPkt :
    ngChecksum (msg.storeAll (ngEncodeIcmpPkt dpdk msg gSrcMac dstMac sip dip id seqnb)) 34 8 = 0 := by
  unfold ngEncodeIcmpPkt
  dsimp only
  rw [Bytes.storeAll_append]
  refine ngChecksum_filled (j := 1) (show 2 * 1 + 2 ≤ 8 by decide) ?_
  -- the field was cleared last
  refine Bytes.word16_eq ?_
  rw [Bytes.storeAll_append]
  exact Bytes.load_storeAll [_, _, _, _] rfl (by simp)

/-- **A ping is answered**: an echo request makes a packet that goes back to where it came from,
with its identifier and its number, and whose ICMP header adds up; and once a word of the header
is another, it does not add up any more, as long as it is not zero for `0xffff` or `0xffff` for
zero. -/
theorem echo_reply {frame : Frame}
    (hip : frame.etherType = RTE_ETHER_TYPE_IPV4) (hicmp : frame.nextProtoId = ICMP)
    (hecho : frame.icmpType = RTE_IP_ICMP_ECHO_REQUEST) :
    ∃ stores m, icmpProcess dpdk msg gSrcMac frame = some (42, stores) ∧ m = msg.storeAll stores
      ∧ (∀ s ∈ stores, s.1 + s.2.length ≤ 42)
      ∧ m.load 0 6 = frame.sAddr.toList ∧ m.word32 26 = frame.dstAddr ∧ m.word32 30 = frame.srcAddr
      ∧ m 34 = RTE_IP_ICMP_ECHO_REPLY ∧ m.word16 38 = frame.icmpIdent ∧ m.word16 40 = frame.icmpSeqNb
      ∧ ngChecksum m 34 8 = 0
      ∧ ∀ j < 4, ∀ w, w ≠ m.word16 (34 + 2 * j) → ¬ (w = 0 ∧ m.word16 (34 + 2 * j) = 0xffff) →
        ¬ (w = 0xffff ∧ m.word16 (34 + 2 * j) = 0) →
        ngChecksum (m.store (34 + 2 * j) (Bytes.bytes16 w)) 34 8 ≠ 0 := by
  have hprocess : icmpProcess dpdk msg gSrcMac frame = some (42, ngEncodeIcmpPkt dpdk msg gSrcMac frame.sAddr
      frame.dstAddr frame.srcAddr frame.icmpIdent frame.icmpSeqNb) := by
    unfold icmpProcess
    rw [if_neg (not_not.mpr hip), if_pos hicmp, if_pos hecho]
    rfl
  have hchecked := ngChecksum_icmpPkt dpdk msg gSrcMac frame.sAddr frame.dstAddr frame.srcAddr frame.icmpIdent
    frame.icmpSeqNb
  obtain ⟨hmac, hsip, hdip, htype, hid, hseq⟩ := load_icmpPkt dpdk msg gSrcMac frame.sAddr frame.dstAddr
    frame.srcAddr frame.icmpIdent frame.icmpSeqNb rfl
  refine ⟨_, _, hprocess, rfl, ?_, hmac, Bytes.word32_eq hsip, Bytes.word32_eq hdip,
    List.singleton_injective htype, Bytes.word16_eq hid, Bytes.word16_eq hseq, hchecked, ?_⟩
  · exact icmpPkt_le dpdk msg gSrcMac frame.sAddr frame.dstAddr frame.srcAddr frame.icmpIdent frame.icmpSeqNb
  · intro j hj w hne hzero hones
    exact ngChecksum_changed hchecked (by omega) hne hzero hones

/-- An echo request. -/
def ping : Frame :=
  [2, 0, 0, 0, 0, 1, 2, 0, 0, 0, 0, 2, 8, 0] ++ [0x45, 0, 0, 28, 0, 0, 0, 0, 64, 1, 0, 0, 10, 0, 0, 2, 10, 0, 0, 1]
    ++ [8, 0, 0xf7, 0xfd, 0, 1, 0, 1]

theorem echo_reply_ping : ∃ stores, icmpProcess noCksum (fun _ => 0) #v[2, 0, 0, 0, 0, 1] ping = some (42, stores)
    ∧ ngChecksum (Bytes.storeAll (fun _ => 0) stores) 34 8 = 0 := by
  obtain ⟨stores, m, hrun, rfl, -, -, -, -, -, -, -, hok, -⟩ :=
    echo_reply noCksum (fun _ => 0) #v[2, 0, 0, 0, 0, 1] (show ping.etherType = RTE_ETHER_TYPE_IPV4 by decide)
      (by decide) (by decide)
  exact ⟨stores, hrun, hok⟩

end Reply

end Ustack
