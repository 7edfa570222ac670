import LinuxLearn.Bytes

/-!
# Segments

What KCP sends is made of segments: a header of 24 bytes, in which the numbers are
little-endian, and as many bytes of data as the header says. A datagram is some
segments one after another.

`frg` and `wnd` are 32-bit fields of a segment and go into 8 and 16 bits of the header,
so that what is read back is what was written only where they fit (`decodeSeg_encodeSeg`).

Sequence numbers and times are compared by the sign of their difference, modulo `2 ^ 32`.
Seen from any base, the comparison is that of the distances from it, as long as these are
less than `2 ^ 31` apart (`itimediff_eq`).
-/

namespace Kcp

def IKCP_RTO_NDL : UInt32 := 30
def IKCP_RTO_MIN : UInt32 := 100
def IKCP_RTO_DEF : UInt32 := 200
def IKCP_RTO_MAX : UInt32 := 60000
def IKCP_CMD_PUSH : UInt32 := 81
def IKCP_CMD_ACK : UInt32 := 82
def IKCP_CMD_WASK : UInt32 := 83
def IKCP_CMD_WINS : UInt32 := 84
def IKCP_ASK_SEND : UInt32 := 1
def IKCP_ASK_TELL : UInt32 := 2
def IKCP_WND_SND : UInt32 := 32
def IKCP_WND_RCV : UInt32 := 128
def IKCP_MTU_DEF : UInt32 := 1400
def IKCP_INTERVAL : UInt32 := 100
def IKCP_OVERHEAD : UInt32 := 24
def IKCP_DEADLINK : UInt32 := 20
def IKCP_THRESH_INIT : UInt32 := 2
def IKCP_THRESH_MIN : UInt32 := 2
def IKCP_PROBE_INIT : UInt32 := 7000
def IKCP_PROBE_LIMIT : UInt32 := 120000
def IKCP_FASTACK_LIMIT : Int32 := 5

/-! ## Numbers -/

/-- `(int)` of an unsigned number. -/
def toInt (u : UInt32) : ℤ := u.toInt32.toInt

def imin (a b : UInt32) : UInt32 := if a ≤ b then a else b

def imax (a b : UInt32) : UInt32 := if a ≥ b then a else b

def ibound (lower middle upper : UInt32) : UInt32 := imin (imax lower middle) upper

/-- **`_itimediff`**: how much later one number is than another. -/
def itimediff (later earlier : UInt32) : ℤ := toInt (later - earlier)

theorem toInt_eq (u : UInt32) :
    toInt u = if u.toNat < 2 ^ 31 then (u.toNat : ℤ) else u.toNat - 2 ^ 32 := by
  show BitVec.toInt u.toBitVec = _
  rw [BitVec.toInt_eq_toNat_cond]
  show (if 2 * u.toNat < 2 ^ 32 then (u.toNat : ℤ) else u.toNat - ((2 ^ 32 : ℕ) : ℤ)) = _
  split <;> split <;> omega

/-- A number below `2 ^ 31` is the same with a sign. -/
theorem toInt_of_lt {u : UInt32} (h : u.toNat < 2 ^ 31) : toInt u = u.toNat := by
  rw [toInt_eq, if_pos h]

/-- **Numbers compare as their distances from any base do**, if these are not too far apart. -/
theorem itimediff_eq (base : UInt32) {a b : UInt32}
    (hlow : -2 ^ 31 ≤ ((a - base).toNat : ℤ) - (b - base).toNat)
    (hhigh : ((a - base).toNat : ℤ) - (b - base).toNat < 2 ^ 31) :
    itimediff a b = ((a - base).toNat : ℤ) - (b - base).toNat := by
  have ha := a.toNat_lt
  have hb := b.toNat_lt
  have hbase := base.toNat_lt
  unfold itimediff
  rw [toInt_eq]
  simp only [UInt32.toNat_sub] at *
  split <;> omega

/-- Numbers that have not come to half the range compare as they are. -/
theorem itimediff_of_lt {a b : UInt32} (ha : a.toNat < 2 ^ 31) (hb : b.toNat < 2 ^ 31) :
    itimediff a b = (a.toNat : ℤ) - b.toNat := by
  have h := itimediff_eq 0 (a := a) (b := b)
  simp only [UInt32.sub_zero] at h
  exact h (by omega) (by omega)

/-- **A number is not before another** if its distance from it is less than half the range. -/
theorem itimediff_nonneg_iff {a b : UInt32} : 0 ≤ itimediff a b ↔ (a - b).toNat < 2 ^ 31 := by
  have hlt := (a - b).toNat_lt
  unfold itimediff
  rw [toInt_eq]
  split <;> omega

/-! ## Segments -/

/-- **A segment**, `IKCPSEG`; `len` is the length of the data. -/
structure Ikcpseg where
  conv : UInt32
  cmd : UInt32
  /-- How many fragments of the message follow. -/
  frg : UInt32
  /-- The room in the window of whoever sends it. -/
  wnd : UInt32
  /-- When it was sent; in an acknowledgement, when what it acknowledges was. -/
  ts : UInt32
  /-- Its number, or that of the segment it acknowledges. -/
  sn : UInt32
  /-- The first number that whoever sends it has not received. -/
  una : UInt32
  /-- When it is sent again. -/
  resendts : UInt32
  rto : UInt32
  /-- How many times it was skipped by an acknowledgement. -/
  fastack : UInt32
  /-- How many times it was sent. -/
  xmit : UInt32
  data : List UInt8
deriving DecidableEq

/-- `seg->len`. -/
def Ikcpseg.len (seg : Ikcpseg) : UInt32 := UInt32.ofNat seg.data.length

/-- `ikcp_encode8u`. -/
def ikcpEncode8u (c : UInt8) : List UInt8 := [c]

/-- `ikcp_encode16u`. -/
def ikcpEncode16u (w : UInt16) : List UInt8 := Bytes.bytes16 w

/-- `ikcp_encode32u`. -/
def ikcpEncode32u (l : UInt32) : List UInt8 := Bytes.bytes32 l

/-- `ikcp_decode8u`: a number, and where the next one is. -/
def ikcpDecode8u (p : List UInt8) : UInt8 × List UInt8 := (p.headD 0, p.drop 1)

/-- `ikcp_decode16u`. -/
def ikcpDecode16u (p : List UInt8) : UInt16 × List UInt8 :=
  (UInt16.ofNat (Bytes.ofLe (p.take 2)), p.drop 2)

/-- `ikcp_decode32u`. -/
def ikcpDecode32u (p : List UInt8) : UInt32 × List UInt8 :=
  (UInt32.ofNat (Bytes.ofLe (p.take 4)), p.drop 4)

/-- **`ikcp_encode_seg`**: the header. -/
def ikcpEncodeSeg (seg : Ikcpseg) : List UInt8 :=
  ikcpEncode32u seg.conv ++ ikcpEncode8u seg.cmd.toUInt8 ++ ikcpEncode8u seg.frg.toUInt8
    ++ ikcpEncode16u seg.wnd.toUInt16 ++ ikcpEncode32u seg.ts ++ ikcpEncode32u seg.sn
    ++ ikcpEncode32u seg.una ++ ikcpEncode32u seg.len

/-- A header and the data behind it, as they are put into a datagram. -/
def Ikcpseg.bytes (seg : Ikcpseg) : List UInt8 := ikcpEncodeSeg seg ++ seg.data

/-- **What a datagram holds** that is made of some segments. -/
def datagram (segs : List Ikcpseg) : List UInt8 := segs.flatMap Ikcpseg.bytes

/-- `ikcp_getconv`. -/
def ikcpGetconv (ptr : List UInt8) : UInt32 := (ikcpDecode32u ptr).1

/-- A number is read where it was written, whatever follows it. -/
theorem ikcpDecode8u_append (c : UInt8) (rest : List UInt8) :
    ikcpDecode8u (ikcpEncode8u c ++ rest) = (c, rest) := rfl

theorem ikcpDecode16u_append (w : UInt16) (rest : List UInt8) :
    ikcpDecode16u (ikcpEncode16u w ++ rest) = (w, rest) := by
  unfold ikcpDecode16u ikcpEncode16u
  rw [List.take_left' (Bytes.length_bytes16 w), List.drop_left' (Bytes.length_bytes16 w),
    Bytes.bytes16, Bytes.ofLe_toLe, Nat.mod_eq_of_lt (show w.toNat < 256 ^ 2 from w.toNat_lt),
    UInt16.ofNat_toNat]

theorem ikcpDecode32u_append (l : UInt32) (rest : List UInt8) :
    ikcpDecode32u (ikcpEncode32u l ++ rest) = (l, rest) := by
  unfold ikcpDecode32u ikcpEncode32u
  rw [List.take_left' (Bytes.length_bytes32 l), List.drop_left' (Bytes.length_bytes32 l),
    Bytes.bytes32, Bytes.ofLe_toLe, Nat.mod_eq_of_lt (show l.toNat < 256 ^ 4 from l.toNat_lt),
    UInt32.ofNat_toNat]

@[simp] theorem length_ikcpEncodeSeg (seg : Ikcpseg) : (ikcpEncodeSeg seg).length = 24 := rfl

@[simp] theorem length_bytes (seg : Ikcpseg) : seg.bytes.length = 24 + seg.data.length :=
  List.length_append

@[simp] theorem datagram_nil : datagram [] = [] := rfl

@[simp] theorem datagram_cons (seg : Ikcpseg) (segs : List Ikcpseg) :
    datagram (seg :: segs) = seg.bytes ++ datagram segs := rfl

@[simp] theorem datagram_append (segs segs' : List Ikcpseg) :
    datagram (segs ++ segs') = datagram segs ++ datagram segs' := List.flatMap_append

/-- **A segment as it is read back**: the fields that the header has, as far as they fit there. -/
def Ikcpseg.received (seg : Ikcpseg) : Ikcpseg where
  conv := seg.conv
  cmd := seg.cmd.toUInt8.toUInt32
  frg := seg.frg.toUInt8.toUInt32
  wnd := seg.wnd.toUInt16.toUInt32
  ts := seg.ts
  sn := seg.sn
  una := seg.una
  resendts := 0
  rto := 0
  fastack := 0
  xmit := 0
  data := seg.data

/-- **What `ikcp_input` reads of a segment**: its header, how much data there is to be, and
what is behind the header. The fields that no header has are those of memory that is not
set; they are not read of a segment that was received. -/
def decodeSeg (data : List UInt8) : Ikcpseg × UInt32 × List UInt8 :=
  let (conv, data) := ikcpDecode32u data
  let (cmd, data) := ikcpDecode8u data
  let (frg, data) := ikcpDecode8u data
  let (wnd, data) := ikcpDecode16u data
  let (ts, data) := ikcpDecode32u data
  let (sn, data) := ikcpDecode32u data
  let (una, data) := ikcpDecode32u data
  let (len, data) := ikcpDecode32u data
  (⟨conv, cmd.toUInt32, frg.toUInt32, wnd.toUInt32, ts, sn, una, 0, 0, 0, 0, []⟩, len, data)

/-- **A header is read as it was written**, as far as its fields fit. -/
theorem decodeSeg_encodeSeg (seg : Ikcpseg) (rest : List UInt8) :
    decodeSeg (ikcpEncodeSeg seg ++ rest) = ({ seg.received with data := [] }, seg.len, rest) := by
  unfold decodeSeg ikcpEncodeSeg
  simp only [List.append_assoc, ikcpDecode32u_append, ikcpDecode8u_append, ikcpDecode16u_append]
  rfl

end Kcp
