import LinuxLearn.KvsProtocol
import LinuxLearn.Simulation
import Mathlib.Data.List.GetD

/-!
# The WebSocket handler

`Websocket.c`: what is done with a message that a connection has received.
The first one is taken for a handshake, the others for frames, which are
decoded and sent back; a field `status` of the connection tells them apart.

The handshake reads the request line by line up to an empty line, into a
buffer of its own, and answers the first line that names a key. What
OpenSSL makes of the key is left open (`Openssl`).

A frame is decoded where it is. The length is looked for in the mask bit,
so the two longer forms are never taken.
-/

namespace Websocket

/-- `BUFFER_LENGTH`. -/
def BUFFER_LENGTH : ℕ := 4096

/-- Zeroed bytes. -/
def zeroed (n : ℕ) : List UInt8 := List.replicate n 0

/-- The callbacks. -/
inductive Callback where
  | acceptCb
  | recvCb
  | sendCb
deriving DecidableEq

/-- **`struct conn`.** -/
structure Conn where
  fd : ℕ
  rbuffer : List UInt8
  /-- How many bytes of `rbuffer` were received. -/
  rlength : ℕ
  wbuffer : List UInt8
  /-- How many bytes of `wbuffer` are to be sent. -/
  wlength : ℤ
  /-- `none` is null. -/
  sendCallback : Option Callback
  /-- The union of `recv_callback` and `accept_callback`. -/
  rAction : Option Callback
  /-- `0` before the handshake, `1` when it is taken to be done. -/
  status : ℤ

/-- A zeroed slot. -/
def Conn.zero : Conn := ⟨0, zeroed BUFFER_LENGTH, 0, zeroed BUFFER_LENGTH, 0, none, none, 0⟩

/-- **How the handler can go wrong**: a buffer is written past one of its ends, or
read past it. `endless` is a loop that was given too few rounds. -/
inductive Fault where
  | overflow
  | underflow
  | overread
  | endless
deriving DecidableEq

/-- **What OpenSSL computes**: a digest, and the line its base64 filter writes. -/
structure Openssl where
  sha1 : List UInt8 → List UInt8
  base64 : List UInt8 → List UInt8

/-- A number as so many bytes, the lowest first. -/
def littleEndian : ℕ → ℕ → List UInt8
  | 0, _ => []
  | n + 1, x => (x % 256).toUInt8 :: littleEndian n (x / 256)

/-- Bytes as a number, the lowest first. -/
def ofLittleEndian : List UInt8 → ℕ
  | [] => 0
  | b :: bytes => b.toNat + 256 * ofLittleEndian bytes

/-- What a number is as an `int`. -/
def toInt32 (x : ℕ) : ℤ := Int.bmod x (2 ^ 32)

/-- A C string: the bytes before the first NUL. -/
def cstring (bytes : List UInt8) : List UInt8 := bytes.takeWhile (· ≠ 0)

/-- `memcpy` into a buffer, at an offset. -/
def memcpy (buffer : List UInt8) (offset : ℕ) (bytes : List UInt8) : Except Fault (List UInt8) :=
  if buffer.length < offset + bytes.length then .error .overflow
  else .ok (buffer.take offset ++ bytes ++ buffer.drop (offset + bytes.length))

/-! ## The handshake -/

/-- `GUID`. -/
def GUID : List UInt8 := ascii "258EAFA5-E914-47DA-95CA-C5AB0DC85B11"

/-- `WEBSOCK_KEY_LENGTH`. -/
def WEBSOCK_KEY_LENGTH : ℕ := 19

/-- **`base64_encode`** into a buffer of 32 bytes: the text it leaves there. The
end of the line is cut off. -/
def base64Encode (ssl : Openssl) (inStr : List UInt8) : Except Fault (List UInt8) :=
  let bptr := ssl.base64 inStr
  if 32 < bptr.length then .error .overflow
  else if bptr.length = 0 then .error .underflow
  else .ok (cstring bptr.dropLast)

/-- The loop of `readline`, from position `level` of a string on, with what is
already in the line. -/
def readlineLoop : List UInt8 → ℕ → List UInt8 → ℤ × List UInt8
  | [], _, line => (-1, line)
  | [a], _, line => (-1, line ++ [a])
  | a :: b :: rest, level, line =>
    if a = 13 ∧ b = 10 then (level + 2, line)
    else readlineLoop (b :: rest) (level + 1) (line ++ [a])

/-- **`readline`**: where the next line starts, or `-1`, and the line. -/
def readline (allbuf : List UInt8) (level : ℕ) : ℤ × List UInt8 :=
  readlineLoop (allbuf.drop level) level []

/-- The 101 response. -/
def switchingProtocols (secAccept : List UInt8) : List UInt8 :=
  ascii "HTTP/1.1 101 Switching Protocols\r\nUpgrade: websocket\r\nConnection: Upgrade\r\n"
    ++ ascii "Sec-WebSocket-Accept: " ++ secAccept ++ ascii "\r\n\r\n"

namespace Conn

/-- The string in the read buffer. Behind a buffer that is full lies `rlength`. -/
def request (c : Conn) : List UInt8 := cstring (c.rbuffer ++ littleEndian 4 c.rlength)

/-- `c->rbuffer[i]`. Before the buffer lies `fd`, and behind it `rlength`. -/
def byteAt (c : Conn) (i : ℤ) : UInt8 :=
  (littleEndian 4 c.fd ++ c.rbuffer ++ littleEndian 4 c.rlength).getD (i + 4).toNat 0

/-- The answer to a line that names a key. -/
def respond (ssl : Openssl) (c : Conn) (linebuf : List UInt8) : Except Fault Conn := do
  if 1024 ≤ linebuf.length + GUID.length then .error .overflow
  else
    let secData := ssl.sha1 ((linebuf ++ GUID).drop WEBSOCK_KEY_LENGTH)
    let secAccept ← base64Encode ssl (cstring secData)
    let text := switchingProtocols secAccept
    let wbuffer ← memcpy (zeroed BUFFER_LENGTH) 0 (text ++ [0])
    return { c with wbuffer := wbuffer, wlength := text.length }

/-- The loop of `handshake`, from position `idx` of the request on, and whether
it has found a key. -/
def handshakeLoop (ssl : Openssl) (c : Conn) : ℕ → ℕ → Except Fault (Bool × Conn)
  | 0, _ => .error .endless
  | fuel + 1, idx => do
    let (next, linebuf) := readline c.request idx
    if 1024 < linebuf.length then .error .overflow
    else if linebuf.length = 1024 then .error .overread
    else if ascii "Sec-WebSocket-Key" <:+: linebuf then
      let c ← c.respond ssl linebuf
      return (true, c)
    else if (c.byteAt next ≠ 13 ∨ c.byteAt (next + 1) ≠ 10) ∧ next ≠ -1 then
      handshakeLoop ssl c fuel next.toNat
    else return (false, c)

/-- **`handshake`**, and whether it has written a 101 response. -/
def handshake (ssl : Openssl) (c : Conn) : Except Fault (Bool × Conn) :=
  c.handshakeLoop ssl (BUFFER_LENGTH + 1) 0

end Conn

/-! ## Frames -/

/-- **`demask`** of so many bytes from an offset on. -/
def demask (stream : List UInt8) (start : ℕ) (len : ℤ) (mask : List UInt8) : List UInt8 :=
  stream.mapIdx (fun i b =>
    if start ≤ i ∧ (i : ℤ) < start + len then b ^^^ mask.getD ((i - start) % 4) 0 else b)

/-- **`decode_packet`**: the mask, the offset of the data and its length, and the
stream with its data decoded. -/
def decodePacket (stream : List UInt8) : Except Fault (List UInt8 × ℕ × ℤ × List UInt8) :=
  let data := stream.drop 2
  let hdr := stream.getD 1 0
  -- the lowest seven bits are `payload_length`, and the last one is `mask`
  let hdrMask := hdr >>> 7
  let (size, mask, start) : ℤ × List UInt8 × ℕ :=
    if hdrMask &&& 0x7F = 126 then
      ((ofLittleEndian (data.take 2) : ℤ), (data.drop 2).take 4, 8)
    else if hdrMask &&& 0x7F = 127 then
      (toInt32 (ofLittleEndian (data.take 8)), (data.drop 8).take 4, 14)
    else ((hdr &&& 0x7F).toNat, data.take 4, 6)
  if (stream.length : ℤ) < start + size then .error .overflow
  else .ok (mask, start, size, demask stream start size mask)

/-- **`encode_packet`** into the write buffer: how long the frame is said to be,
and the buffer. The payload is copied over a longer header. -/
def encodePacket (buffer mask stream : List UInt8) (length : ℕ) :
    Except Fault (ℤ × List UInt8) := do
  let buffer ← (if length < 126 then
      memcpy buffer 0 [0x81, (length % 128).toUInt8]
    else if length < 0xffff then do
      let buffer ← memcpy buffer 0 [0x81, 0]
      memcpy buffer 2 (littleEndian 2 length ++ mask ++ zeroed 8)
    else do
      let buffer ← memcpy buffer 0 [0x81, 0]
      memcpy buffer 2 (littleEndian 8 length ++ mask ++ zeroed 8))
  let buffer ← memcpy buffer 2 (stream.take length)
  return (length + 2, buffer)

/-- **`ws_request`**, and whether it has written a 101 response. -/
def wsRequest (ssl : Openssl) (c : Conn) : Except Fault (Bool × Conn) :=
  if c.status = 0 then do
    let (switched, c) ← c.handshake ssl
    return (switched, { c with status := 1 })
  else if c.status = 1 then do
    let (mask, start, ret, rbuffer) ← decodePacket c.rbuffer
    -- a negative length is a very large one
    if ret < 0 then .error .overflow
    else
      let (ret, wbuffer) ← encodePacket c.wbuffer mask (rbuffer.drop start) ret.toNat
      return (false, { c with rbuffer := rbuffer, wbuffer := wbuffer, wlength := ret })
  else .ok (false, c)

/-! ## What the handshake looks for -/

/-- The lines of a text, which end with CR LF but for the last one. -/
def splitLines : List UInt8 → List (List UInt8)
  | [] => [[]]
  | [a] => [[a]]
  | a :: b :: rest =>
    if a = 13 ∧ b = 10 then [] :: splitLines rest
    else (splitLines (b :: rest)).modifyHead (a :: ·)

/-- **The lines of a request**: the first, and those that follow up to an empty
one. -/
def headerLines (text : List UInt8) : List (List UInt8) :=
  (splitLines text).take 1 ++ (splitLines text).tail.takeWhile (· ≠ [])

/-- **A message names a key** in one of its lines. -/
def NamesKey (message : List UInt8) : Prop :=
  ∃ line ∈ headerLines (cstring message), ascii "Sec-WebSocket-Key" <:+: line

instance (message : List UInt8) : Decidable (NamesKey message) :=
  inferInstanceAs (Decidable (∃ line ∈ headerLines (cstring message), _))

/-- The lines of a text that goes on. -/
theorem splitLines_cons {a b : UInt8} {rest : List UInt8} (h : ¬ (a = 13 ∧ b = 10)) :
    splitLines (a :: b :: rest) = (splitLines (b :: rest)).modifyHead (a :: ·) := by
  conv_lhs => unfold splitLines
  exact if_neg h

theorem readlineLoop_eq (bytes : List UInt8) (level : ℕ) (line : List UInt8) :
    ∃ l, (readlineLoop bytes level line = (-1, line ++ l) ∧ splitLines bytes = [l])
      ∨ (readlineLoop bytes level line = (((level + (l.length + 2) : ℕ) : ℤ), line ++ l)
        ∧ l.length + 2 ≤ bytes.length
        ∧ splitLines bytes = l :: splitLines (bytes.drop (l.length + 2))) := by
  fun_induction readlineLoop bytes level line with
  | case1 level line => exact ⟨[], Or.inl ⟨by rw [List.append_nil], rfl⟩⟩
  | case2 a level line => exact ⟨[a], Or.inl ⟨rfl, rfl⟩⟩
  | case3 a b rest level line hend =>
    refine ⟨[], Or.inr ⟨by rw [List.append_nil]; rfl, ?_, ?_⟩⟩
    · show 2 ≤ rest.length + 1 + 1
      omega
    · conv_lhs => unfold splitLines
      exact if_pos hend
  | case4 a b rest level line hend ih =>
    obtain ⟨l, hrest⟩ := ih
    refine ⟨a :: l, hrest.imp (fun ⟨hread, hl⟩ => ⟨?_, ?_⟩) (fun ⟨hread, hle, hl⟩ => ⟨?_, ?_, ?_⟩)⟩
    · rw [hread, List.append_assoc]
      rfl
    · rw [splitLines_cons hend, hl]
      rfl
    · rw [hread, List.append_assoc, List.length_cons]
      congr 2
      omega
    · rw [List.length_cons] at hle ⊢
      exact Nat.succ_le_succ hle
    · rw [splitLines_cons hend, hl]
      rfl

/-- **`readline` reads a line**, the last one or one that another follows. -/
theorem readline_eq {allbuf : List UInt8} {level : ℕ} (h : level ≤ allbuf.length) :
    ∃ l, (readline allbuf level = (-1, l) ∧ splitLines (allbuf.drop level) = [l])
      ∨ (readline allbuf level = (((level + (l.length + 2) : ℕ) : ℤ), l)
        ∧ level + (l.length + 2) ≤ allbuf.length
        ∧ splitLines (allbuf.drop level) = l :: splitLines (allbuf.drop (level + (l.length + 2)))) := by
  obtain ⟨l, hread⟩ := readlineLoop_eq (allbuf.drop level) level []
  refine ⟨l, hread.imp_right (fun ⟨hread, hle, hl⟩ => ⟨hread, ?_, ?_⟩)⟩
  · rw [List.length_drop] at hle
    omega
  · rw [hl, List.drop_drop]

/-- Where no empty line is ahead, the first line is like the others. -/
theorem exists_mem_headerLines {text : List UInt8} (h : ¬ ∃ rest, text = 13 :: 10 :: rest)
    {key : List UInt8} (hkey : key ≠ []) :
    (∃ line ∈ headerLines text, key <:+: line)
      ↔ ∃ line ∈ (splitLines text).takeWhile (· ≠ []), key <:+: line := by
  have hcons : ∀ {l : List UInt8} {ls : List (List UInt8)}, l ≠ [] →
      splitLines text = l :: ls → headerLines text = (splitLines text).takeWhile (· ≠ []) := by
    intro l ls hl hsplit
    unfold headerLines
    rw [hsplit, List.takeWhile_cons_of_pos (by simpa using hl)]
    rfl
  match text, h with
  | [], _ =>
    refine iff_of_false ?_ ?_
    · rintro ⟨line, hmem, hinfix⟩
      obtain rfl : line = [] := List.mem_singleton.mp hmem
      exact hkey (List.eq_nil_of_infix_nil hinfix)
    · rintro ⟨line, hmem, -⟩
      exact absurd hmem List.not_mem_nil
  | [a], _ => rw [hcons (List.cons_ne_nil a []) rfl]
  | a :: b :: rest, h =>
    have hab : ¬ (a = 13 ∧ b = 10) := by
      rintro ⟨rfl, rfl⟩
      exact h ⟨rest, rfl⟩
    obtain ⟨l, hread⟩ := readlineLoop_eq (b :: rest) 0 []
    obtain ⟨ls, hl⟩ : ∃ ls, splitLines (b :: rest) = l :: ls := by
      rcases hread with ⟨-, hl⟩ | ⟨-, -, hl⟩
      · exact ⟨_, hl⟩
      · exact ⟨_, hl⟩
    have hsplit : splitLines (a :: b :: rest) = (a :: l) :: ls := by
      rw [splitLines_cons hab, hl]
      rfl
    rw [hcons (List.cons_ne_nil a l) hsplit]

theorem length_littleEndian (n x : ℕ) : (littleEndian n x).length = n := by
  induction n generalizing x with
  | zero => rfl
  | succ n ih => exact congrArg (· + 1) (ih (x / 256))

/-- Up to its end, a string has the bytes of the memory it is in. -/
theorem getD_cstring {bytes : List UInt8} {i : ℕ} (h : i ≤ (cstring bytes).length) :
    bytes.getD i 0 = (cstring bytes).getD i 0 := by
  unfold cstring at h ⊢
  induction bytes generalizing i with
  | nil => rfl
  | cons b bytes ih =>
    by_cases hb : b = 0
    · rw [List.takeWhile_cons_of_neg (by simpa using hb)] at h ⊢
      obtain rfl : i = 0 := Nat.le_zero.mp h
      exact hb
    · rw [List.takeWhile_cons_of_pos (by simpa using hb)] at h ⊢
      cases i with
      | zero => rfl
      | succ i => exact ih (Nat.le_of_succ_le_succ h)

/-- What is behind a NUL does not belong to a string. -/
theorem cstring_append_zero (bytes rest : List UInt8) :
    cstring (bytes ++ 0 :: rest) = cstring bytes := by
  unfold cstring
  induction bytes with
  | nil => rfl
  | cons b bytes ih =>
    by_cases hb : b = 0
    · rw [List.cons_append, List.takeWhile_cons_of_neg (by simpa using hb),
        List.takeWhile_cons_of_neg (by simpa using hb)]
    · rw [List.cons_append, List.takeWhile_cons_of_pos (by simpa using hb),
        List.takeWhile_cons_of_pos (by simpa using hb), ih]

namespace Conn

theorem byteAt_eq {c : Conn} {i : ℕ} (h : i ≤ c.request.length) :
    c.byteAt i = c.request.getD i 0 := by
  have hindex : ((i : ℤ) + 4).toNat = i + 4 := by omega
  unfold byteAt
  rw [hindex, List.append_assoc, List.getD_append_right _ _ _ _
    (by rw [length_littleEndian]; omega), length_littleEndian, Nat.add_sub_cancel]
  exact getD_cstring h

/-- **The end of the headers** is where the next line is empty, and not the last. -/
theorem atEnd_iff {c : Conn} {i : ℕ} (h : i ≤ c.request.length) :
    ¬ (c.byteAt i ≠ 13 ∨ c.byteAt (i + 1) ≠ 10) ↔ ∃ rest, c.request.drop i = 13 :: 10 :: rest := by
  rw [not_or, not_not, not_not, byteAt_eq h]
  constructor
  · rintro ⟨h13, h10⟩
    have hlt : i < c.request.length := by
      by_contra hle
      rw [List.getD_eq_default _ _ (not_lt.mp hle)] at h13
      exact absurd h13 (by decide)
    have h10' := (byteAt_eq (c := c) (i := i + 1) hlt).symm.trans (by exact_mod_cast h10)
    have hlt' : i + 1 < c.request.length := by
      by_contra hle
      rw [List.getD_eq_default _ _ (not_lt.mp hle)] at h10'
      exact absurd h10' (by decide)
    rw [List.getD_eq_getElem _ _ hlt] at h13
    rw [List.getD_eq_getElem _ _ hlt'] at h10'
    refine ⟨c.request.drop (i + 2), ?_⟩
    rw [List.drop_eq_getElem_cons hlt, List.drop_eq_getElem_cons hlt', h13, h10']
  · rintro ⟨rest, hrest⟩
    have hlength := congrArg List.length hrest
    simp only [List.length_drop, List.length_cons] at hlength
    have hget : ∀ k, c.request.getD (i + k) 0 = (13 :: 10 :: rest).getD k 0 := by
      intro k
      rw [← hrest, List.getD_eq_getElem?_getD, List.getD_eq_getElem?_getD, List.getElem?_drop]
    have h13 : c.request.getD i 0 = 13 := hget 0
    have h10 : c.request.getD (i + 1) 0 = 10 := hget 1
    refine ⟨h13, ?_⟩
    have hbyte := (byteAt_eq (c := c) (i := i + 1) (by omega)).trans h10
    exact_mod_cast hbyte

/-- Only the write buffer is touched by an answer. -/
theorem respond_eq {ssl : Openssl} {c c' : Conn} {linebuf : List UInt8}
    (h : c.respond ssl linebuf = .ok c') :
    ∃ wbuffer wlength, c' = { c with wbuffer := wbuffer, wlength := wlength } := by
  unfold respond at h
  split at h
  · cases h
  obtain ⟨secAccept, -, h⟩ := exists_of_bind_eq_ok h
  obtain ⟨wbuffer, -, h⟩ := exists_of_bind_eq_ok h
  obtain rfl := Except.ok.inj h
  exact ⟨_, _, rfl⟩

/-- **The handshake finds a key exactly where a line names one.** -/
theorem handshakeLoop_eq {ssl : Openssl} {c c' : Conn} {fuel idx : ℕ} {found : Bool}
    (hidx : idx ≤ c.request.length) (h : c.handshakeLoop ssl fuel idx = .ok (found, c')) :
    (found = true ↔ ∃ line ∈ headerLines (c.request.drop idx), ascii "Sec-WebSocket-Key" <:+: line)
      ∧ ∃ wbuffer wlength, c' = { c with wbuffer := wbuffer, wlength := wlength } := by
  induction fuel generalizing idx with
  | zero => cases h
  | succ fuel ih =>
    unfold handshakeLoop at h
    obtain ⟨l, hread⟩ := readline_eq hidx
    rcases hread with ⟨hread, hsplit⟩ | ⟨hread, hidx', hsplit⟩
    · -- this is the last line
      have hlines : headerLines (c.request.drop idx) = [l] := by
        unfold headerLines
        rw [hsplit]
        rfl
      simp only [hread, hlines, List.mem_singleton, exists_eq_left] at h ⊢
      split at h
      · cases h
      split at h
      · cases h
      split at h
      · next hkey =>
        obtain ⟨c₁, hrespond, h⟩ := exists_of_bind_eq_ok h
        obtain ⟨rfl, rfl⟩ := Prod.mk.inj (Except.ok.inj h)
        exact ⟨iff_of_true rfl hkey, respond_eq hrespond⟩
      · next hkey =>
        rw [if_neg (fun hloop => hloop.2 rfl)] at h
        obtain ⟨rfl, rfl⟩ := Prod.mk.inj (Except.ok.inj h)
        exact ⟨iff_of_false Bool.false_ne_true hkey, _, _, rfl⟩
    · have hlines : headerLines (c.request.drop idx)
          = l :: (splitLines (c.request.drop (idx + (l.length + 2)))).takeWhile (· ≠ []) := by
        unfold headerLines
        rw [hsplit]
        rfl
      simp only [hread, hlines, List.mem_cons, exists_eq_or_imp] at h ⊢
      split at h
      · cases h
      split at h
      · cases h
      split at h
      · next hkey =>
        obtain ⟨c₁, hrespond, h⟩ := exists_of_bind_eq_ok h
        obtain ⟨rfl, rfl⟩ := Prod.mk.inj (Except.ok.inj h)
        exact ⟨iff_of_true rfl (Or.inl hkey), respond_eq hrespond⟩
      · next hkey =>
        rw [or_iff_right hkey]
        by_cases hend : ∃ rest, c.request.drop (idx + (l.length + 2)) = 13 :: 10 :: rest
        · rw [if_neg (fun hloop => (atEnd_iff hidx').mpr hend hloop.1)] at h
          obtain ⟨rfl, rfl⟩ := Prod.mk.inj (Except.ok.inj h)
          refine ⟨iff_of_false Bool.false_ne_true ?_, _, _, rfl⟩
          obtain ⟨rest, hrest⟩ := hend
          rintro ⟨line, hmem, -⟩
          rw [hrest] at hmem
          exact absurd hmem List.not_mem_nil
        · have hgo := not_not.mp (mt (atEnd_iff hidx').mp hend)
          rw [if_pos ⟨hgo, by omega⟩, Int.toNat_natCast] at h
          rw [← exists_mem_headerLines hend (by decide)]
          exact ih hidx' h

/-- **`handshake` writes a 101 response exactly where the request names a key.** -/
theorem handshake_eq {ssl : Openssl} {c c' : Conn} {found : Bool}
    (h : c.handshake ssl = .ok (found, c')) :
    (found = true ↔ ∃ line ∈ headerLines c.request, ascii "Sec-WebSocket-Key" <:+: line)
      ∧ ∃ wbuffer wlength, c' = { c with wbuffer := wbuffer, wlength := wlength } :=
  handshakeLoop_eq (Nat.zero_le _) h

/-- **What was received is the request.** -/
theorem request_eq {c : Conn} (message : List UInt8) (hlength : message.length ≤ BUFFER_LENGTH)
    (hrbuffer : c.rbuffer = message ++ zeroed (BUFFER_LENGTH - message.length))
    (hrlength : c.rlength = message.length) : c.request = cstring message := by
  unfold request
  rw [hrbuffer, hrlength]
  rcases hlength.lt_or_eq with hlt | heq
  · have hzeroed : zeroed (BUFFER_LENGTH - message.length)
        = 0 :: zeroed (BUFFER_LENGTH - message.length - 1) := by
      obtain ⟨n, hn⟩ := Nat.exists_eq_succ_of_ne_zero (Nat.sub_ne_zero_of_lt hlt)
      rw [hn]
      rfl
    rw [hzeroed, List.append_assoc]
    exact cstring_append_zero _ _
  · -- behind a full buffer lies the lowest byte of its length, which is zero
    rw [heq, Nat.sub_self]
    show cstring (message ++ [] ++ 0 :: [16, 0, 0]) = _
    rw [List.append_nil]
    exact cstring_append_zero _ _

end Conn

/-! ## What is handled without a fault -/

/-- A copy that fits. -/
theorem memcpy_eq {buffer bytes : List UInt8} {offset : ℕ}
    (h : offset + bytes.length ≤ buffer.length) :
    ∃ buffer', memcpy buffer offset bytes = .ok buffer' ∧ buffer'.length = buffer.length := by
  refine ⟨_, if_neg (not_lt.mpr h), ?_⟩
  rw [List.length_append, List.length_append, List.length_take, List.length_drop]
  omega

/-- **A frame is always taken for a short one**: the mask bit is never 126 or 127. -/
theorem decodePacket_short {stream : List UInt8} (h : stream.length = BUFFER_LENGTH) :
    decodePacket stream = .ok ((stream.drop 2).take 4, 6, ((stream.getD 1 0 &&& 0x7F).toNat : ℤ),
      demask stream 6 (stream.getD 1 0 &&& 0x7F).toNat ((stream.drop 2).take 4)) := by
  have hbit : ((stream.getD 1 0 >>> 7) &&& 0x7F).toNat ≤ 1 := by
    have hlt := (stream.getD 1 0).toNat_lt
    have hshift : (stream.getD 1 0 >>> 7).toNat ≤ 1 := by
      rw [UInt8.toNat_shiftRight]
      show (stream.getD 1 0).toNat >>> 7 ≤ 1
      rw [Nat.shiftRight_eq_div_pow]
      omega
    rw [UInt8.toNat_and]
    exact Nat.and_le_left.trans hshift
  have h126 : (stream.getD 1 0 >>> 7) &&& 0x7F ≠ 126 := fun he => by
    rw [he] at hbit
    exact absurd hbit (by decide)
  have h127 : (stream.getD 1 0 >>> 7) &&& 0x7F ≠ 127 := fun he => by
    rw [he] at hbit
    exact absurd hbit (by decide)
  have hsize : (stream.getD 1 0 &&& 0x7F).toNat < 128 := by
    rw [UInt8.toNat_and]
    exact Nat.and_le_right.trans_lt (by decide)
  unfold decodePacket
  simp only [if_neg h126, if_neg h127]
  refine if_neg ?_
  have hlength : stream.length = 4096 := h
  omega

/-- **A frame is always decoded**, and is not longer than 127 bytes. -/
theorem decodePacket_eq {stream : List UInt8} (h : stream.length = BUFFER_LENGTH) :
    ∃ (mask : List UInt8) (size : ℕ) (stream' : List UInt8),
      decodePacket stream = .ok (mask, 6, size, stream') ∧ mask.length ≤ 4 ∧ size < 128 := by
  refine ⟨_, _, _, decodePacket_short h, List.length_take_le .., ?_⟩
  rw [UInt8.toNat_and]
  exact Nat.and_le_right.trans_lt (by decide)

/-- **A payload shorter than that is always encoded.** -/
theorem encodePacket_eq (stream : List UInt8) {buffer mask : List UInt8} {length : ℕ}
    (hbuffer : buffer.length = BUFFER_LENGTH) (hmask : mask.length ≤ 4) (hlength : length < 128) :
    ∃ buffer', encodePacket buffer mask stream length = .ok (length + 2, buffer') := by
  have hcopy : ∀ {buffer : List UInt8} (offset : ℕ) (bytes : List UInt8), buffer.length = 4096 →
      offset + bytes.length ≤ 4096 →
      ∃ buffer', memcpy buffer offset bytes = .ok buffer' ∧ buffer'.length = 4096 := by
    intro buffer offset bytes hbuffer hle
    obtain ⟨buffer', hcopy, hbuffer'⟩ := memcpy_eq (hle.trans hbuffer.ge)
    exact ⟨buffer', hcopy, hbuffer'.trans hbuffer⟩
  have hstream : 2 + (stream.take length).length ≤ 4096 := by
    rw [List.length_take]
    omega
  unfold encodePacket
  by_cases hshort : length < 126
  · obtain ⟨b₁, hb₁, hlen₁⟩ := hcopy 0 [0x81, (length % 128).toUInt8] hbuffer
      (show 2 ≤ 4096 by decide)
    obtain ⟨b₂, hb₂, -⟩ := hcopy _ _ hlen₁ hstream
    rw [if_pos hshort]
    exact ⟨b₂, bind_ok hb₁ (bind_ok hb₂ rfl)⟩
  · have hhead : 2 + (littleEndian 2 length ++ mask ++ zeroed 8).length ≤ 4096 := by
      rw [List.length_append, List.length_append, length_littleEndian]
      have hzeroed : (zeroed 8).length = 8 := rfl
      omega
    obtain ⟨b₁, hb₁, hlen₁⟩ := hcopy 0 [0x81, 0] hbuffer (by decide)
    obtain ⟨b₂, hb₂, hlen₂⟩ := hcopy _ _ hlen₁ hhead
    obtain ⟨b₃, hb₃, -⟩ := hcopy _ _ hlen₂ hstream
    rw [if_neg hshort, if_pos (by omega)]
    exact ⟨b₃, bind_ok (bind_ok hb₁ hb₂) (bind_ok hb₃ rfl)⟩

/-- **A frame is always answered.** -/
theorem wsRequest_frame (ssl : Openssl) {c : Conn} (hstatus : c.status = 1)
    (hrbuffer : c.rbuffer.length = BUFFER_LENGTH) (hwbuffer : c.wbuffer.length = BUFFER_LENGTH) :
    ∃ c', wsRequest ssl c = .ok (false, c') := by
  obtain ⟨mask, size, rbuffer, hdecode, hmask, hsize⟩ := decodePacket_eq hrbuffer
  obtain ⟨wbuffer, hencode⟩ := encodePacket_eq (rbuffer.drop 6) hwbuffer hmask hsize
  refine ⟨{ c with rbuffer := rbuffer, wbuffer := wbuffer, wlength := size + 2 }, ?_⟩
  unfold wsRequest
  rw [if_neg (by rw [hstatus]; exact one_ne_zero), if_pos hstatus]
  refine bind_ok hdecode ?_
  simp only [if_neg (Int.natCast_nonneg size).not_gt, Int.toNat_natCast]
  exact bind_ok hencode rfl

/-- A first message of one line that names no key is handled, and not answered. -/
theorem wsRequest_line (ssl : Openssl) {c : Conn} {line : List UInt8} (hstatus : c.status = 0)
    (hread : readline c.request 0 = (-1, line)) (hshort : line.length < 1024)
    (hkey : ¬ ascii "Sec-WebSocket-Key" <:+: line) :
    wsRequest ssl c = .ok (false, { c with status := 1 }) := by
  have hshake : c.handshake ssl = .ok (false, c) := by
    show c.handshakeLoop ssl (4096 + 1) 0 = _
    unfold Conn.handshakeLoop
    simp only [hread, if_neg hshort.le.not_gt, if_neg hshort.ne, if_neg hkey]
    exact if_neg (fun hloop => hloop.2 rfl)
  unfold wsRequest
  rw [if_pos hstatus]
  exact bind_ok hshake rfl

/-- One that names a key is answered, if the answer can be computed. -/
theorem wsRequest_key {ssl : Openssl} {c : Conn} {line secAccept : List UInt8} (hstatus : c.status = 0)
    (hread : readline c.request 0 = (-1, line)) (hshort : line.length < 900)
    (hkey : ascii "Sec-WebSocket-Key" <:+: line)
    (haccept : base64Encode ssl (cstring (ssl.sha1 ((line ++ GUID).drop WEBSOCK_KEY_LENGTH)))
      = .ok secAccept) (hsecAccept : secAccept.length < 32) :
    ∃ c', wsRequest ssl c = .ok (true, c') ∧ c'.status = 1 ∧ c'.wbuffer.length = BUFFER_LENGTH
      ∧ c'.rAction = c.rAction ∧ c'.sendCallback = c.sendCallback := by
  have hguid : GUID.length = 36 := rfl
  have htext : (switchingProtocols secAccept ++ [0]).length = secAccept.length + 102 := by
    have hhead : (ascii "HTTP/1.1 101 Switching Protocols\r\nUpgrade: websocket\r\nConnection: Upgrade\r\n").length
      = 75 := by decide
    have hname : (ascii "Sec-WebSocket-Accept: ").length = 22 := by decide
    have hend : (ascii "\r\n\r\n").length = 4 := by decide
    unfold switchingProtocols
    simp only [List.length_append, hhead, hname, hend, List.length_singleton]
    omega
  have hzeroed : (zeroed BUFFER_LENGTH).length = 4096 := List.length_replicate
  obtain ⟨wbuffer, hcopy, hwbuffer⟩ := memcpy_eq
    (show 0 + (switchingProtocols secAccept ++ [0]).length ≤ (zeroed BUFFER_LENGTH).length by omega)
  have hrespond : c.respond ssl line
      = .ok { c with wbuffer := wbuffer, wlength := (switchingProtocols secAccept).length } := by
    unfold Conn.respond
    rw [if_neg (by omega)]
    exact bind_ok haccept (bind_ok hcopy rfl)
  have hshake : c.handshake ssl
      = .ok (true, { c with wbuffer := wbuffer, wlength := (switchingProtocols secAccept).length }) := by
    show c.handshakeLoop ssl (4096 + 1) 0 = _
    unfold Conn.handshakeLoop
    have hlong : ¬ 1024 < line.length := by omega
    have hfull : line.length ≠ 1024 := by omega
    simp only [hread, if_neg hlong, if_neg hfull, if_pos hkey]
    exact bind_ok hrespond rfl
  refine ⟨{ c with
    wbuffer := wbuffer
    wlength := (switchingProtocols secAccept).length
    status := 1 }, ?_, rfl, hwbuffer.trans hzeroed, rfl, rfl⟩
  unfold wsRequest
  rw [if_pos hstatus]
  exact bind_ok hshake rfl

/-- **All that `ws_request` does to a connection**, as far as its state goes. -/
theorem wsRequest_eq {ssl : Openssl} {c c' : Conn} {switched : Bool}
    (h : wsRequest ssl c = .ok (switched, c')) :
    c'.rAction = c.rAction ∧ c'.sendCallback = c.sendCallback
    ∧ ((c.status = 0 ∧ c'.status = 1
        ∧ (switched = true ↔ ∃ line ∈ headerLines c.request, ascii "Sec-WebSocket-Key" <:+: line))
      ∨ (c.status ≠ 0 ∧ c'.status = c.status ∧ switched = false)) := by
  unfold wsRequest at h
  split at h
  · next hstatus =>
    obtain ⟨⟨found, c₁⟩, hshake, h⟩ := exists_of_bind_eq_ok h
    obtain ⟨rfl, rfl⟩ := Prod.mk.inj (Except.ok.inj h)
    obtain ⟨hfound, wbuffer, wlength, rfl⟩ := Conn.handshake_eq hshake
    exact ⟨rfl, rfl, Or.inl ⟨hstatus, rfl, hfound⟩⟩
  · next hstatus =>
    split at h
    · obtain ⟨⟨mask, start, ret, rbuffer⟩, -, h⟩ := exists_of_bind_eq_ok h
      simp only at h
      split at h
      · cases h
      obtain ⟨⟨ret', wbuffer⟩, -, h⟩ := exists_of_bind_eq_ok h
      obtain ⟨rfl, rfl⟩ := Prod.mk.inj (Except.ok.inj h)
      exact ⟨rfl, rfl, Or.inr ⟨hstatus, rfl, rfl⟩⟩
    · obtain ⟨rfl, rfl⟩ := Prod.mk.inj (Except.ok.inj h)
      exact ⟨rfl, rfl, Or.inr ⟨hstatus, rfl, rfl⟩⟩

end Websocket
