import LinuxLearn.Bytes
import LinuxLearn.KvsProtocol
import LinuxLearn.Simulation

/-!
# The HTTP client

`http_send_request`, in `httprequest.c` and `xinzhi_httprequest.c`: a request is
sent, and what comes back is collected until the server closes the connection or
is silent. The two differ in the request only.

What is collected is a string on the heap. For each chunk that is received it is
made longer by the length of the chunk, cleared, and then the chunk is appended
to it. It is cleared over its whole new length, so what is appended to is the
empty string, and the last chunk is all that is returned (`loop_chunks`).

The host is known and connected to. The memory behind `malloc(0)` is whatever
the allocator gives.
-/

namespace HttpClient

/-- `BUFFER_SIZE`. -/
def BUFFER_SIZE : ℕ := 4096

/-- **Why there is no result**: memory is written or read past its end, a null pointer is
followed, or there is more to come. -/
inductive Stop where
  | overflow
  | overread
  | null
  | unfinished
deriving DecidableEq

/-! ## Strings in memory -/

/-- **`strlen`** of what a block begins with. -/
def strlen (block : List UInt8) : Except Stop ℕ :=
  match stringAt block 0 with
  | some s => .ok s.strlen
  | none => .error .overread

/-- Bytes are written into a block. -/
def put (block : List UInt8) (i : ℕ) (bytes : List UInt8) : Except Stop (List UInt8) :=
  if i + bytes.length ≤ block.length then
    .ok (block.take i ++ bytes ++ block.drop (i + bytes.length))
  else .error .overflow

/-- **`realloc`** to `n` bytes, if there is memory: behind what the block had is what is in
the memory already. Nothing is left of a block of no bytes. -/
def realloc (memory : Option Bytes) (block : List UInt8) (n : ℕ) : Except Stop (List UInt8) :=
  match memory with
  | none => .error .null
  | some m =>
    if n = 0 then .error .null else .ok (block.take n ++ m.load block.length (n - block.length))

/-- **`memset`** to 0. -/
def memset (block : List UInt8) (n : ℕ) : Except Stop (List UInt8) :=
  put block 0 (List.replicate n 0)

/-- **`strncat`**, of at most `n` bytes. -/
def strncat (dest src : List UInt8) (n : ℕ) : Except Stop (List UInt8) := do
  let m ← strlen dest
  put dest m ((CString.ofBytes (src.take n)).bytes ++ [0])

/-! ## The client -/

/-- The two programs. -/
inductive Client where
  | httprequest
  | xinzhi

/-- **The request** of each of them. -/
def Client.request (hostname resource : CString) : Client → List UInt8
  | httprequest => ascii "GET " ++ resource.bytes ++ ascii " HTTP/1.1\r\n"
      ++ ascii "Host: " ++ hostname.bytes ++ ascii "\r\n"
      ++ ascii "Connection: close\r\n" ++ ascii "\r\n"
      ++ ascii "\r\n"
  | xinzhi => ascii "GET " ++ resource.bytes ++ ascii " HTTP/1.1\r\n"
      ++ ascii "Host: " ++ hostname.bytes ++ ascii "\r\n"
      ++ ascii "\r\n"

/-- **A round of the loop**: `select` finds nothing to read, or `recv` returns bytes (none at
the end of the stream) or an error, with the memory that `realloc` gives then. -/
inductive Round where
  | quiet
  | recv (bytes : {bs : List UInt8 // bs.length ≤ BUFFER_SIZE}) (memory : Option Bytes)
  | failed (memory : Option Bytes)

/-- `strlen(result) + len + 1`; `len` is -1 after an error. -/
def size (n : ℕ) (len : ℤ) : ℕ := (n + len + 1).toNat

/-- **What the loop does with what it received**, in a buffer that was cleared. -/
def collect (result bytes : List UInt8) (len : ℤ) (memory : Option Bytes) :
    Except Stop (List UInt8) := do
  let buffer := bytes ++ List.replicate (BUFFER_SIZE - bytes.length) 0
  let n ← strlen result
  let result ← realloc memory result (size n len)
  let n ← strlen result
  let result ← memset result (size n len)
  strncat result buffer (len % 2 ^ 64).toNat

/-- **The loop of `http_send_request`.** -/
def loop : List Round → List UInt8 → Except Stop (List UInt8)
  | [], _ => .error .unfinished
  | .quiet :: _, result => .ok result
  | .recv bytes memory :: rounds, result =>
    if bytes.val.length = 0 then .ok result
    else do
      let result ← collect result bytes.val bytes.val.length memory
      loop rounds result
  | .failed memory :: rounds, result => do
    let result ← collect result [] (-1) memory
    loop rounds result

/-- **`http_send_request`**, with the block that `malloc(0)` returns, if it is not null. -/
def httpSendRequest (client : Client) (hostname resource : CString) (block : Option (List UInt8))
    (rounds : List Round) : Except Stop (List UInt8) :=
  if BUFFER_SIZE < (client.request hostname resource).length + 1 then .error .overflow
  else
    match block with
    | none => .error .null
    | some block => do
      let result ← put block 0 [0]
      loop rounds result

/-! ## What is returned -/

/-- **A chunk of the response**: bytes that one `recv` returns, none of them NUL. -/
structure Chunk where
  bytes : List UInt8
  ne_nil : bytes ≠ []
  length_le : bytes.length ≤ BUFFER_SIZE
  nul_free : (0 : UInt8) ∉ bytes

/-- A chunk as a string. -/
def Chunk.text (c : Chunk) : CString := ⟨c.bytes, c.nul_free⟩

/-- **The last chunk**, or the empty string if there is none. -/
def lastChunk (chunks : List (Chunk × Bytes)) : CString :=
  (chunks.map (fun c => c.1.text)).getLastD ⟨[], List.not_mem_nil⟩

/-- **The chunks are received**, each with the memory that `realloc` finds then, and then
the end of the stream. -/
def rounds (chunks : List (Chunk × Bytes)) : List Round :=
  chunks.map (fun c => .recv ⟨c.1.bytes, c.1.length_le⟩ (some c.2))
    ++ [.recv ⟨[], Nat.zero_le _⟩ none]

/-- **The whole response is returned.** -/
def ReturnsWhole (client : Client) (hostname resource : CString) (block : Option (List UInt8))
    (chunks : List (Chunk × Bytes)) : Prop :=
  ∃ result s, httpSendRequest client hostname resource block (rounds chunks) = .ok result
    ∧ stringAt result 0 = some s ∧ s.bytes = (chunks.map (fun c => c.1.bytes)).flatten

section Collect

variable {client : Client} {hostname resource s : CString} {block result : List UInt8}
  {chunks : List (Chunk × Bytes)} {c : Chunk} {m : Bytes}

theorem strlen_eq (h : stringAt block 0 = some s) : strlen block = .ok s.strlen := by
  unfold strlen
  rw [h]

/-- A block that becomes longer begins with the same string. -/
theorem exists_realloc (h : stringAt block 0 = some s) {n : ℕ} (hn : s.strlen < n) :
    ∃ block', realloc (some m) block n = .ok block' ∧ block'.length = n
      ∧ stringAt block' 0 = some s := by
  obtain ⟨rest, rfl⟩ := stringAt_eq_some_iff.mp h
  unfold CString.strlen at hn
  obtain ⟨k, hk⟩ : ∃ k, n - s.bytes.length = k + 1 := Nat.exists_eq_succ_of_ne_zero (by omega)
  have htake : (s.bytes ++ 0 :: rest).take n = s.bytes ++ 0 :: rest.take k := by
    rw [List.take_append, List.take_of_length_le (by omega), hk, List.take_succ_cons]
  refine ⟨_, if_neg (by omega), ?_, ?_⟩
  · rw [List.length_append, List.length_take, Bytes.length_load]
    omega
  · rw [htake, List.append_assoc, List.cons_append]
    exact stringAt_eq_some_iff.mpr ⟨_, rfl⟩

/-- **A chunk takes the place of what there was.** -/
theorem exists_collect (h : stringAt result 0 = some s) (c : Chunk) (m : Bytes) :
    ∃ result', collect result c.bytes c.bytes.length (some m) = .ok result'
      ∧ stringAt result' 0 = some c.text := by
  have hsize : size s.strlen c.bytes.length = s.strlen + c.bytes.length + 1 := by
    unfold size
    omega
  obtain ⟨block, hrealloc, hlength, hblock⟩ :=
    exists_realloc (m := m) h (show s.strlen < s.strlen + c.bytes.length + 1 by omega)
  have hmemset : memset block (s.strlen + c.bytes.length + 1)
      = .ok (List.replicate (s.strlen + c.bytes.length + 1) 0) := by
    unfold memset put
    rw [List.length_replicate, if_pos (by omega), List.take_zero, List.nil_append,
      List.drop_of_length_le (by omega), List.append_nil]
  have hlen : ((c.bytes.length : ℤ) % 2 ^ 64).toNat = c.bytes.length := by
    have hle := c.length_le
    unfold BUFFER_SIZE at hle
    rw [Int.emod_eq_of_lt (by omega) (by omega), Int.toNat_natCast]
  -- the string that is appended to is empty now
  have hempty : stringAt (List.replicate (s.strlen + c.bytes.length + 1) 0) 0
      = some ⟨[], List.not_mem_nil⟩ :=
    stringAt_eq_some_iff.mpr ⟨_, List.replicate_succ⟩
  have hbytes : (CString.ofBytes ((c.bytes ++ List.replicate (BUFFER_SIZE - c.bytes.length) 0).take
      c.bytes.length)).bytes = c.bytes := by
    rw [List.take_left]
    exact congrArg CString.bytes c.text.ofBytes_bytes
  refine ⟨c.bytes ++ 0 :: List.replicate s.strlen 0, ?_, stringAt_eq_some_iff.mpr ⟨_, rfl⟩⟩
  refine bind_ok (strlen_eq h) ?_
  rw [hsize]
  refine bind_ok hrealloc (bind_ok (strlen_eq hblock) ?_)
  rw [hsize]
  refine bind_ok hmemset ?_
  unfold strncat
  rw [hlen, hbytes]
  refine bind_ok (strlen_eq hempty) ?_
  show put _ 0 _ = _
  unfold put
  rw [List.length_append, List.length_singleton, List.length_replicate, if_pos (by omega),
    List.take_zero, List.nil_append, Nat.zero_add, List.drop_replicate, List.append_assoc]
  refine congrArg (fun k => Except.ok (c.bytes ++ 0 :: List.replicate k 0)) ?_
  omega

/-- **The last chunk is what is collected**, or what there was before the first. -/
theorem loop_chunks (chunks : List (Chunk × Bytes)) (h : stringAt result 0 = some s) :
    ∃ result', loop (rounds chunks) result = .ok result'
      ∧ stringAt result' 0 = some ((chunks.map (fun c => c.1.text)).getLastD s) := by
  induction chunks generalizing result s with
  | nil => exact ⟨result, rfl, h⟩
  | cons c chunks ih =>
    obtain ⟨result₁, hcollect, h₁⟩ := exists_collect h c.1 c.2
    obtain ⟨result₂, hloop, h₂⟩ := ih h₁
    refine ⟨result₂, ?_, ?_⟩
    · show (if c.1.bytes.length = 0 then _ else _) = _
      rw [if_neg (fun h0 => c.1.ne_nil (List.length_eq_zero_iff.mp h0))]
      exact bind_ok hcollect hloop
    · rw [List.map_cons, List.getLastD_cons]
      exact h₂

/-- **The request is sent and the last chunk is returned**, if the request fits the buffer
and `malloc(0)` returns memory. -/
theorem httpSendRequest_chunks (chunks : List (Chunk × Bytes))
    (hrequest : (client.request hostname resource).length < BUFFER_SIZE) (hblock : block ≠ []) :
    ∃ result, httpSendRequest client hostname resource (some block) (rounds chunks) = .ok result
      ∧ stringAt result 0 = some (lastChunk chunks) := by
  have hpos := List.length_pos_iff.mpr hblock
  have hput : put block 0 [0] = .ok (0 :: block.drop 1) := if_pos (by
    rw [List.length_singleton]
    omega)
  obtain ⟨result, hloop, hresult⟩ := loop_chunks chunks
    (stringAt_eq_some_iff.mpr ⟨block.drop 1, rfl⟩ :
      stringAt (0 :: block.drop 1) 0 = some ⟨[], List.not_mem_nil⟩)
  refine ⟨result, ?_, hresult⟩
  unfold httpSendRequest
  rw [if_neg (by omega)]
  exact bind_ok hput hloop

theorem lastChunk_concat (chunks : List (Chunk × Bytes)) (c : Chunk × Bytes) :
    lastChunk (chunks ++ [c]) = c.1.text := by
  unfold lastChunk
  rw [List.map_append, List.map_singleton, List.getLastD_concat]

/-- The last chunk is all of them only where there is no other. -/
theorem lastChunk_eq_flatten_iff :
    (lastChunk chunks).bytes = (chunks.map (fun c => c.1.bytes)).flatten ↔ chunks.length ≤ 1 := by
  rcases List.eq_nil_or_concat' chunks with rfl | ⟨before, c, rfl⟩
  · exact iff_of_true rfl (Nat.zero_le _)
  rw [lastChunk_concat, List.map_append, List.flatten_append, List.map_singleton,
    List.flatten_singleton, List.length_append, List.length_singleton]
  show c.1.bytes = _ ++ c.1.bytes ↔ _
  rw [List.self_eq_append_left, List.flatten_eq_nil_iff]
  constructor
  · intro h
    cases before with
    | nil => exact le_rfl
    | cons d before => exact absurd (h _ List.mem_cons_self) d.1.ne_nil
  · intro h
    obtain rfl := List.length_eq_zero_iff.mp (show before.length = 0 by omega)
    exact fun _ hl => absurd hl List.not_mem_nil

end Collect

/-- **The whole response is returned** where it comes in one chunk, or in none, if the request
fits the buffer and `malloc(0)` returns memory; and only there. -/
theorem returns_whole_iff (client : Client) (hostname resource : CString)
    (block : Option (List UInt8)) (chunks : List (Chunk × Bytes)) :
    ReturnsWhole client hostname resource block chunks
      ↔ (client.request hostname resource).length < BUFFER_SIZE
        ∧ (∃ b, block = some b ∧ b ≠ []) ∧ chunks.length ≤ 1 := by
  constructor
  · rintro ⟨result, s, hsend, hs, hbytes⟩
    have hrequest : (client.request hostname resource).length < BUFFER_SIZE := by
      by_contra hlong
      unfold httpSendRequest at hsend
      rw [if_pos (by omega)] at hsend
      cases hsend
    obtain ⟨b, rfl, hb⟩ : ∃ b, block = some b ∧ b ≠ [] := by
      unfold httpSendRequest at hsend
      rw [if_neg (by omega)] at hsend
      match block with
      | none => cases hsend
      | some [] => cases hsend
      | some (x :: b) => exact ⟨_, rfl, List.cons_ne_nil x b⟩
    obtain ⟨result', hsend', hresult⟩ := httpSendRequest_chunks chunks hrequest hb
    obtain rfl := Except.ok.inj (hsend'.symm.trans hsend)
    obtain rfl := Option.some.inj (hresult.symm.trans hs)
    exact ⟨hrequest, ⟨b, rfl, hb⟩, lastChunk_eq_flatten_iff.mp hbytes⟩
  · rintro ⟨hrequest, ⟨b, rfl, hb⟩, hone⟩
    obtain ⟨result, hsend, hresult⟩ := httpSendRequest_chunks chunks hrequest hb
    exact ⟨result, _, hsend, hresult, lastChunk_eq_flatten_iff.mpr hone⟩

/-- **Of a head and a body** that come one after the other, the body is returned. -/
theorem not_returns_whole : ¬ ReturnsWhole .httprequest ⟨ascii "a.com", by decide⟩
    ⟨ascii "/", by decide⟩ (some (List.replicate 24 0))
    [(⟨ascii "HTTP/1.1 200 OK\r\n\r\n", by decide, by decide, by decide⟩, fun _ => 0),
      (⟨ascii "hello", by decide, by decide, by decide⟩, fun _ => 0)] := by
  rintro ⟨result, s, hsend, hs, hbytes⟩
  have hrequest : (Client.httprequest.request ⟨ascii "a.com", by decide⟩
      ⟨ascii "/", by decide⟩).length < BUFFER_SIZE := by decide
  have hblock : List.replicate 24 (0 : UInt8) ≠ [] := by decide
  obtain ⟨result', hsend', hresult⟩ := httpSendRequest_chunks _ hrequest hblock
  obtain rfl := Except.ok.inj (hsend'.symm.trans hsend)
  obtain rfl := Option.some.inj (hresult.symm.trans hs)
  exact absurd hbytes (by decide)

end HttpClient
