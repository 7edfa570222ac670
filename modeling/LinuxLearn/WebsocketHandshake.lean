import LinuxLearn.Base64
import LinuxLearn.Websocket

/-!
# The handshake, from a request to its answer

`handshake` reads a request line by line, answers the first line that names a
key, and stops at an empty line.

The answer is to have the encoding of a digest in it. The digest is twenty
bytes, but `handshake` takes it for a string when it encodes it, so of a
digest with a NUL only the front is encoded (`accepts_iff`). That the key
line is found at all needs the lines before it to be text: without a NUL, and
none but the first of them empty.
-/

namespace Websocket

/-- What a line must contain to name a key. -/
abbrev KEY : List UInt8 := ascii "Sec-WebSocket-Key"

/-- The end of a line. -/
def crlf : List UInt8 := [13, 10]

/-- Lines as they are sent. -/
def lineText (lines : List (List UInt8)) : List UInt8 := lines.flatMap (· ++ crlf)

/-- The line with a key. -/
def keyLine (key : List UInt8) : List UInt8 := ascii "Sec-WebSocket-Key: " ++ key

/-- **A request** of lines that are not too long, the first of which that names a key is
the line for one. -/
structure Request where
  before : List (List UInt8)
  key : List UInt8
  after : List (List UInt8)
  line : ∀ l ∈ before ++ keyLine key :: after, ¬ crlf <:+: l ∧ l.length < 900
  first : ∀ l ∈ before, ¬ KEY <:+: l

/-- The bytes of a request. -/
def Request.text (r : Request) : List UInt8 := lineText (r.before ++ keyLine r.key :: r.after)

/-- **A message was received** into a read buffer that was zeroed. -/
structure Conn.Received (c : Conn) (message : List UInt8) : Prop where
  fits : message.length ≤ BUFFER_LENGTH
  rbuffer_eq : c.rbuffer = message ++ zeroed (BUFFER_LENGTH - message.length)
  rlength_eq : c.rlength = message.length

/-- **A request is answered** with the encoding of the whole digest of its key. -/
def Accepts (ssl : Openssl) (c : Conn) (key : List UInt8) : Prop :=
  ∃ c', c.handshake ssl = .ok (true, c')
    ∧ c'.wbuffer.take c'.wlength.toNat
      = switchingProtocols (Base64.encode (ssl.sha1 (key ++ GUID)))

/-- The key line is come to: no line before it has a NUL, and none but the first is empty. -/
def Request.Reached (r : Request) : Prop :=
  (∀ l ∈ r.before, (0 : UInt8) ∉ l) ∧ ∀ l ∈ r.before.tail, l ≠ []

instance (r : Request) : Decidable r.Reached :=
  inferInstanceAs (Decidable ((∀ l ∈ r.before, (0 : UInt8) ∉ l) ∧ ∀ l ∈ r.before.tail, l ≠ []))

/-! ## Reading the lines -/

section Lines

variable {l acc rest bytes text : List UInt8} {level : ℕ}

/-- A line is read up to its end. -/
theorem readlineLoop_line (h : ¬ crlf <:+: l) :
    readlineLoop (l ++ 13 :: 10 :: rest) level acc
      = (((level + (l.length + 2) : ℕ) : ℤ), acc ++ l) := by
  induction l generalizing level acc with
  | nil =>
    show (if (13 : UInt8) = 13 ∧ (10 : UInt8) = 10 then _ else _) = _
    rw [if_pos ⟨rfl, rfl⟩, List.append_nil]
    rfl
  | cons a l ih =>
    rw [List.infix_cons_iff, not_or] at h
    obtain ⟨b, tail, hb⟩ : ∃ b tail, l ++ 13 :: 10 :: rest = b :: tail := by
      cases l with
      | nil => exact ⟨_, _, rfl⟩
      | cons b l => exact ⟨_, _, rfl⟩
    have hab : ¬ (a = 13 ∧ b = 10) := by
      rintro ⟨rfl, rfl⟩
      cases l with
      | nil => exact absurd (List.cons.inj hb).1 (by decide)
      | cons c l =>
        obtain ⟨rfl, -⟩ := List.cons.inj hb
        exact h.1 ⟨l, rfl⟩
    have hstep : readlineLoop (a :: l ++ 13 :: 10 :: rest) level acc
        = readlineLoop (l ++ 13 :: 10 :: rest) (level + 1) (acc ++ [a]) := by
      rw [List.cons_append, hb]
      conv_lhs => unfold readlineLoop
      exact if_neg hab
    rw [hstep, ih h.2, List.append_assoc, List.length_cons]
    refine Prod.ext ?_ rfl
    show ((_ : ℕ) : ℤ) = ((_ : ℕ) : ℤ)
    congr 1
    omega

/-- Where no line ends, the rest is read. -/
theorem readlineLoop_last (h : ¬ crlf <:+: l) : readlineLoop l level acc = (-1, acc ++ l) := by
  induction l generalizing level acc with
  | nil => rw [List.append_nil]; rfl
  | cons a l ih =>
    rw [List.infix_cons_iff, not_or] at h
    cases l with
    | nil => rfl
    | cons b l =>
      have hab : ¬ (a = 13 ∧ b = 10) := by
        rintro ⟨rfl, rfl⟩
        exact h.1 ⟨l, rfl⟩
      have hstep : readlineLoop (a :: b :: l) level acc
          = readlineLoop (b :: l) (level + 1) (acc ++ [a]) := by
        conv_lhs => unfold readlineLoop
        exact if_neg hab
      rw [hstep, ih h.2, List.append_assoc]
      rfl

theorem cstring_append_of_notMem (h : (0 : UInt8) ∉ l) (rest : List UInt8) :
    cstring (l ++ rest) = l ++ cstring rest := by
  unfold cstring
  refine List.takeWhile_append_of_pos (fun b hb => ?_)
  have hb0 : b ≠ 0 := fun he => h (he ▸ hb)
  simpa using hb0

theorem cstring_append_of_mem (h : (0 : UInt8) ∈ l) (rest : List UInt8) :
    cstring (l ++ rest) = cstring l := by
  obtain ⟨pre, post, rfl⟩ := List.append_of_mem h
  rw [List.append_assoc, List.cons_append, cstring_append_zero, cstring_append_zero]

theorem cstring_isPrefix (l : List UInt8) : cstring l <+: l := List.takeWhile_prefix _

end Lines

/-! ## The answer -/

section Answer

variable {ssl : Openssl} {c : Conn} {fuel idx : ℕ} {next : ℤ}
  {l key rest message : List UInt8} {before after : List (List UInt8)}

/-- **Once round the loop of `handshake`**, with a line that fits. -/
theorem handshakeLoop_line (hread : readline c.request idx = (next, l)) (hshort : l.length < 1024) :
    c.handshakeLoop ssl (fuel + 1) idx
      = if KEY <:+: l then do
          let c ← c.respond ssl l
          return (true, c)
        else if (c.byteAt next ≠ 13 ∨ c.byteAt (next + 1) ≠ 10) ∧ next ≠ -1 then
          c.handshakeLoop ssl fuel next.toNat
        else .ok (false, c) := by
  have hlong : ¬ 1024 < l.length := by omega
  have hfull : l.length ≠ 1024 := by omega
  conv_lhs => unfold Conn.handshakeLoop
  simp only [hread, if_neg hlong, if_neg hfull]
  rfl

/-- The key line as a string ends where the key does. -/
theorem cstring_keyLine (key : List UInt8) : cstring (keyLine key) = keyLine (cstring key) :=
  cstring_append_of_notMem (by decide) key

theorem key_infix_keyLine (key : List UInt8) : KEY <:+: keyLine key := by
  have hsub : KEY <+: ascii "Sec-WebSocket-Key: " := by decide
  exact (hsub.trans (List.prefix_append _ _)).isInfix

theorem lineText_cons (l : List UInt8) (lines : List (List UInt8)) :
    lineText (l :: lines) = l ++ 13 :: 10 :: lineText lines := by
  unfold lineText crlf
  rw [List.flatMap_cons, List.append_assoc]
  rfl

/-- Behind a line, the headers end where the next line is empty. -/
theorem cstring_lineText_iff {lines : List (List UInt8)} (hl : ¬ crlf <:+: l) :
    (∃ rest, cstring (lineText (l :: lines)) = 13 :: 10 :: rest) ↔ l = [] := by
  rw [lineText_cons]
  constructor
  · rintro ⟨rest, hrest⟩
    by_contra hne
    cases l with
    | nil => exact hne rfl
    | cons a l =>
      have hhead : a = 13 := by
        by_cases ha : a = 0
        · subst ha
          rw [List.cons_append] at hrest
          cases (show [] = _ from hrest)
        · unfold cstring at hrest
          rw [List.cons_append, List.takeWhile_cons_of_pos (by simpa using ha)] at hrest
          exact (List.cons.inj hrest).1
      subst hhead
      unfold cstring at hrest
      rw [List.cons_append, List.takeWhile_cons_of_pos (by decide)] at hrest
      have htail := (List.cons.inj hrest).2
      cases l with
      | nil => exact absurd (List.cons.inj htail).1 (by decide)
      | cons b l =>
        by_cases hb : b = 0
        · subst hb
          cases (show [] = _ from htail)
        · rw [List.cons_append, List.takeWhile_cons_of_pos (by simpa using hb)] at htail
          obtain rfl := (List.cons.inj htail).1
          exact hl ⟨[], l, rfl⟩
  · rintro rfl
    exact ⟨cstring (lineText lines), rfl⟩

/-- Before the key line, the headers end where the next line is empty. -/
theorem cstring_before_iff (hline : ∀ l ∈ before ++ keyLine key :: after, ¬ crlf <:+: l) :
    (∃ rest, cstring (lineText (before ++ keyLine key :: after)) = 13 :: 10 :: rest)
      ↔ before.head? = some [] := by
  cases before with
  | nil =>
    rw [List.nil_append, cstring_lineText_iff (hline (keyLine key) List.mem_cons_self)]
    exact iff_of_false (List.cons_ne_nil _ _) (by simp)
  | cons l before =>
    rw [List.cons_append, cstring_lineText_iff (hline l List.mem_cons_self)]
    simp

/-- **The key line is read** up to its first NUL. -/
theorem readline_keyLine (hdrop : c.request.drop idx = cstring (lineText (keyLine key :: after)))
    (hend : ¬ crlf <:+: keyLine key) :
    ∃ next, readline c.request idx = (next, keyLine (cstring key)) := by
  unfold readline
  rw [hdrop, lineText_cons]
  by_cases hzero : (0 : UInt8) ∈ keyLine key
  · rw [cstring_append_of_mem hzero, cstring_keyLine]
    have hcut : ¬ crlf <:+: keyLine (cstring key) := fun h =>
      hend (h.trans (cstring_keyLine key ▸ cstring_isPrefix _).isInfix)
    exact ⟨-1, readlineLoop_last hcut⟩
  · have hkey : cstring key = key := by
      have hnul : (0 : UInt8) ∉ key := fun h => hzero (List.mem_append_right _ h)
      have happend := cstring_append_of_notMem hnul []
      rwa [List.append_nil, show cstring [] = [] from rfl, List.append_nil] at happend
    rw [cstring_append_of_notMem hzero, hkey]
    exact ⟨_, readlineLoop_line hend⟩

/-- **A line with a NUL** is the last that is read. -/
theorem readline_cut {lines : List (List UInt8)}
    (hdrop : c.request.drop idx = cstring (lineText (l :: lines))) (hend : ¬ crlf <:+: l)
    (hzero : (0 : UInt8) ∈ l) : readline c.request idx = (-1, cstring l) := by
  rw [lineText_cons, cstring_append_of_mem hzero] at hdrop
  unfold readline
  rw [hdrop]
  exact readlineLoop_last (fun h => hend (h.trans (cstring_isPrefix l).isInfix))

/-- **A line without one** is read, and those behind it are left. -/
theorem readline_whole {lines : List (List UInt8)}
    (hdrop : c.request.drop idx = cstring (lineText (l :: lines))) (hidx : idx ≤ c.request.length)
    (hend : ¬ crlf <:+: l) (hzero : (0 : UInt8) ∉ l) :
    readline c.request idx = (((idx + (l.length + 2) : ℕ) : ℤ), l)
      ∧ idx + (l.length + 2) ≤ c.request.length
      ∧ c.request.drop (idx + (l.length + 2)) = cstring (lineText lines) := by
  have hbehind : cstring (l ++ 13 :: 10 :: lineText lines) = l ++ 13 :: 10 :: cstring (lineText lines) :=
    cstring_append_of_notMem hzero _
  rw [lineText_cons, hbehind] at hdrop
  refine ⟨?_, ?_, ?_⟩
  · unfold readline
    rw [hdrop]
    exact readlineLoop_line hend
  · have hlength := congrArg List.length hdrop
    simp only [List.length_drop, List.length_append, List.length_cons] at hlength
    omega
  · have htwo : (13 :: 10 :: cstring (lineText lines)).drop 2 = cstring (lineText lines) := rfl
    rw [← List.drop_drop, ← List.drop_drop, hdrop, List.drop_left, htwo]

/-- **The loop comes to the key line**, unless a line before it has a NUL or is empty. -/
theorem handshakeLoop_before
    (hdrop : c.request.drop idx = cstring (lineText (before ++ keyLine key :: after)))
    (hidx : idx ≤ c.request.length) (hfuel : before.length < fuel)
    (hline : ∀ l ∈ before ++ keyLine key :: after, ¬ crlf <:+: l ∧ l.length < 900)
    (hfirst : ∀ l ∈ before, ¬ KEY <:+: l) :
    c.handshakeLoop ssl fuel idx
      = if (∀ l ∈ before, (0 : UInt8) ∉ l) ∧ ∀ l ∈ before.tail, l ≠ [] then do
          let c ← c.respond ssl (keyLine (cstring key))
          return (true, c)
        else .ok (false, c) := by
  obtain ⟨fuel, rfl⟩ := Nat.exists_eq_succ_of_ne_zero (Nat.ne_zero_of_lt hfuel)
  induction before generalizing fuel idx with
  | nil =>
    obtain ⟨hend, hshort⟩ := hline (keyLine key) List.mem_cons_self
    obtain ⟨next, hread⟩ := readline_keyLine hdrop hend
    have hlt : (keyLine (cstring key)).length < 1024 := by
      have hle := (cstring_isPrefix (keyLine key)).length_le
      rw [cstring_keyLine] at hle
      omega
    rw [handshakeLoop_line hread hlt, if_pos (key_infix_keyLine _), if_pos (by simp)]
  | cons l before ih =>
    obtain ⟨hend, hshort⟩ := hline l List.mem_cons_self
    have hkey := hfirst l List.mem_cons_self
    have hrest := fun x hx => hline x (List.mem_cons_of_mem l hx)
    rw [List.cons_append] at hdrop
    by_cases hzero : (0 : UInt8) ∈ l
    · -- the string ends in this line
      have hle := (cstring_isPrefix l).length_le
      rw [handshakeLoop_line (readline_cut hdrop hend hzero) (by omega),
        if_neg (fun h => hkey (h.trans (cstring_isPrefix l).isInfix)), if_neg (fun h => h.2 rfl),
        if_neg (fun h => h.1 l List.mem_cons_self hzero)]
    · obtain ⟨hread, hidx', hdrop'⟩ := readline_whole hdrop hidx hend hzero
      rw [handshakeLoop_line hread (by omega), if_neg hkey]
      -- the next line is looked at
      have hend' : (∃ rest, c.request.drop (idx + (l.length + 2)) = 13 :: 10 :: rest)
          ↔ before.head? = some [] := by
        rw [hdrop']
        exact cstring_before_iff (fun x hx => (hrest x hx).1)
      by_cases hempty : before.head? = some []
      · have hstop := (Conn.atEnd_iff hidx').mpr (hend'.mpr hempty)
        rw [if_neg (fun h => hstop h.1), if_neg]
        rintro ⟨-, hne⟩
        exact hne [] (List.mem_of_mem_head? hempty) rfl
      · have hgo := not_not.mp (mt (Conn.atEnd_iff hidx').mp (mt hend'.mp hempty))
        rw [if_pos ⟨hgo, by omega⟩, Int.toNat_natCast]
        obtain ⟨fuel, rfl⟩ := Nat.exists_eq_succ_of_ne_zero
          (Nat.ne_zero_of_lt (Nat.lt_of_succ_lt_succ hfuel))
        rw [ih hdrop' hidx' hrest (fun x hx => hfirst x (List.mem_cons_of_mem l hx)) fuel
          (Nat.lt_of_succ_lt_succ hfuel)]
        refine if_congr ?_ rfl rfl
        rw [List.forall_mem_cons, List.tail_cons, and_iff_right hzero]
        refine and_congr_right (fun _ => ⟨fun h x hx => ?_, fun h x hx => ?_⟩)
        · cases before with
          | nil => cases hx
          | cons l' before =>
            rcases List.mem_cons.mp hx with rfl | hx
            · exact fun he => hempty (he ▸ rfl)
            · exact h x hx
        · exact h x (List.mem_of_mem_tail hx)

theorem length_switchingProtocols (secAccept : List UInt8) :
    (switchingProtocols secAccept).length = secAccept.length + 101 := by
  have hhead : (ascii "HTTP/1.1 101 Switching Protocols\r\nUpgrade: websocket\r\nConnection: Upgrade\r\n").length
    = 75 := by decide
  have hname : (ascii "Sec-WebSocket-Accept: ").length = 22 := by decide
  have hend : (ascii "\r\n\r\n").length = 4 := by decide
  unfold switchingProtocols
  simp only [List.length_append, hhead, hname, hend]
  omega

theorem switchingProtocols_injective : Function.Injective switchingProtocols := by
  intro x y h
  unfold switchingProtocols at h
  exact List.append_cancel_left (List.append_cancel_right h)

theorem length_cstring_le (bytes : List UInt8) : (cstring bytes).length ≤ bytes.length :=
  (cstring_isPrefix bytes).length_le

theorem cstring_eq_self (h : (0 : UInt8) ∉ l) : cstring l = l := by
  have happend := cstring_append_of_notMem h []
  rwa [List.append_nil, show cstring [] = [] from rfl, List.append_nil] at happend

theorem zero_notMem_cstring (bytes : List UInt8) : (0 : UInt8) ∉ cstring bytes := by
  intro h
  simpa using List.mem_takeWhile_imp h

/-- **The encoding of a digest** as the handshake makes it: of what is before its first NUL. -/
theorem base64Encode_eq (hbase64 : ∀ m, ssl.base64 m = Base64.encode m ++ [10])
    (h : l.length ≤ 20) : base64Encode ssl l = .ok (Base64.encode l) := by
  have hlength : (Base64.encode l ++ [10]).length ≤ 32 := by
    rw [List.length_append, Base64.length_encode, List.length_singleton]
    omega
  unfold base64Encode
  simp only [hbase64]
  rw [if_neg (not_lt.mpr hlength), if_neg (by simp), List.dropLast_concat,
    cstring_eq_self (Base64.zero_notMem_encode l)]

/-- **A line with a key is answered.** -/
theorem respond_keyLine (hsha1 : ∀ m, (ssl.sha1 m).length = 20)
    (hbase64 : ∀ m, ssl.base64 m = Base64.encode m ++ [10]) (hkey : (keyLine key).length < 900) :
    ∃ c', c.respond ssl (keyLine key) = .ok c'
      ∧ c'.wbuffer.take c'.wlength.toNat
        = switchingProtocols (Base64.encode (cstring (ssl.sha1 (key ++ GUID)))) := by
  have hguid : GUID.length = 36 := rfl
  have hdata : (keyLine key ++ GUID).drop WEBSOCK_KEY_LENGTH = key ++ GUID := by
    unfold keyLine
    rw [List.append_assoc]
    exact List.drop_left' (by decide)
  set digest := cstring (ssl.sha1 (key ++ GUID)) with hdigest
  have hdigest20 : digest.length ≤ 20 := (length_cstring_le _).trans_eq (hsha1 _)
  set text := switchingProtocols (Base64.encode digest) with htext
  have hlength : text.length ≤ 129 := by
    rw [htext, length_switchingProtocols, Base64.length_encode]
    omega
  have hzeroed : (zeroed BUFFER_LENGTH).length = 4096 := List.length_replicate
  obtain ⟨wbuffer, hcopy, hwbuffer⟩ : ∃ wbuffer,
      memcpy (zeroed BUFFER_LENGTH) 0 (text ++ [0]) = .ok wbuffer
        ∧ wbuffer.take text.length = text := by
    refine ⟨_, if_neg (not_lt.mpr ?_), ?_⟩
    · rw [hzeroed, List.length_append, List.length_singleton]
      omega
    · rw [List.take_zero, List.nil_append, List.append_assoc]
      exact List.take_left' rfl
  refine ⟨{ c with wbuffer := wbuffer, wlength := text.length }, ?_, ?_⟩
  · unfold Conn.respond
    rw [if_neg (by omega), hdata]
    exact bind_ok (base64Encode_eq hbase64 hdigest20) (bind_ok hcopy rfl)
  · show wbuffer.take ((text.length : ℤ)).toNat = text
    rw [Int.toNat_natCast, hwbuffer]

/-- A line takes two bytes at least. -/
theorem length_le_lineText (lines : List (List UInt8)) : lines.length ≤ (lineText lines).length := by
  induction lines with
  | nil => exact le_rfl
  | cons l lines ih =>
    rw [lineText_cons]
    simp only [List.length_append, List.length_cons]
    omega

/-- The whole loop, for a request that was received. -/
theorem handshake_request (r : Request) (hreceived : c.Received r.text) :
    c.handshake ssl
      = if r.Reached then do
          let c ← c.respond ssl (keyLine (cstring r.key))
          return (true, c)
        else .ok (false, c) := by
  have hrequest : c.request = cstring r.text :=
    Conn.request_eq r.text hreceived.fits hreceived.rbuffer_eq hreceived.rlength_eq
  have hlines : r.before.length < BUFFER_LENGTH + 1 := by
    have hle := (length_le_lineText _).trans hreceived.fits
    rw [List.length_append, List.length_cons] at hle
    omega
  have hloop : c.handshakeLoop ssl (BUFFER_LENGTH + 1) 0 = _ :=
    handshakeLoop_before hrequest (Nat.zero_le _) hlines r.line r.first
  exact hloop.trans (if_congr Iff.rfl rfl rfl)

/-- **A request whose key line is come to is answered**, with the front of a digest. -/
theorem handshake_reached {r : Request} (hreceived : c.Received r.text) (hreached : r.Reached)
    (hsha1 : ∀ m, (ssl.sha1 m).length = 20)
    (hbase64 : ∀ m, ssl.base64 m = Base64.encode m ++ [10]) :
    ∃ c', c.handshake ssl = .ok (true, c')
      ∧ c'.wbuffer.take c'.wlength.toNat
        = switchingProtocols (Base64.encode (cstring (ssl.sha1 (cstring r.key ++ GUID)))) := by
  have hshort : (keyLine (cstring r.key)).length < 900 := by
    have hkey := (r.line (keyLine r.key) (by simp)).2
    have hle := length_cstring_le (keyLine r.key)
    rw [cstring_keyLine] at hle
    omega
  obtain ⟨c', hrespond, htext⟩ := respond_keyLine (c := c) hsha1 hbase64 hshort
  refine ⟨c', ?_, htext⟩
  rw [handshake_request r hreceived, if_pos hreached]
  exact bind_ok hrespond rfl

/-- **When a request is answered right**: where its key line is come to, and the digest of
its key has no NUL and is that of the key up to its first NUL. -/
theorem accepts_iff (r : Request) (hreceived : c.Received r.text)
    (hsha1 : ∀ m, (ssl.sha1 m).length = 20)
    (hbase64 : ∀ m, ssl.base64 m = Base64.encode m ++ [10]) :
    Accepts ssl c r.key ↔ r.Reached
      ∧ ssl.sha1 (cstring r.key ++ GUID) = ssl.sha1 (r.key ++ GUID)
      ∧ (0 : UInt8) ∉ ssl.sha1 (r.key ++ GUID) := by
  unfold Accepts
  by_cases hreached : r.Reached
  · obtain ⟨c', hok, htext⟩ := handshake_reached hreceived hreached hsha1 hbase64
    rw [hok, and_iff_right hreached]
    constructor
    · rintro ⟨c₁, hok₁, htext₁⟩
      obtain rfl : c' = c₁ := (Prod.mk.inj (Except.ok.inj hok₁)).2
      have hcut := Base64.encode_injective
        (switchingProtocols_injective (htext.symm.trans htext₁))
      have hwhole : cstring (ssl.sha1 (cstring r.key ++ GUID))
          = ssl.sha1 (cstring r.key ++ GUID) := by
        refine (cstring_isPrefix _).eq_of_length ?_
        rw [hcut, hsha1, hsha1]
      exact ⟨hwhole.symm.trans hcut, hcut ▸ zero_notMem_cstring _⟩
    · rintro ⟨hsame, hnul⟩
      refine ⟨c', rfl, ?_⟩
      rw [htext, hsame, cstring_eq_self hnul]
  · rw [handshake_request r hreceived, if_neg hreached]
    refine iff_of_false ?_ (fun h => hreached h.1)
    rintro ⟨c₁, hok₁, -⟩
    exact Bool.false_ne_true (Prod.mk.inj (Except.ok.inj hok₁)).1

end Answer

/-- A connection that has received a message. -/
def Conn.receiving (message : List UInt8) : Conn :=
  { Conn.zero with
    rbuffer := message ++ zeroed (BUFFER_LENGTH - message.length)
    rlength := message.length }

/-- OpenSSL, where only one digest is asked for. -/
def sampleSsl (digest : List UInt8) : Openssl := ⟨fun _ => digest, fun m => Base64.encode m ++ [10]⟩

/-- A request for a key whose digest has no NUL. -/
def sampleRequest : Request where
  before := [ascii "GET / HTTP/1.1"]
  key := ascii "dGhlIHNhbXBsZSBub25jZQ=="
  after := [[]]
  line := by decide
  first := by decide

/-- Its digest. -/
def sampleDigest : List UInt8 :=
  [179, 122, 79, 44, 192, 98, 79, 22, 144, 246, 70, 6, 207, 56, 89, 69, 178, 190, 196, 234]

/-- It is answered right. -/
theorem accepts_iff_sample :
    Accepts (sampleSsl sampleDigest) (Conn.receiving sampleRequest.text) sampleRequest.key :=
  (accepts_iff sampleRequest ⟨by decide, rfl, rfl⟩ (fun _ => rfl) (fun _ => rfl)).mpr
    ⟨by decide, rfl, by decide⟩

/-- A request for a key whose digest has a NUL. -/
def nulRequest : Request where
  before := [ascii "GET / HTTP/1.1"]
  key := ascii "AgICAgICAgICAgICAgICAg=="
  after := [[]]
  line := by decide
  first := by decide

/-- Its digest. -/
def nulDigest : List UInt8 :=
  [31, 20, 6, 185, 31, 252, 52, 217, 4, 147, 232, 0, 71, 176, 6, 69, 20, 20, 71, 146]

/-- **It is answered with the encoding of eleven bytes.** -/
theorem not_accepts :
    (∀ m, ((sampleSsl nulDigest).sha1 m).length = 20)
      ∧ (∀ m, (sampleSsl nulDigest).base64 m = Base64.encode m ++ [10])
      ∧ (Conn.receiving nulRequest.text).Received nulRequest.text
      ∧ ¬ Accepts (sampleSsl nulDigest) (Conn.receiving nulRequest.text) nulRequest.key := by
  have hreceived : (Conn.receiving nulRequest.text).Received nulRequest.text :=
    ⟨by decide, rfl, rfl⟩
  refine ⟨fun _ => rfl, fun _ => rfl, hreceived, ?_⟩
  rintro ⟨c₁, hok₁, htext₁⟩
  have hsha1 : ∀ m, ((sampleSsl nulDigest).sha1 m).length = 20 := fun _ => rfl
  obtain ⟨c', hok, htext⟩ := handshake_reached hreceived (by decide) hsha1 (fun _ => rfl)
  obtain rfl := (Prod.mk.inj (Except.ok.inj (hok.symm.trans hok₁))).2
  have hcut : cstring nulDigest = nulDigest :=
    Base64.encode_injective (switchingProtocols_injective (htext.symm.trans htext₁))
  exact absurd hcut (by decide)

end Websocket
