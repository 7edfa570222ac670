import LinuxLearn.WebsocketHandshake

/-!
# Where the handshake looks

The loop of `handshake` works on two arrays: `rbuffer` of 4096 bytes, where the
request is, and `linebuf` of 1024 bytes, where `readline` puts a line and the
GUID is put behind it. `handshakeRun` is that loop with every index it uses, and
comes to the same (`handshakeRun_snd`).

It always ends (`handshakeLoop_ends`). It stays inside the arrays where the
request is terminated, its lines are short enough and something stops it
before the lines end: a key or an empty line (`stays_inside_iff`). Otherwise
`readline` answers `-1`, and the loop looks there before it compares.
-/

namespace Websocket

/-- **An index that is used**: into `rbuffer`, or into `linebuf`. -/
inductive Access where
  | rbuffer (i : ℤ)
  | linebuf (i : ℕ)

/-- It is in the array. -/
def Access.Inside : Access → Prop
  | rbuffer i => 0 ≤ i ∧ i < 4096
  | linebuf i => i < 1024

/-- What the loop of `readline` uses, from position `level` of a string on, with so many
bytes already in the line: behind a CR it looks at the next byte, too. -/
def readlineAccesses : List UInt8 → ℕ → ℕ → List Access
  | [], _, _ => []
  | [a], level, k =>
    .rbuffer level :: (if a = 13 then [.rbuffer (level + 1)] else []) ++ [.linebuf k]
  | a :: b :: rest, level, k =>
    .rbuffer level :: (if a = 13 then [.rbuffer (level + 1)] else [])
      ++ (if a = 13 ∧ b = 10 then []
        else .linebuf k :: readlineAccesses (b :: rest) (level + 1) (k + 1))

namespace Conn

/-- `strlen` of the read buffer. -/
def strlenAccesses (c : Conn) : List Access :=
  (List.range (c.request.length + 1)).map (fun i : ℕ => .rbuffer i)

/-- The condition of the loop of `handshake`. -/
def conditionAccesses (c : Conn) (next : ℤ) : List Access :=
  .rbuffer next :: (if c.byteAt next = 13 then [.rbuffer (next + 1)] else [])

/-- **The loop of `handshake` with the indices it uses**, and what becomes of it. -/
def handshakeRun (ssl : Openssl) (c : Conn) :
    ℕ → ℕ → List Access × Except Fault (Bool × Conn)
  | 0, _ => ([], .error .endless)
  | fuel + 1, idx =>
    let (next, linebuf) := readline c.request idx
    let read := c.strlenAccesses ++ readlineAccesses (c.request.drop idx) idx 0
    if 1024 < linebuf.length then (read, .error .overflow)
    else
      -- `strstr` goes on to the NUL behind the line
      let searched := read ++ (List.range (linebuf.length + 1)).map (fun i => .linebuf i)
      if linebuf.length = 1024 then (searched, .error .overread)
      else if KEY <:+: linebuf then
        -- `strcat`
        (searched ++ (List.range (GUID.length + 1)).map (fun i => .linebuf (linebuf.length + i)),
          do
            let c ← c.respond ssl linebuf
            return (true, c))
      else
        let asked := searched ++ c.conditionAccesses next
        if (c.byteAt next ≠ 13 ∨ c.byteAt (next + 1) ≠ 10) ∧ next ≠ -1 then
          let (log, result) := handshakeRun ssl c fuel next.toNat
          (asked ++ log, result)
        else (asked, .ok (false, c))

end Conn

/-- **The handshake ends and stays inside its arrays.** -/
def StaysInside (ssl : Openssl) (c : Conn) : Prop :=
  c.handshake ssl ≠ .error .endless
    ∧ ∀ a ∈ (c.handshakeRun ssl (BUFFER_LENGTH + 1) 0).1, a.Inside

/-- **The lines of a text can be read**: those up to the first that names a key are shorter
than the buffer for a line, this one with the GUID behind it, and if none does, there is
an empty line to stop at. -/
def LinesFit (text : List UInt8) : Prop :=
  (∀ l ∈ (headerLines text).takeWhile (fun l => ¬ KEY <:+: l), l.length < 1024)
    ∧ match (headerLines text).find? (fun l => KEY <:+: l) with
      | some l => l.length + GUID.length < 1024
      | none => [] ∈ (splitLines text).tail.dropLast

section Lines

variable {l text text' : List UInt8} {ls : List (List UInt8)}

theorem headerLines_cons (h : splitLines text = l :: ls) :
    headerLines text = l :: ls.takeWhile (· ≠ []) := by
  unfold headerLines
  rw [h]
  rfl

theorem exists_splitLines_cons (text : List UInt8) : ∃ l ls, splitLines text = l :: ls := by
  obtain ⟨l, ⟨-, h⟩ | ⟨-, -, h⟩⟩ := readlineLoop_eq text 0 []
  · exact ⟨l, [], h⟩
  · exact ⟨l, _, h⟩

/-- A text whose first line is empty ends or starts with the end of it. -/
theorem splitLines_nil_cons (h : splitLines text = [] :: ls) :
    ls = [] ∨ ∃ rest, text = 13 :: 10 :: rest := by
  match text, h with
  | [], h => exact Or.inl (List.cons.inj h).2.symm
  | [a], h => cases (List.cons.inj h).1
  | a :: b :: rest, h =>
    by_cases hab : a = 13 ∧ b = 10
    · exact Or.inr ⟨rest, by rw [hab.1, hab.2]⟩
    · rw [splitLines_cons hab] at h
      obtain ⟨l', ls', hrest⟩ := exists_splitLines_cons (b :: rest)
      rw [hrest] at h
      cases (List.cons.inj h).1

/-- A first line with a key. -/
theorem linesFit_key (h : splitLines text = l :: ls) (hkey : KEY <:+: l) :
    LinesFit text ↔ l.length + GUID.length < 1024 := by
  unfold LinesFit
  rw [headerLines_cons h, List.takeWhile_cons_of_neg (by simpa using hkey),
    List.find?_cons_of_pos (by simpa using hkey)]
  exact and_iff_right (fun x hx => absurd hx List.not_mem_nil)

/-- The first line fits the buffer for it. -/
theorem LinesFit.length_lt (hfit : LinesFit text) (h : splitLines text = l :: ls) :
    l.length < 1024 := by
  by_cases hkey : KEY <:+: l
  · have hlt := (linesFit_key h hkey).mp hfit
    omega
  · have hshort := hfit.1
    rw [headerLines_cons h, List.takeWhile_cons_of_pos (by simpa using hkey)] at hshort
    exact hshort l List.mem_cons_self

/-- A first line without one that is the last. -/
theorem not_linesFit_last (h : splitLines text = [l]) (hkey : ¬ KEY <:+: l) : ¬ LinesFit text := by
  unfold LinesFit
  rw [headerLines_cons h, h, List.takeWhile_nil, List.find?_cons_of_neg (by simpa using hkey)]
  exact fun hfit => List.not_mem_nil hfit.2

/-- A first line without one, and an empty line behind it. -/
theorem linesFit_stop (h : splitLines text = l :: splitLines (13 :: 10 :: text'))
    (hkey : ¬ KEY <:+: l) : LinesFit text ↔ l.length < 1024 := by
  obtain ⟨l', ls', hrest⟩ := exists_splitLines_cons text'
  have hempty : splitLines (13 :: 10 :: text') = [] :: l' :: ls' := by
    rw [← hrest]
    exact if_pos ⟨rfl, rfl⟩
  rw [hempty] at h
  have hheader : headerLines text = [l] := by
    rw [headerLines_cons h, List.takeWhile_cons_of_neg (by simp)]
  unfold LinesFit
  rw [hheader, h, List.takeWhile_cons_of_pos (by simpa using hkey), List.takeWhile_nil,
    List.find?_cons_of_neg (by simpa using hkey)]
  constructor
  · exact fun hfit => hfit.1 l List.mem_cons_self
  · intro hl
    refine ⟨fun x hx => ?_, List.mem_cons_self⟩
    obtain rfl := List.mem_singleton.mp hx
    exact hl

/-- A first line without one, and another line behind it. -/
theorem linesFit_next (h : splitLines text = l :: splitLines text')
    (hnext : ¬ ∃ rest, text' = 13 :: 10 :: rest) (hkey : ¬ KEY <:+: l) :
    LinesFit text ↔ l.length < 1024 ∧ LinesFit text' := by
  obtain ⟨l', ls', hrest⟩ := exists_splitLines_cons text'
  by_cases hl' : l' = []
  · -- nothing is behind it, not even an empty line
    subst hl'
    obtain rfl : ls' = [] := (splitLines_nil_cons hrest).resolve_right hnext
    have hnil : ¬ KEY <:+: ([] : List UInt8) := by decide
    refine iff_of_false ?_ (fun hfit => not_linesFit_last hrest hnil hfit.2)
    have hheader : headerLines text = [l] := by
      rw [headerLines_cons h, hrest, List.takeWhile_cons_of_neg (by simp)]
    unfold LinesFit
    rw [hheader, h, hrest, List.find?_cons_of_neg (by simpa using hkey)]
    exact fun hfit => List.not_mem_nil hfit.2
  · have hheader : headerLines text = l :: headerLines text' := by
      rw [headerLines_cons h, headerLines_cons hrest, hrest,
        List.takeWhile_cons_of_pos (by simpa using hl')]
    have htail : [] ∈ (splitLines text).tail.dropLast ↔ [] ∈ (splitLines text').tail.dropLast := by
      rw [h, hrest, List.tail_cons, List.tail_cons]
      cases ls' with
      | nil => rfl
      | cons l'' ls' =>
        rw [List.dropLast_cons_of_ne_nil (List.cons_ne_nil _ _), List.mem_cons]
        exact or_iff_right (fun he => hl' he.symm)
    unfold LinesFit
    rw [hheader, List.takeWhile_cons_of_pos (by simpa using hkey), List.forall_mem_cons,
      List.find?_cons_of_neg (by simpa using hkey), and_assoc]
    refine and_congr_right (fun _ => and_congr_right (fun _ => ?_))
    cases (headerLines text').find? (fun l => KEY <:+: l) with
    | none => exact htail
    | some x => exact Iff.rfl

end Lines

section Run

variable {ssl : Openssl} {c : Conn} {fuel idx level : ℕ} {l line bytes message : List UInt8}

/-- It is the loop of `handshake`. -/
theorem handshakeRun_snd (ssl : Openssl) (c : Conn) (fuel idx : ℕ) :
    (c.handshakeRun ssl fuel idx).2 = c.handshakeLoop ssl fuel idx := by
  induction fuel generalizing idx with
  | zero => rfl
  | succ fuel ih =>
    unfold Conn.handshakeRun Conn.handshakeLoop
    dsimp only
    split
    · rfl
    split
    · rfl
    split
    · rfl
    split
    · exact ih _
    · rfl

/-- A key is answered, or the answer does not fit. -/
theorem respond_ne_endless (ssl : Openssl) (c : Conn) (l : List UInt8) :
    c.respond ssl l ≠ .error .endless := by
  intro h
  unfold Conn.respond at h
  split at h
  · cases h
  rcases of_bind_eq_error h with h | ⟨secAccept, -, h⟩
  · unfold base64Encode at h
    dsimp only at h
    split at h
    · cases h
    split at h
    · cases h
    · cases h
  rcases of_bind_eq_error h with h | ⟨wbuffer, -, h⟩
  · unfold memcpy at h
    split at h
    · cases h
    · cases h
  · cases h

/-- **The loop ends**, whatever the request is. -/
theorem handshakeLoop_ends (hidx : idx ≤ c.request.length) (hfuel : c.request.length - idx < fuel) :
    c.handshakeLoop ssl fuel idx ≠ .error .endless := by
  induction fuel generalizing idx with
  | zero => exact absurd hfuel (Nat.not_lt_zero _)
  | succ fuel ih =>
    unfold Conn.handshakeLoop
    dsimp only
    split
    · exact fun h => by cases h
    split
    · exact fun h => by cases h
    split
    · intro h
      rcases of_bind_eq_error h with h | ⟨c', -, h⟩
      · exact respond_ne_endless ssl c _ h
      · cases h
    split
    · next hgo =>
      obtain ⟨l, ⟨hread, -⟩ | ⟨hread, hidx', -⟩⟩ := readline_eq hidx
      · rw [hread] at hgo
        exact absurd rfl hgo.2
      · rw [hread, Int.toNat_natCast]
        exact ih hidx' (by omega)
    · exact fun h => by cases h

theorem readByte_inside {a : UInt8} (h : level + 1 < 4096) :
    ∀ x ∈ (Access.rbuffer level :: (if a = 13 then [Access.rbuffer (level + 1)] else [])),
      x.Inside := by
  intro x hx
  rcases List.mem_cons.mp hx with rfl | hx
  · exact ⟨by omega, by omega⟩
  · split at hx
    · obtain rfl := List.mem_singleton.mp hx
      exact ⟨by omega, by omega⟩
    · cases hx

/-- **`readline` stays inside** where the line fits. -/
theorem readlineAccesses_inside (h : level + bytes.length < 4096) (hline : line.length ≤ 1024) :
    (∀ a ∈ readlineAccesses bytes level line.length, a.Inside)
      ↔ (readlineLoop bytes level line).2.length ≤ 1024 := by
  fun_induction readlineLoop bytes level line with
  | case1 level line => exact iff_of_true (fun a ha => absurd ha List.not_mem_nil) hline
  | case2 a level line =>
    have hlevel : level + 1 < 4096 := h
    unfold readlineAccesses
    rw [List.forall_mem_append, and_iff_right (readByte_inside hlevel), List.forall_mem_singleton,
      List.length_append]
    exact Iff.rfl
  | case3 a b rest level line hend =>
    have hlevel : level + 1 < 4096 := by
      simp only [List.length_cons] at h
      omega
    unfold readlineAccesses
    rw [List.forall_mem_append, and_iff_right (readByte_inside hlevel), if_pos hend]
    exact iff_of_true (fun a ha => absurd ha List.not_mem_nil) hline
  | case4 a b rest level line hend ih =>
    have hlevel : level + 1 < 4096 := by
      simp only [List.length_cons] at h
      omega
    have hrest : level + 1 + (b :: rest).length < 4096 := by
      simp only [List.length_cons] at h ⊢
      omega
    unfold readlineAccesses
    rw [List.forall_mem_append, and_iff_right (readByte_inside hlevel), if_neg hend, List.forall_mem_cons]
    by_cases hroom : line.length < 1024
    · have hlen : (line ++ [a]).length = line.length + 1 := List.length_append
      have hih := ih hrest (by omega)
      rw [hlen] at hih
      rw [hih]
      exact and_iff_right hroom
    · refine iff_of_false (fun hin => hroom hin.1) (fun hle => ?_)
      obtain ⟨l, ⟨hl, -⟩ | ⟨hl, -, -⟩⟩ := readlineLoop_eq (b :: rest) (level + 1) (line ++ [a])
      · rw [hl] at hle
        simp only [List.length_append, List.length_singleton] at hle
        omega
      · rw [hl] at hle
        simp only [List.length_append, List.length_singleton] at hle
        omega

theorem linebuf_inside {k n : ℕ} :
    (∀ a ∈ (List.range (n + 1)).map (fun i => Access.linebuf (k + i)), a.Inside) ↔ k + n < 1024 := by
  constructor
  · intro h
    exact h (.linebuf (k + n)) (List.mem_map_of_mem (List.mem_range.mpr (Nat.lt_succ_self n)))
  · intro h a ha
    obtain ⟨i, hi, rfl⟩ := List.mem_map.mp ha
    have hle : i < n + 1 := List.mem_range.mp hi
    show k + i < 1024
    omega

/-- Behind a line that is terminated, the condition looks where the request is. -/
theorem conditionAccesses_inside (hterminated : c.request.length < 4096)
    (hidx : idx ≤ c.request.length) : ∀ a ∈ c.conditionAccesses idx, a.Inside := by
  intro a ha
  rcases List.mem_cons.mp ha with rfl | ha
  · exact ⟨by omega, by omega⟩
  · split at ha
    · next h13 =>
      obtain rfl := List.mem_singleton.mp ha
      rw [Conn.byteAt_eq hidx] at h13
      have hlt : idx < c.request.length := by
        by_contra hle
        rw [List.getD_eq_default _ _ (not_lt.mp hle)] at h13
        exact absurd h13 (by decide)
      exact ⟨by omega, by omega⟩
    · cases ha

/-- **To read a line** stays inside where the line fits. -/
theorem read_inside {next : ℤ} (hterminated : c.request.length < 4096) (hidx : idx ≤ c.request.length)
    (hread : readline c.request idx = (next, l)) :
    (∀ a ∈ c.strlenAccesses ++ readlineAccesses (c.request.drop idx) idx 0, a.Inside)
      ↔ l.length ≤ 1024 := by
  have hlength : idx + (c.request.drop idx).length < 4096 := by
    rw [List.length_drop]
    omega
  have hstrlen : ∀ a ∈ c.strlenAccesses, a.Inside := by
    intro a ha
    obtain ⟨i, hi, rfl⟩ := List.mem_map.mp ha
    have hle : i < c.request.length + 1 := List.mem_range.mp hi
    exact ⟨by omega, by omega⟩
  have hl : (readlineLoop (c.request.drop idx) idx []).2 = l := congrArg Prod.snd hread
  have hinside := readlineAccesses_inside hlength
    (show ([] : List UInt8).length ≤ 1024 from Nat.zero_le 1024)
  rw [hl] at hinside
  rw [List.forall_mem_append, and_iff_right hstrlen]
  exact hinside

/-- To search it, too, if there is room for a NUL behind it. -/
theorem searched_inside {next : ℤ} (hterminated : c.request.length < 4096)
    (hidx : idx ≤ c.request.length) (hread : readline c.request idx = (next, l)) :
    (∀ a ∈ c.strlenAccesses ++ readlineAccesses (c.request.drop idx) idx 0
        ++ (List.range (l.length + 1)).map (fun i => Access.linebuf i), a.Inside)
      ↔ l.length < 1024 := by
  have hsearched := linebuf_inside (k := 0) (n := l.length)
  simp only [Nat.zero_add] at hsearched
  rw [List.forall_mem_append, read_inside hterminated hidx hread, hsearched]
  exact and_iff_right_of_imp le_of_lt

/-- **Where the loop looks**, in a request that is terminated: inside its arrays exactly
where the lines that are left fit. -/
theorem handshakeRun_inside (hterminated : c.request.length < 4096) (hidx : idx ≤ c.request.length)
    (hfuel : c.request.length - idx < fuel) :
    (∀ a ∈ (c.handshakeRun ssl fuel idx).1, a.Inside) ↔ LinesFit (c.request.drop idx) := by
  induction fuel generalizing idx with
  | zero => exact absurd hfuel (Nat.not_lt_zero _)
  | succ fuel ih =>
    obtain ⟨l, hcases⟩ := readline_eq hidx
    obtain ⟨next, hread, ls, hsplit⟩ : ∃ next, readline c.request idx = (next, l)
        ∧ ∃ ls, splitLines (c.request.drop idx) = l :: ls := by
      rcases hcases with ⟨hread, hsplit⟩ | ⟨hread, -, hsplit⟩
      · exact ⟨_, hread, _, hsplit⟩
      · exact ⟨_, hread, _, hsplit⟩
    have hsearched := searched_inside hterminated hidx hread
    unfold Conn.handshakeRun
    simp only [hread]
    by_cases hlong : 1024 < l.length
    · rw [if_pos hlong]
      refine iff_of_false (fun h => ?_) (fun hfit => ?_)
      · exact not_le.mpr hlong ((read_inside hterminated hidx hread).mp h)
      · exact absurd (hfit.length_lt hsplit) (by omega)
    rw [if_neg hlong]
    by_cases hfull : l.length = 1024
    · rw [if_pos hfull]
      refine iff_of_false (fun h => ?_) (fun hfit => ?_)
      · exact absurd (hsearched.mp h) (by omega)
      · exact absurd (hfit.length_lt hsplit) (by omega)
    rw [if_neg hfull]
    -- the line fits, and is searched for a key
    have hlt : l.length < 1024 := by omega
    have hbefore := hsearched.mpr hlt
    by_cases hkey : KEY <:+: l
    · rw [if_pos hkey, linesFit_key hsplit hkey]
      exact List.forall_mem_append.trans ((and_iff_right hbefore).trans linebuf_inside)
    rw [if_neg hkey]
    rcases hcases with ⟨hread', hlast⟩ | ⟨hread', hidx', hnext⟩
    · -- no line ends any more
      obtain rfl : -1 = next := congrArg Prod.fst (hread'.symm.trans hread)
      rw [if_neg (fun h => h.2 rfl)]
      refine iff_of_false (fun h => ?_) (not_linesFit_last hlast hkey)
      have hneg := (List.forall_mem_append.mp h).2 (.rbuffer (-1)) List.mem_cons_self
      exact absurd hneg.1 (by decide)
    · obtain rfl : ((idx + (l.length + 2) : ℕ) : ℤ) = next :=
        congrArg Prod.fst (hread'.symm.trans hread)
      have hasked := List.forall_mem_append.mpr
        ⟨hbefore, conditionAccesses_inside hterminated hidx'⟩
      by_cases hend : ∃ rest, c.request.drop (idx + (l.length + 2)) = 13 :: 10 :: rest
      · rw [if_neg (fun h => (Conn.atEnd_iff hidx').mpr hend h.1)]
        obtain ⟨rest, hrest⟩ := hend
        rw [hrest] at hnext
        exact iff_of_true hasked ((linesFit_stop hnext hkey).mpr hlt)
      · have hgo := not_not.mp (mt (Conn.atEnd_iff hidx').mp hend)
        rw [if_pos ⟨hgo, by omega⟩, linesFit_next hnext hend hkey, and_iff_right hlt]
        simp only [Int.toNat_natCast]
        exact List.forall_mem_append.trans
          ((and_iff_right hasked).trans (ih hidx' (by omega)))

/-- Every round measures the request. -/
theorem strlenAccesses_subset (ssl : Openssl) (c : Conn) (fuel idx : ℕ) :
    c.strlenAccesses ⊆ (c.handshakeRun ssl (fuel + 1) idx).1 := by
  unfold Conn.handshakeRun
  dsimp only
  intro a ha
  split
  · exact List.mem_append_left _ ha
  split
  · exact List.mem_append_left _ (List.mem_append_left _ ha)
  split
  · exact List.mem_append_left _ (List.mem_append_left _ (List.mem_append_left _ ha))
  split
  · exact List.mem_append_left _ (List.mem_append_left _ (List.mem_append_left _
      (List.mem_append_left _ ha)))
  · exact List.mem_append_left _ (List.mem_append_left _ (List.mem_append_left _ ha))

/-- **When the handshake stays inside its arrays**: where the request is terminated and its
lines can be read. It always ends. -/
theorem stays_inside_iff (hreceived : c.Received message) :
    StaysInside ssl c
      ↔ (cstring message).length < BUFFER_LENGTH ∧ LinesFit (cstring message) := by
  have hrequest : c.request = cstring message :=
    Conn.request_eq message hreceived.fits hreceived.rbuffer_eq hreceived.rlength_eq
  have hle : c.request.length ≤ 4096 := by
    rw [hrequest]
    exact (length_cstring_le message).trans hreceived.fits
  have hends : c.handshake ssl ≠ .error .endless :=
    handshakeLoop_ends (Nat.zero_le _) (show c.request.length - 0 < 4096 + 1 by omega)
  unfold StaysInside
  rw [and_iff_right hends, ← hrequest]
  by_cases hterminated : c.request.length < BUFFER_LENGTH
  · rw [and_iff_right hterminated]
    exact handshakeRun_inside hterminated (Nat.zero_le _)
      (show c.request.length - 0 < 4096 + 1 by omega)
  · refine iff_of_false (fun h => ?_) (fun h => hterminated h.1)
    have hmem : Access.rbuffer (c.request.length : ℕ) ∈ c.strlenAccesses :=
      List.mem_map_of_mem (List.mem_range.mpr (Nat.lt_succ_self _))
    have hinside := h _ (strlenAccesses_subset ssl c BUFFER_LENGTH 0 hmem)
    have hlt : (c.request.length : ℤ) < 4096 := hinside.2
    exact hterminated (show c.request.length < 4096 by omega)

end Run

/-- A request that ends with an empty line is read inside the arrays. -/
theorem stays_inside_iff_get :
    StaysInside (sampleSsl sampleDigest) (Conn.receiving (ascii "GET / HTTP/1.1\r\n\r\n")) :=
  (stays_inside_iff ⟨by decide, rfl, rfl⟩).mpr ⟨by decide, by decide,
    (by decide : [] ∈ (splitLines (ascii "GET / HTTP/1.1\r\n\r\n")).tail.dropLast)⟩

/-- **One of a single line is read before its start.** -/
theorem not_stays_inside :
    (Conn.receiving (ascii "GET")).Received (ascii "GET")
      ∧ ¬ StaysInside (sampleSsl sampleDigest) (Conn.receiving (ascii "GET")) := by
  have hreceived : (Conn.receiving (ascii "GET")).Received (ascii "GET") := ⟨by decide, rfl, rfl⟩
  have hrequest : (Conn.receiving (ascii "GET")).request = ascii "GET" :=
    Conn.request_eq _ hreceived.fits hreceived.rbuffer_eq hreceived.rlength_eq
  have hread : readline (Conn.receiving (ascii "GET")).request 0 = (-1, ascii "GET") := by
    rw [hrequest]
    rfl
  have hkey : ¬ KEY <:+: ascii "GET" := by decide
  have hmem : Access.rbuffer (-1) ∈ ((Conn.receiving (ascii "GET")).handshakeRun
      (sampleSsl sampleDigest) (BUFFER_LENGTH + 1) 0).1 := by
    show _ ∈ (Conn.handshakeRun _ _ (4096 + 1) 0).1
    unfold Conn.handshakeRun
    simp only [hread]
    rw [if_neg (by decide), if_neg (by decide), if_neg hkey, if_neg (fun h => h.2 rfl)]
    exact List.mem_append_right _ List.mem_cons_self
  refine ⟨hreceived, fun h => ?_⟩
  exact absurd (h.2 _ hmem).1 (by decide)

end Websocket
