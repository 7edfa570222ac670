import LinuxLearn.Exchange
import LinuxLearn.KvsProtocol
import LinuxLearn.KvsSkiptable

/-!
# What the network layers hand over

The three network layers – `recv_cb` of the reactor, `set_event_recv` of
the proactor and `server_reader` of the coroutine server – receive a
request in the same way: the read buffer of `BUFFER_LENGTH` bytes is
zeroed, at most `BUFFER_LENGTH` bytes are received into it, and
`kvs_protocol` is called on it with the number received and with the write
buffer. What lies behind the read buffer differs between them, and is
arbitrary here.

Two bounds are left to luck. Nothing relates the 1024 bytes of a request
to the 128 entries of `tokens` (`stores_in_bounds_iff`), and a request
that fills the buffer leaves no room for the NUL that splitting runs up to
(`returned_iff`).
-/

/-- **A request as received**: between one byte and a full buffer. -/
structure Received where
  bytes : List UInt8
  /-- `recv` returned a positive count. -/
  length_pos : 0 < bytes.length
  /-- `recv` was given the size of the buffer. -/
  length_le : bytes.length ≤ BUFFER_LENGTH

/-- A zeroed buffer. -/
def zeros : List UInt8 := List.replicate BUFFER_LENGTH 0

/-- What `recv` returns: `-1`, `0`, or the bytes received. -/
inductive Recv where
  | failed
  | disconnected
  | data (r : Received)

/-- **What the kernel and the library answer** to a network layer. -/
structure Answer where
  /-- The descriptor `accept` returns; `none` is `-1`. -/
  accept : Option ℕ
  /-- What `recv` returns. -/
  recv : Recv
  /-- How many bytes `send` says it sent; `none` is `-1`. -/
  send : Option ℕ
  /-- What the engine meets with. -/
  env : Env

/-- `send` transmits the whole buffer. -/
def SendsAll (wlength : ℤ) (sent : Option ℕ) : Prop := ∃ n : ℕ, sent = some n ∧ wlength = n

/-- A `send` that transmits everything leaves nothing unsent. -/
theorem whole_of_sendsAll {κ ι β : Type} {a : Exchange.Act κ ι β} (h : a.SentAs SendsAll) :
    a.Whole := by
  cases a with
  | accept c => trivial
  | recv c q r => trivial
  | close c => trivial
  | send c asked sent =>
    obtain ⟨_, ⟨n, rfl, hn⟩, rfl⟩ := h
    have hle : asked.length ≤ n := Int.ofNat_le.mp hn.le
    exact List.take_of_length_le hle

/-- `send` reports any count between one and what it was asked for. -/
def SendsSome (wlength : ℤ) (sent : Option ℕ) : Prop :=
  0 < wlength → ∃ n : ℕ, sent = some n ∧ 0 < n ∧ (n : ℤ) ≤ wlength

/-- The address of the write buffer, of which only matters that it is not
null. -/
def wbuffer : Ptr := 1

/-- **What printing a reply leaves in a buffer**: a text and its NUL in front of
what was there; a refusal prints nothing, and a text that does not fit goes
past the end. -/
def Reply.printTo (a : Reply) (buf : List UInt8) : Option (List UInt8) :=
  if a.length < 0 then some buf
  else if a.bytes.length < buf.length then some (a.bytes ++ 0 :: buf.drop (a.bytes.length + 1))
  else none

/-- A text that fits is found at the front of the buffer. -/
theorem printTo_sprintf {text : List UInt8} (buf : List UInt8) (h : text.length < buf.length) :
    ∃ buf', (sprintf text).printTo buf = some buf' ∧ buf'.length = buf.length
      ∧ buf'.take text.length = text := by
  have hlength : ¬ (sprintf text).length < 0 := not_lt.mpr (Int.natCast_nonneg _)
  refine ⟨text ++ 0 :: buf.drop (text.length + 1), ?_, ?_, List.take_left⟩
  · unfold Reply.printTo
    rw [if_neg hlength]
    exact if_pos h
  · rw [List.length_append, List.length_cons, List.length_drop]
    omega

namespace Received

/-- **Memory from the read buffer on**: the request, zeros up to the end of
the buffer, and what lies behind it. -/
def rbuffer (r : Received) (rest : List UInt8) : List UInt8 :=
  r.bytes ++ (List.replicate (BUFFER_LENGTH - r.bytes.length) 0 ++ rest)

variable {E : Type}

/-- `kvs_protocol` on a request as received. -/
def serve (ops : KvsOps E) (s : E) (r : Received) (rest : List UInt8) (env : Env) :
    Except Fault (Reply × E) :=
  kvsProtocol ops s (some (r.rbuffer rest)) r.bytes.length wbuffer env

theorem natCast_length_pos (r : Received) : (0 : ℤ) < r.bytes.length :=
  Int.natCast_pos.mpr r.length_pos

theorem wbuffer_ne : wbuffer ≠ 0 := by decide

/-! ## The token array -/

/-- **The stores into `tokens` stay inside** exactly on the requests in which
at most 128 tokens end, whatever the engine and its state. -/
theorem stores_in_bounds_iff (ops : KvsOps E) (s : E) (env : Env) (r : Received)
    (rest : List UInt8) :
    r.serve ops s rest env ≠ .error .overrun
      ↔ tokenEnds blanks (r.rbuffer rest) ≤ KVS_MAX_TOKENS := by
  rw [← not_lt, not_iff_not]
  exact kvsProtocol_overrun_iff r.natCast_length_pos wbuffer_ne ops s env

/-- The letter `a` and a blank, 129 times. -/
def manyTokens : Received where
  bytes := (List.replicate 129 (ascii "a ")).flatten
  length_pos := by decide +kernel
  length_le := by decide +kernel

/-- A request of 258 bytes goes past the array. -/
theorem not_stores_in_bounds :
    ¬ ∀ (s : KvsSkiptable) (env : Env) (r : Received) (rest : List UInt8),
      r.serve kvsSkiptableOps s rest env ≠ .error .overrun := by
  intro h
  have hends : KVS_MAX_TOKENS < tokenEnds blanks (manyTokens.rbuffer []) := by decide +kernel
  exact h KvsSkiptable.zero (Env.healthy (fun _ => false)) manyTokens []
    (kvsProtocol_overrun manyTokens.natCast_length_pos wbuffer_ne hends _ _ _)

/-! ## Memory behind the buffer -/

theorem rbuffer_eq_append (r : Received) (rest : List UInt8) :
    r.rbuffer rest = r.rbuffer [] ++ rest := by
  simp [rbuffer]

/-- A request that fills the buffer is followed by what lies behind. -/
theorem rbuffer_of_full {r : Received} (hfull : r.bytes.length = BUFFER_LENGTH)
    (rest : List UInt8) : r.rbuffer rest = r.bytes ++ rest := by
  simp [rbuffer, hfull]

/-- Otherwise the buffer holds a NUL of its own. -/
theorem zero_mem_rbuffer {r : Received}
    (h : r.bytes.length < BUFFER_LENGTH ∨ (0 : UInt8) ∈ r.bytes) :
    (0 : UInt8) ∈ r.rbuffer [] := by
  refine List.mem_append.mpr (h.symm.imp id (fun hlt => List.mem_append_left _ ?_))
  exact List.mem_replicate.mpr ⟨by omega, rfl⟩

section Outcome

variable (ops : KvsOps E) (s : E) (env : Env) (r : Received)

/-- A request with a NUL in the buffer is served the same whatever lies
behind it. -/
theorem serve_eq_of_zero_mem (h : (0 : UInt8) ∈ r.rbuffer []) (rest : List UInt8) :
    r.serve ops s rest env = r.serve ops s [] env := by
  have hl := r.natCast_length_pos
  have hmem : (0 : UInt8) ∈ r.rbuffer rest := by
    rw [rbuffer_eq_append]
    exact List.mem_append_left rest h
  have htokens : tokensOf blanks (r.rbuffer rest) = tokensOf blanks (r.rbuffer []) := by
    rw [rbuffer_eq_append]
    exact tokensOf_append_of_mem h rest
  unfold serve
  by_cases hts : (tokensOf blanks (r.rbuffer [])).length ≤ KVS_MAX_TOKENS
  · rw [kvsProtocol_eq hl wbuffer_ne h hts, kvsProtocol_eq hl wbuffer_ne hmem (htokens ▸ hts),
      htokens]
  · have hends := tokenEnds_eq_length zero_notMem_blanks h
    have hends' := tokenEnds_eq_length zero_notMem_blanks hmem
    rw [htokens] at hends'
    rw [kvsProtocol_overrun hl wbuffer_ne (by omega), kvsProtocol_overrun hl wbuffer_ne (by omega)]

variable {r}

/-- A request that fills the buffer without a NUL comes to nothing where
memory ends with the buffer. -/
theorem serve_of_full (hfull : r.bytes.length = BUFFER_LENGTH) (h : (0 : UInt8) ∉ r.bytes) :
    (r.serve ops s [] env).toOption = none := by
  have hl := r.natCast_length_pos
  unfold serve
  rw [rbuffer_of_full hfull, List.append_nil]
  by_cases hends : KVS_MAX_TOKENS < tokenEnds blanks r.bytes
  · rw [kvsProtocol_overrun hl wbuffer_ne hends]
    rfl
  · rw [kvsProtocol_overread hl wbuffer_ne (not_lt.mp hends) h]
    rfl

/-- More than three tokens call nothing, and are answered. -/
theorem respond_of_long {ts : List CString} (hts : 3 < ts.length) :
    ∃ a, respond ops s env (parse ts) = .ok (a, s) := by
  obtain _ | ⟨name, _ | ⟨k, _ | ⟨v, _ | ⟨w, ts⟩⟩⟩⟩ := ts
  · exact absurd hts (by simp)
  · exact absurd hts (by simp)
  · exact absurd hts (by simp)
  · exact absurd hts (by simp)
  · rcases h : kvsFindCommand name with _ | cmd
    · exact ⟨_, by rw [parse, h]; rfl⟩
    · cases cmd <;> exact ⟨_, by rw [parse, h]; rfl⟩

/-- **A request that fills the buffer without a NUL** and with at most 128
tokens is answered, if the right bytes and a NUL lie behind the buffer. -/
theorem exists_serve_eq (hfull : r.bytes.length = BUFFER_LENGTH) (h : (0 : UInt8) ∉ r.bytes)
    (hts : (tokensOf blanks r.bytes).length ≤ KVS_MAX_TOKENS) :
    ∃ rest a, (0 : UInt8) ∈ rest ∧ r.serve ops s rest env = .ok (a, s) := by
  have hl := r.natCast_length_pos
  by_cases hlong : 3 < (tokensOf blanks r.bytes).length
  · -- the tokens are too many for a call, and a NUL ends them
    obtain ⟨a, ha⟩ := respond_of_long ops s env hlong
    refine ⟨[0], a, List.mem_singleton_self 0, ?_⟩
    have htokens : tokensOf blanks (r.bytes ++ [0]) = tokensOf blanks r.bytes :=
      tokensOf_append_nul h []
    unfold serve
    rw [rbuffer_of_full hfull, kvsProtocol_eq hl wbuffer_ne (by simp) (htokens ▸ hts), htokens, ha]
  · -- four more tokens make them too many
    have hfour : (tokensOf blanks (ascii "a a a a" ++ [0])).length = 4 := by decide
    have htokens := tokensOf_append_sep zero_notMem_blanks h (d := 32) (by decide)
      (ascii "a a a a" ++ [0])
    have hlength := congrArg List.length htokens
    rw [List.length_append, hfour] at hlength
    have hmore : 3 < (tokensOf blanks (r.bytes ++ 32 :: (ascii "a a a a" ++ [0]))).length := by
      omega
    obtain ⟨a, ha⟩ := respond_of_long ops s env hmore
    refine ⟨32 :: (ascii "a a a a" ++ [0]), a, by simp, ?_⟩
    unfold serve
    rw [rbuffer_of_full hfull, kvsProtocol_eq hl wbuffer_ne (by simp)
      (show _ ≤ 128 by omega), ha]

/-- **The same request goes past the array**, if many tokens and a NUL lie behind the
buffer. -/
theorem exists_serve_overrun (hfull : r.bytes.length = BUFFER_LENGTH) (h : (0 : UInt8) ∉ r.bytes) :
    ∃ rest, (0 : UInt8) ∈ rest ∧ r.serve ops s rest env = .error .overrun := by
  have hmany : (tokensOf blanks (manyTokens.bytes ++ [0])).length = 129 := by decide +kernel
  have htokens := tokensOf_append_sep zero_notMem_blanks h (d := 32) (by decide)
    (manyTokens.bytes ++ [0])
  have hlength := congrArg List.length htokens
  rw [List.length_append, hmany] at hlength
  have hmem : (0 : UInt8) ∈ r.bytes ++ 32 :: (manyTokens.bytes ++ [0]) := by simp
  refine ⟨32 :: (manyTokens.bytes ++ [0]), by simp, ?_⟩
  unfold serve
  rw [rbuffer_of_full hfull]
  refine kvsProtocol_overrun r.natCast_length_pos wbuffer_ne ?_ ops s env
  rw [tokenEnds_eq_length zero_notMem_blanks hmem, hlength, KVS_MAX_TOKENS]
  omega

/-- The tokens of a request are those of the buffer. -/
theorem tokensOf_rbuffer (r : Received) :
    tokensOf blanks (r.rbuffer []) = tokensOf blanks r.bytes := by
  unfold rbuffer
  rw [List.append_nil]
  by_cases h : (0 : UInt8) ∈ r.bytes
  · exact tokensOf_append_of_mem h _
  · cases BUFFER_LENGTH - r.bytes.length with
    | zero => rw [List.replicate_zero, List.append_nil]
    | succ n => exact tokensOf_append_nul h _

/-- **A request is returned from in the same way whatever lies behind the buffer** exactly if
it leaves a NUL in it – as all do that do not fill it, and those that hold one –, has at
most 128 tokens, and what is parsed of them is served. -/
theorem returned_iff (r : Received) :
    (∃ a, ∀ rest, r.serve ops s rest env = .ok a)
      ↔ (r.bytes.length < BUFFER_LENGTH ∨ (0 : UInt8) ∈ r.bytes)
        ∧ (tokensOf blanks r.bytes).length ≤ KVS_MAX_TOKENS
        ∧ ∃ a, respond ops s env (parse (tokensOf blanks r.bytes)) = .ok a := by
  have hl := r.natCast_length_pos
  constructor
  · rintro ⟨a, ha⟩
    have hnul : r.bytes.length < BUFFER_LENGTH ∨ (0 : UInt8) ∈ r.bytes := by
      by_contra hcond
      obtain ⟨hlt, h⟩ := not_or.mp hcond
      have hnone := serve_of_full ops s env (le_antisymm r.length_le (not_lt.mp hlt)) h
      rw [ha] at hnone
      cases hnone
    have hmem := zero_mem_rbuffer hnul
    have hserve := ha []
    unfold serve at hserve
    by_cases hts : (tokensOf blanks r.bytes).length ≤ KVS_MAX_TOKENS
    · rw [← tokensOf_rbuffer] at hts ⊢
      rw [kvsProtocol_eq hl wbuffer_ne hmem hts] at hserve
      exact ⟨hnul, hts, a, hserve⟩
    · have hends := tokenEnds_eq_length zero_notMem_blanks hmem
      rw [tokensOf_rbuffer] at hends
      rw [kvsProtocol_overrun hl wbuffer_ne (by omega)] at hserve
      cases hserve
  · rintro ⟨hnul, hts, a, ha⟩
    have hmem := zero_mem_rbuffer hnul
    refine ⟨a, fun rest => ?_⟩
    rw [← tokensOf_rbuffer] at hts ha
    rw [serve_eq_of_zero_mem ops s env r hmem]
    unfold serve
    rw [kvsProtocol_eq hl wbuffer_ne hmem hts, ha]

end Outcome

/-- A buffer full of blanks. -/
def allBlank : Received where
  bytes := List.replicate BUFFER_LENGTH 32
  length_pos := by
    rw [List.length_replicate]
    decide
  length_le := List.length_replicate.le

/-- A buffer full of blanks is served as what lies behind it. -/
theorem serve_allBlank (ops : KvsOps E) (s : E) (env : Env) {rest : List UInt8}
    (hmem : (0 : UInt8) ∈ rest) (hts : (tokensOf blanks rest).length ≤ KVS_MAX_TOKENS) :
    allBlank.serve ops s rest env = respond ops s env (parse (tokensOf blanks rest)) := by
  have hfull : allBlank.bytes.length = BUFFER_LENGTH := List.length_replicate
  have hgap : IsGap blanks allBlank.bytes := fun b hb => by
    rw [List.eq_of_mem_replicate hb]
    decide
  have htokens := tokensOf_gap zero_notMem_blanks hgap rest
  have hmem' : (0 : UInt8) ∈ allBlank.bytes ++ rest := List.mem_append_right _ hmem
  rw [← htokens] at hts ⊢
  unfold serve
  rw [rbuffer_of_full hfull]
  exact kvsProtocol_eq allBlank.natCast_length_pos wbuffer_ne hmem' hts ops s env

/-- A buffer full of blanks is answered by what lies behind it: it is refused, or gets
what an `x` there deserves. -/
theorem not_outcome_eq :
    ¬ ∀ (s : KvsSkiptable) (env : Env) (r : Received) (rest₁ rest₂ : List UInt8)
      (a₁ a₂ : Reply × KvsSkiptable), r.serve kvsSkiptableOps s rest₁ env = .ok a₁ →
        r.serve kvsSkiptableOps s rest₂ env = .ok a₂ → a₁ = a₂ := by
  intro h
  have heq := h KvsSkiptable.zero (Env.healthy (fun _ => false)) allBlank [0] (ascii "x" ++ [0]) _ _
    (serve_allBlank _ _ _ (by decide) (by decide)) (serve_allBlank _ _ _ (by decide) (by decide))
  cases heq

end Received
