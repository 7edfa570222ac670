import LinuxLearn.KvsEngine
import LinuxLearn.Strtok

/-!
# The request protocol

`kvs_protocol` of `kvstore.c`: a request is split at blanks into an array
of 128 token pointers, the first token selects a command, and the command
calls the engine and prints a response.

A request can go wrong in three ways that C leaves undefined: the message
has no NUL and is read past its end, it has more tokens than the array,
or the engine itself goes wrong. The model tells them apart (`Fault`).

What the functions do together is a grammar: a request is *parsed* into a
call of the engine or into one of three kinds of misuse, and the result of
the call is *rendered*. `kvsProtocol_eq` says so for every message that is
terminated and has at most 128 tokens; everything said about whole runs
of the server rests on it.
-/

/-- `KVS_MAX_TOKENS`. -/
def KVS_MAX_TOKENS : ℕ := 128

/-- `BUFFER_LENGTH`. -/
def BUFFER_LENGTH : ℕ := 1024

/-- The bytes of an ASCII text. -/
def ascii (text : String) : List UInt8 := text.toList.map (fun c => c.toNat.toUInt8)

/-- The separators of a request, `" \r\n\t"`. -/
def blanks : List UInt8 := ascii " \r\n\t"

/-- **How a request can go wrong.** -/
inductive Fault where
  /-- Memory is read past its end. -/
  | overread
  /-- A token is stored past the end of `tokens`. -/
  | overrun
  /-- The engine's behaviour is undefined. -/
  | engine
deriving DecidableEq

/-- A step that goes wrong with a fault where it has no result. -/
def orFault {α : Type} (f : Fault) : Option α → Except Fault α
  | some a => .ok a
  | none => .error f

/-- The enumeration of the commands, without the number of them. -/
inductive KvsCmd where
  | set
  | get
  | del
  | mod
  | exist
deriving DecidableEq

/-- `command[cmd]`. -/
def command : KvsCmd → CString
  | .set => ⟨ascii "SET", by decide⟩
  | .get => ⟨ascii "GET", by decide⟩
  | .del => ⟨ascii "DEL", by decide⟩
  | .mod => ⟨ascii "MOD", by decide⟩
  | .exist => ⟨ascii "EXIST", by decide⟩

/-- The loop of `kvs_filter_protocol` over the commands, in the order of the
enumeration; a loop that runs to the end has found none. -/
def kvsFindCommand (token : CString) : Option KvsCmd :=
  [KvsCmd.set, .get, .del, .mod, .exist].find? (fun cmd => strcmp token (command cmd) = 0)

/-- **What a request comes to for its sender**: the length returned, and the
bytes printed to `response`, without the terminating NUL. -/
structure Reply where
  length : ℤ
  bytes : List UInt8
deriving DecidableEq

/-- `sprintf` of a text to `response`. -/
def sprintf (text : List UInt8) : Reply := ⟨text.length, text⟩

/-- A request answered by `-1`, with nothing printed. -/
def Reply.refused : Reply := ⟨-1, []⟩

/-- The loop of `kvs_split_token`: the token at hand is stored, with `room`
entries of `tokens` left, and the next one is taken from position `s`. -/
def kvsSplitLoop :
    ℕ → Option ℕ → List ℕ → List UInt8 → ℕ → Except Fault (List ℕ × List UInt8)
  | _, none, tokens, mem, _ => .ok (tokens, mem)
  | 0, some _, _, _, _ => .error .overrun
  | room + 1, some t, tokens, mem, s => do
    let (token, mem, s) ← orFault .overread (strtok blanks mem s)
    kvsSplitLoop room token (tokens ++ [t]) mem s

/-- `kvs_split_token`: the number of tokens, the entries of `tokens` that were
stored – those behind them are still null – and the message with its
tokens terminated. -/
def kvsSplitToken : Option (List UInt8) → Except Fault (ℤ × List ℕ × List UInt8)
  | none => return (-1, [], [])
  | some msg => do
    let (token, mem, s) ← orFault .overread (strtok blanks msg 0)
    let (tokens, mem) ← kvsSplitLoop KVS_MAX_TOKENS token [] mem s
    return (tokens.length, tokens, mem)

/-- The string an entry of `tokens` points to, if it is not null. -/
def tokenArg (mem : List UInt8) : Option ℕ → Except Fault (Option CString)
  | none => return none
  | some t => do
    let s ← orFault .overread (stringAt mem t)
    return some s

variable {E : Type}

/-- The branches of `kvs_filter_protocol` on the code of `set`, `del` or `mod`;
a positive one means something else for each. -/
def replyOfRet (positive : String) (ret : ℤ) : Reply :=
  if ret < 0 then sprintf (ascii "ERROR\r\n")
  else if ret = 0 then sprintf (ascii "OK\r\n")
  else sprintf (ascii positive)

/-- The switch of `kvs_filter_protocol`. -/
def kvsSwitch (ops : KvsOps E) (s : E) (count : ℤ) (key value : Option CString) (env : Env) :
    Option KvsCmd → Except Fault (Reply × E)
  | some .set =>
    if count ≠ 3 ∨ key = none ∨ value = none then return (sprintf (ascii "ERROR\r\n"), s)
    else do
      let (ret, s) ← orFault .engine (ops.set s key value env)
      return (replyOfRet "EXIST\r\n" ret, s)
  | some .get =>
    if count ≠ 2 ∨ key = none then return (sprintf (ascii "ERROR\r\n"), s)
    else do
      let result ← orFault .engine (ops.get s key)
      if result = 0 then
        return (sprintf (ascii "NO EXIST\r\n"), s)
      else
        let v ← orFault .engine ((ops.strs s).load result)
        return (sprintf (v.bytes ++ ascii "\r\n"), s)
  | some .del =>
    if count ≠ 2 ∨ key = none then return (sprintf (ascii "ERROR\r\n"), s)
    else do
      let (ret, s) ← orFault .engine (ops.del s key)
      return (replyOfRet "NO EXIST\r\n" ret, s)
  | some .mod =>
    if count ≠ 3 ∨ key = none ∨ value = none then return (sprintf (ascii "ERROR\r\n"), s)
    else do
      let (ret, s) ← orFault .engine (ops.mod s key value env)
      return (replyOfRet "NO EXIST\r\n" ret, s)
  | some .exist =>
    if count ≠ 2 ∨ key = none then return (sprintf (ascii "ERROR\r\n"), s)
    else do
      let ret ← orFault .engine (ops.exist s key)
      return (sprintf (ascii (if ret = 0 then "EXIST\r\n" else "NO EXIST\r\n")), s)
  | none => return (sprintf (ascii "protocol error,please send again!\r\n"), s)

/-- `kvs_filter_protocol`. -/
def kvsFilterProtocol (ops : KvsOps E) (s : E) (mem : List UInt8) (tokens : List ℕ) (count : ℤ)
    (response : Ptr) (env : Env) : Except Fault (Reply × E) :=
  match tokens[0]? with
  | none => return (.refused, s)
  | some t =>
    if count = 0 ∨ response = 0 then return (.refused, s)
    else do
      let name ← orFault .overread (stringAt mem t)
      let key ← tokenArg mem tokens[1]?
      let value ← tokenArg mem tokens[2]?
      kvsSwitch ops s count key value env (kvsFindCommand name)

/-- **`kvs_protocol`.** Of the length only the sign is looked at. -/
def kvsProtocol (ops : KvsOps E) (s : E) (msg : Option (List UInt8)) (length : ℤ)
    (response : Ptr) (env : Env) : Except Fault (Reply × E) :=
  if msg = none ∨ length ≤ 0 ∨ response = 0 then
    return (.refused, s)
  else do
    let (count, tokens, mem) ← kvsSplitToken msg
    if count = -1 then
      return (.refused, s)
    else
      kvsFilterProtocol ops s mem tokens count response env

/-! ## Splitting -/

theorem zero_notMem_blanks : (0 : UInt8) ∉ blanks := by decide

/-- Splitting from a position: a call of `strtok` and then the loop. -/
def kvsSplitFrom (room : ℕ) (tokens : List ℕ) (mem : List UInt8) (s : ℕ) :
    Except Fault (List ℕ × List UInt8) := do
  let (token, mem, s) ← orFault .overread (strtok blanks mem s)
  kvsSplitLoop room token tokens mem s

section Split

variable {room s s' t : ℕ} {tokens : List ℕ} {mem mem' : List UInt8}

theorem kvsSplitFrom_done (h : strtok blanks mem s = some (none, mem', s')) :
    kvsSplitFrom room tokens mem s = .ok (tokens, mem') := by
  unfold kvsSplitFrom
  rw [h]
  cases room <;> rfl

theorem kvsSplitFrom_store (h : strtok blanks mem s = some (some t, mem', s')) :
    kvsSplitFrom (room + 1) tokens mem s = kvsSplitFrom room (tokens ++ [t]) mem' s' := by
  unfold kvsSplitFrom
  rw [h]
  rfl

theorem kvsSplitFrom_overrun (h : strtok blanks mem s = some (some t, mem', s')) :
    kvsSplitFrom 0 tokens mem s = .error .overrun := by
  unfold kvsSplitFrom
  rw [h]
  rfl

theorem kvsSplitFrom_overread (h : strtok blanks mem s = none) :
    kvsSplitFrom room tokens mem s = .error .overread := by
  unfold kvsSplitFrom
  rw [h]
  rfl

end Split

/-- **What splitting from a position comes to**, with `room` entries left: a
store past the array if more tokens end in memory, else a read past
memory if it has no NUL, else pointers to its tokens, terminated. -/
def SplitsTo (room : ℕ) (tokens : List ℕ) (pre rest : List UInt8)
    (result : Except Fault (List ℕ × List UInt8)) : Prop :=
  if room < tokenEnds blanks rest then result = .error .overrun
  else if (0 : UInt8) ∈ rest then
    ∃ offs rest', result = .ok (tokens ++ offs, pre ++ rest')
      ∧ offs.map (stringAt (pre ++ rest')) = (tokensOf blanks rest).map some
  else result = .error .overread

section SplitsTo

variable {g t m : List UInt8} {d : UInt8}

theorem splitsTo_done (hg : IsGap blanks g) (room : ℕ) (tokens : List ℕ) (pre m : List UInt8) :
    SplitsTo room tokens pre (g ++ 0 :: m)
      (kvsSplitFrom room tokens (pre ++ (g ++ 0 :: m)) pre.length) := by
  have h0 := zero_notMem_blanks
  unfold SplitsTo
  rw [tokenEnds_gap h0 hg, tokenEnds_nul, if_neg (Nat.not_lt_zero room),
    if_pos (List.mem_append_right g List.mem_cons_self)]
  refine ⟨[], g ++ 0 :: m, ?_, ?_⟩
  · rw [List.append_nil]
    exact kvsSplitFrom_done (strtok_done h0 hg pre m)
  · rw [tokensOf_gap h0 hg, tokensOf_nul]
    rfl

theorem splitsTo_cut (hg : IsGap blanks g) (ht : IsToken blanks t) (room : ℕ) (tokens : List ℕ)
    (pre : List UInt8) :
    SplitsTo room tokens pre (g ++ t) (kvsSplitFrom room tokens (pre ++ (g ++ t)) pre.length) := by
  have h0 := zero_notMem_blanks
  unfold SplitsTo
  rw [tokenEnds_gap h0 hg, tokenEnds_cut ht, if_neg (Nat.not_lt_zero room),
    if_neg (Scan.zero_notMem_cut h0 hg ht)]
  exact kvsSplitFrom_overread (strtok_cut hg ht pre)

/-- The last token, and the call that finds none after it. -/
theorem splitsTo_last (hg : IsGap blanks g) (hne : t ≠ []) (ht : IsToken blanks t) (room : ℕ)
    (tokens : List ℕ) (pre m : List UInt8) :
    SplitsTo room tokens pre (g ++ (t ++ 0 :: m))
      (kvsSplitFrom room tokens (pre ++ (g ++ (t ++ 0 :: m))) pre.length) := by
  have h0 := zero_notMem_blanks
  have htok := strtok_token hg hne ht (Or.inl rfl) pre m
  unfold SplitsTo
  rw [tokenEnds_gap h0 hg, tokenEnds_token hne ht (Or.inl rfl), tokenEnds_nul]
  cases room with
  | zero =>
    rw [if_pos Nat.one_pos]
    exact kvsSplitFrom_overrun htok
  | succ room =>
    rw [if_neg (by omega), if_pos (by simp)]
    refine ⟨[pre.length + g.length], g ++ (t ++ 0 :: m), ?_, ?_⟩
    · have hend := strtok_done h0 IsGap.nil (pre ++ (g ++ t)) m
      rw [List.append_assoc, List.append_assoc, List.length_append, List.length_append,
        ← Nat.add_assoc] at hend
      rw [kvsSplitFrom_store htok]
      exact kvsSplitFrom_done hend
    · rw [tokensOf_gap h0 hg, tokensOf_last hne ht]
      exact congrArg (fun x => [x]) (stringAt_token ht pre g m)

/-- A token and a separator, and then what is behind. -/
theorem splitsTo_next (hg : IsGap blanks g) (hne : t ≠ []) (ht : IsToken blanks t)
    (hd : d ∈ blanks) {room : ℕ} {tokens : List ℕ} {pre : List UInt8}
    (ih : SplitsTo room (tokens ++ [pre.length + g.length]) (pre ++ (g ++ (t ++ [0]))) m
      (kvsSplitFrom room (tokens ++ [pre.length + g.length]) (pre ++ (g ++ (t ++ [0])) ++ m)
        (pre ++ (g ++ (t ++ [0]))).length)) :
    SplitsTo (room + 1) tokens pre (g ++ (t ++ d :: m))
      (kvsSplitFrom (room + 1) tokens (pre ++ (g ++ (t ++ d :: m))) pre.length) := by
  have h0 := zero_notMem_blanks
  have hd0 : d ≠ 0 := fun he => h0 (he ▸ hd)
  have hmem : (0 : UInt8) ∈ g ++ (t ++ d :: m) ↔ (0 : UInt8) ∈ m := by
    have hg0 : (0 : UInt8) ∉ g := fun h => hg.ne_zero h0 0 h rfl
    have ht0 : (0 : UInt8) ∉ t := fun h => ht.ne_zero 0 h rfl
    simp [hg0, ht0, Ne.symm hd0]
  have htok := strtok_token hg hne ht (Or.inr hd) pre m
  rw [if_neg hd0] at htok
  have hshape : ∀ m' : List UInt8,
      pre ++ (g ++ (t ++ [0])) ++ m' = pre ++ (g ++ (t ++ 0 :: m')) := fun m' => by simp
  have hlength : (pre ++ (g ++ (t ++ [0]))).length = pre.length + g.length + t.length + 1 := by
    simp [Nat.add_assoc]
  rw [kvsSplitFrom_store htok, ← hshape, ← hlength]
  unfold SplitsTo at ih ⊢
  rw [tokenEnds_gap h0 hg, tokenEnds_next h0 hne ht hd]
  simp only [hmem, tokensOf_gap h0 hg, tokensOf_next h0 hne ht hd]
  by_cases hroom : room < tokenEnds blanks m
  · rw [if_pos hroom] at ih
    rw [if_pos (by omega)]
    exact ih
  rw [if_neg hroom] at ih
  rw [if_neg (by omega)]
  by_cases hm : (0 : UInt8) ∈ m
  · rw [if_pos hm] at ih ⊢
    obtain ⟨offs, m', hsplit, hoffs⟩ := ih
    refine ⟨(pre.length + g.length) :: offs, g ++ (t ++ 0 :: m'), ?_, ?_⟩
    · rw [hsplit, hshape, List.append_assoc]
      rfl
    · rw [hshape] at hoffs
      rw [List.map_cons, List.map_cons, hoffs, stringAt_token ht]
  · rw [if_neg hm] at ih ⊢
    exact ih

end SplitsTo

theorem kvsSplitFrom_splitsTo (room : ℕ) (tokens : List ℕ) (pre rest : List UInt8) :
    SplitsTo room tokens pre rest (kvsSplitFrom room tokens (pre ++ rest) pre.length) := by
  induction room generalizing tokens pre rest with
  | zero =>
    cases scan blanks rest with
    | done hg => exact splitsTo_done hg 0 tokens pre _
    | last hg hne ht => exact splitsTo_last hg hne ht 0 tokens pre _
    | @next g t m d hg hne ht hd =>
      unfold SplitsTo
      rw [tokenEnds_gap zero_notMem_blanks hg, tokenEnds_next zero_notMem_blanks hne ht hd,
        if_pos (by omega)]
      exact kvsSplitFrom_overrun (strtok_token hg hne ht (Or.inr hd) pre m)
    | cut hg ht => exact splitsTo_cut hg ht 0 tokens pre
  | succ room ih =>
    cases scan blanks rest with
    | done hg => exact splitsTo_done hg _ tokens pre _
    | last hg hne ht => exact splitsTo_last hg hne ht _ tokens pre _
    | next hg hne ht hd => exact splitsTo_next hg hne ht hd (ih _ _ _)
    | cut hg ht => exact splitsTo_cut hg ht _ tokens pre

/-! ## The grammar -/

/-- **What a list of tokens asks for.** -/
inductive Parsed where
  /-- A command with its arguments. -/
  | call (op : KvsOp)
  /-- A command with another number of arguments. -/
  | malformed
  /-- A first token that is no command. -/
  | unknown
  /-- No token at all. -/
  | empty
deriving DecidableEq

/-- A command and its arguments. -/
def parseArgs : Option KvsCmd → List CString → Parsed
  | none, _ => .unknown
  | some .set, [k, v] => .call (.set k v)
  | some .get, [k] => .call (.get k)
  | some .del, [k] => .call (.del k)
  | some .mod, [k, v] => .call (.mod k v)
  | some .exist, [k] => .call (.exist k)
  | some _, _ => .malformed

/-- **The grammar of requests.** -/
def parse : List CString → Parsed
  | [] => .empty
  | name :: args => parseArgs (kvsFindCommand name) args

/-- The response to what a call returns. -/
def render : KvsOp → KvsRes → Reply
  | .set _ _, .code ret => replyOfRet "EXIST\r\n" ret
  | .get _, .value none => sprintf (ascii "NO EXIST\r\n")
  | .get _, .value (some v) => sprintf (v.bytes ++ ascii "\r\n")
  | .del _, .code ret => replyOfRet "NO EXIST\r\n" ret
  | .mod _ _, .code ret => replyOfRet "NO EXIST\r\n" ret
  | .exist _, .code ret => sprintf (ascii (if ret = 0 then "EXIST\r\n" else "NO EXIST\r\n"))
  | _, _ => .refused

/-- The response to a request that calls nothing. -/
def Parsed.refusal : Parsed → Reply
  | .call _ => .refused
  | .malformed => sprintf (ascii "ERROR\r\n")
  | .unknown => sprintf (ascii "protocol error,please send again!\r\n")
  | .empty => .refused

/-- **Serving a parsed request**: at most one call of the engine. -/
def respond (ops : KvsOps E) (s : E) (env : Env) : Parsed → Except Fault (Reply × E)
  | .call op =>
    (orFault .engine (ops.machine s (op, env))).map (fun r => (render op r.1, r.2))
  | p => .ok (p.refusal, s)

theorem toOption_respond_call (ops : KvsOps E) (s : E) (env : Env) (op : KvsOp) :
    (respond ops s env (.call op)).toOption
      = (ops.machine s (op, env)).map (fun r => (render op r.1, r.2)) := by
  show ((orFault .engine (ops.machine s (op, env))).map _).toOption = _
  cases ops.machine s (op, env) <;> rfl

section Filter

variable {mem : List UInt8} {tokens : List ℕ} {ts : List CString}

/-- The entries of `tokens` read back. -/
theorem tokenArg_eq (hts : tokens.map (stringAt mem) = ts.map some) (i : ℕ) :
    tokenArg mem tokens[i]? = .ok ts[i]? := by
  have hi := congrArg (fun l => l[i]?) hts
  simp only [List.getElem?_map] at hi
  cases hto : tokens[i]? with
  | none =>
    rw [hto] at hi
    cases hs : ts[i]? with
    | none => rfl
    | some c => rw [hs] at hi; cases hi
  | some t =>
    rw [hto] at hi
    cases hs : ts[i]? with
    | none => rw [hs] at hi; cases hi
    | some c =>
      rw [hs] at hi
      have hc : stringAt mem t = some c := Option.some.inj hi
      show (orFault .overread (stringAt mem t)).bind (fun s => .ok (some s)) = _
      rw [hc]
      rfl

/-- A number of arguments no command has. -/
theorem kvsSwitch_malformed {count : ℤ} (h2 : count ≠ 2) (h3 : count ≠ 3) (ops : KvsOps E) (s : E)
    (key value : Option CString) (env : Env) (cmd : KvsCmd) :
    kvsSwitch ops s count key value env (some cmd) = .ok (sprintf (ascii "ERROR\r\n"), s) := by
  cases cmd <;> simp [kvsSwitch, h2, h3, pure, Except.pure]

/-- A call whose result is a code and a state, and its response. -/
theorem orFault_code (op : KvsOp) (o : Option (ℤ × E)) (reply : ℤ → Reply)
    (h : ∀ c, render op (.code c) = reply c) :
    (do let (ret, s) ← orFault .engine o; return (reply ret, s))
      = (orFault .engine (do let (c, s) ← o; return (KvsRes.code c, s))).map
          (fun r => (render op r.1, r.2)) := by
  cases o with
  | none => rfl
  | some r =>
    show Except.ok (reply r.1, r.2) = Except.ok (render op (.code r.1), r.2)
    rw [h]

/-- **The switch follows the grammar.** -/
theorem kvsSwitch_eq (ops : KvsOps E) (s : E) (env : Env) (cmd : Option KvsCmd)
    (args : List CString) :
    kvsSwitch ops s (args.length + 1 : ℕ) args[0]? args[1]? env cmd
      = respond ops s env (parseArgs cmd args) := by
  cases cmd with
  | none => rfl
  | some cmd =>
    match args with
    | [] =>
      rw [kvsSwitch_malformed (by decide) (by decide)]
      cases cmd <;> rfl
    | [k] =>
      cases cmd with
      | set => rfl
      | get =>
        show (orFault .engine (ops.get s (some k)) >>= _)
          = (orFault .engine (ops.get s (some k) >>= _)).map _
        cases ops.get s (some k) with
        | none => rfl
        | some p =>
          by_cases hp : p = 0
          · subst hp
            rfl
          · show (if p = 0 then _ else orFault .engine ((ops.strs s).load p) >>= _)
              = (orFault .engine (if p = 0 then _ else (ops.strs s).load p >>= _)).map _
            rw [if_neg hp, if_neg hp]
            cases (ops.strs s).load p <;> rfl
      | del => exact orFault_code (.del k) _ _ (fun _ => rfl)
      | mod => rfl
      | exist =>
        show (orFault .engine (ops.exist s (some k)) >>= _)
          = (orFault .engine (ops.exist s (some k) >>= _)).map _
        cases ops.exist s (some k) <;> rfl
    | [k, v] =>
      cases cmd with
      | set => exact orFault_code (.set k v) _ _ (fun _ => rfl)
      | get => rfl
      | del => rfl
      | mod => exact orFault_code (.mod k v) _ _ (fun _ => rfl)
      | exist => rfl
    | k :: v :: w :: args =>
      rw [kvsSwitch_malformed (by simp; omega) (by simp; omega)]
      cases cmd <;> rfl

/-- **`kvs_filter_protocol` follows the grammar.** -/
theorem kvsFilterProtocol_eq (hts : tokens.map (stringAt mem) = ts.map some) {response : Ptr}
    (hr : response ≠ 0) (ops : KvsOps E) (s : E) (env : Env) :
    kvsFilterProtocol ops s mem tokens tokens.length response env
      = respond ops s env (parse ts) := by
  have hlen : tokens.length = ts.length := by
    simpa using congrArg List.length hts
  have hkey := tokenArg_eq hts 1
  have hvalue := tokenArg_eq hts 2
  cases tokens with
  | nil =>
    rw [List.eq_nil_of_length_eq_zero hlen.symm]
    rfl
  | cons t tokens =>
    cases ts with
    | nil => cases hlen
    | cons name args =>
      have hname : stringAt mem t = some name := (List.cons.inj hts).1
      have hcond : ¬ (((t :: tokens).length : ℤ) = 0 ∨ response = 0) := by
        simp only [List.length_cons, hr, or_false]
        omega
      refine (if_neg hcond).trans ?_
      rw [hname, hkey, hvalue, hlen]
      exact kvsSwitch_eq ops s env (kvsFindCommand name) args

end Filter

/-! ## The protocol -/

section Protocol

variable {msg : List UInt8} {length : ℤ} {response : Ptr}

/-- A message is split from its start, and its tokens are counted. -/
theorem kvsSplitToken_eq (msg : List UInt8) :
    kvsSplitToken (some msg)
      = (kvsSplitFrom KVS_MAX_TOKENS [] msg 0).map (fun r => ((r.1.length : ℤ), r.1, r.2)) := by
  show (orFault .overread (strtok blanks msg 0) >>= _)
    = (orFault .overread (strtok blanks msg 0) >>= _).map _
  cases strtok blanks msg 0 with
  | none => rfl
  | some r =>
    show (kvsSplitLoop KVS_MAX_TOKENS r.1 [] r.2.1 r.2.2 >>= _)
      = (kvsSplitLoop KVS_MAX_TOKENS r.1 [] r.2.1 r.2.2).map _
    cases kvsSplitLoop KVS_MAX_TOKENS r.1 [] r.2.1 r.2.2 <;> rfl

/-- **A message is split before anything else happens.** -/
theorem kvsProtocol_split (hl : 0 < length) (hr : response ≠ 0) (ops : KvsOps E) (s : E)
    (env : Env) :
    kvsProtocol ops s (some msg) length response env
      = (kvsSplitFrom KVS_MAX_TOKENS [] msg 0).bind
          (fun r => kvsFilterProtocol ops s r.2 r.1 r.1.length response env) := by
  have hcond : ¬ (some msg = none ∨ length ≤ 0 ∨ response = 0) := by
    simp only [hr, or_false, reduceCtorEq, false_or, not_le]
    exact hl
  refine (if_neg hcond).trans ?_
  rw [kvsSplitToken_eq]
  cases kvsSplitFrom KVS_MAX_TOKENS [] msg 0 with
  | error f => rfl
  | ok r =>
    have hcount : ¬ ((r.1.length : ℤ) = -1) := by omega
    show (if (r.1.length : ℤ) = -1 then .ok (.refused, s)
      else kvsFilterProtocol ops s r.2 r.1 r.1.length response env) = _
    rw [if_neg hcount]
    rfl

/-- **Serving a terminated message of at most 128 tokens** follows the
grammar. -/
theorem kvsProtocol_eq (hl : 0 < length) (hr : response ≠ 0) (hnul : (0 : UInt8) ∈ msg)
    (hts : (tokensOf blanks msg).length ≤ KVS_MAX_TOKENS) (ops : KvsOps E) (s : E) (env : Env) :
    kvsProtocol ops s (some msg) length response env
      = respond ops s env (parse (tokensOf blanks msg)) := by
  have hends := tokenEnds_eq_length zero_notMem_blanks hnul
  have hsplit := kvsSplitFrom_splitsTo KVS_MAX_TOKENS [] [] msg
  unfold SplitsTo at hsplit
  rw [if_neg (by omega), if_pos hnul] at hsplit
  obtain ⟨offs, mem, hok, hoffs⟩ := hsplit
  rw [kvsProtocol_split hl hr, show kvsSplitFrom KVS_MAX_TOKENS [] msg 0 = _ from hok]
  exact kvsFilterProtocol_eq hoffs hr ops s env

/-- A message in which more than 128 tokens end goes past the array. -/
theorem kvsProtocol_overrun (hl : 0 < length) (hr : response ≠ 0)
    (hends : KVS_MAX_TOKENS < tokenEnds blanks msg) (ops : KvsOps E) (s : E) (env : Env) :
    kvsProtocol ops s (some msg) length response env = .error .overrun := by
  have hsplit := kvsSplitFrom_splitsTo KVS_MAX_TOKENS [] [] msg
  unfold SplitsTo at hsplit
  rw [if_pos hends] at hsplit
  rw [kvsProtocol_split hl hr, show kvsSplitFrom KVS_MAX_TOKENS [] msg 0 = _ from hsplit]
  rfl

/-- A message without a NUL in which at most 128 tokens end is read past its
end. -/
theorem kvsProtocol_overread (hl : 0 < length) (hr : response ≠ 0)
    (hends : tokenEnds blanks msg ≤ KVS_MAX_TOKENS) (hnul : (0 : UInt8) ∉ msg) (ops : KvsOps E)
    (s : E) (env : Env) :
    kvsProtocol ops s (some msg) length response env = .error .overread := by
  have hsplit := kvsSplitFrom_splitsTo KVS_MAX_TOKENS [] [] msg
  unfold SplitsTo at hsplit
  rw [if_neg (not_lt.mpr hends), if_neg hnul] at hsplit
  rw [kvsProtocol_split hl hr, show kvsSplitFrom KVS_MAX_TOKENS [] msg 0 = _ from hsplit]
  rfl

/-- Serving a parsed request does not touch the array. -/
theorem respond_ne_overrun (ops : KvsOps E) (s : E) (env : Env) (p : Parsed) :
    respond ops s env p ≠ .error .overrun := by
  cases p with
  | call op =>
    show (orFault .engine (ops.machine s (op, env))).map _ ≠ _
    cases ops.machine s (op, env) <;> simp [orFault, Except.map]
  | malformed => simp [respond]
  | unknown => simp [respond]
  | empty => simp [respond]

/-- **A message goes past the array** exactly when more than 128 tokens end
in it. -/
theorem kvsProtocol_overrun_iff (hl : 0 < length) (hr : response ≠ 0) (ops : KvsOps E) (s : E)
    (env : Env) :
    kvsProtocol ops s (some msg) length response env = .error .overrun
      ↔ KVS_MAX_TOKENS < tokenEnds blanks msg := by
  refine ⟨fun h => ?_, fun h => kvsProtocol_overrun hl hr h ops s env⟩
  by_contra hends
  by_cases hnul : (0 : UInt8) ∈ msg
  · rw [kvsProtocol_eq hl hr hnul
      (by rw [← tokenEnds_eq_length zero_notMem_blanks hnul]; exact not_lt.mp hends)] at h
    exact respond_ne_overrun ops s env _ h
  · rw [kvsProtocol_overread hl hr (not_lt.mp hends) hnul] at h
    cases h

end Protocol
