import LinuxLearn.KvsCopies
import LinuxLearn.KvsHashInv
import LinuxLearn.KvsRbtreeInv
import LinuxLearn.KvsReceive
import LinuxLearn.KvsSkiptableInv

/-!
# Runs of the server

The server is one of the four engines, registered by `init_kvengine`,
behind `kvs_protocol`: a machine whose inputs are requests and whose
outputs are responses. What it is for is the finite map again, with
requests parsed and results rendered: `protocolSpec`.

Two results are about whole runs. Whichever engine is registered, the
responses are those of the map – except that the engines do not agree on
what deleting a missing key returns (`responses_agree_iff`). And every
response fits the write buffer, although nothing checks that it does: a
stored value came out of one request, so it is short enough
(`responses_fit`).
-/

/-- **The engines `init_kvengine` can register.** -/
inductive Engine where
  | array
  | hash
  | rbtree
  | skiptable
deriving DecidableEq

namespace Engine

/-- The instance behind `g_engine.engine`. -/
def State : Engine → Type
  | .array => KvsArray
  | .hash => KvsHash
  | .rbtree => KvsRbtree
  | .skiptable => KvsSkiptable

/-- `g_engine.ops`. -/
def ops : (e : Engine) → KvsOps e.State
  | .array => kvsArrayOps
  | .hash => kvsHashOps
  | .rbtree => kvsRbtreeOps
  | .skiptable => kvsSkiptableOps

/-- **`init_kvengine`**: the instance is cleared and created; what `create`
returns is not looked at. `garbage` is what the array's table holds when
it is allocated. -/
def initKvengine (garbage : Vector KvsArrayItem KVS_ARRAY_SIZE) (env : Env) :
    (e : Engine) → Option e.State
  | .array => some (kvsArrayCreate KvsArray.zero garbage env).2
  | .hash => some (kvsHashCreate KvsHash.zero env).2
  | .rbtree => (kvsRbtreeCreate KvsRbtree.zero env).map Prod.snd
  | .skiptable => (kvsSkiptableCreate KvsSkiptable.zero env).map Prod.snd

/-- What relates an engine to the entries it holds. -/
def Inv : (e : Engine) → e.State → List Item → Prop
  | .array => KvsArray.Inv
  | .hash => KvsHash.Holds
  | .rbtree => KvsRbtree.Holds
  | .skiptable => KvsSkiptable.Holds

/-- The codes of an engine. -/
def codes : Engine → Codes
  | .array => kvsArrayCodes
  | .hash => KvsHash.codes
  | .rbtree => Codes.plain
  | .skiptable => Codes.plain

/-- **Every engine implements the map**, with its own codes. -/
theorem implements : (e : Engine) → Implements e.ops e.Inv e.codes
  | .array => kvsArray_implements
  | .hash => KvsHash.implements
  | .rbtree => KvsRbtree.implements
  | .skiptable => KvsSkiptable.implements

/-- **Every engine copies its arguments.** -/
theorem copies : (e : Engine) → Copies e.ops
  | .array => KvsArray.copies
  | .hash => KvsHash.copies
  | .rbtree => KvsRbtree.copies
  | .skiptable => KvsSkiptable.copies

/-- An engine that was created with allocations succeeding is empty. -/
theorem exists_init (garbage : Vector KvsArrayItem KVS_ARRAY_SIZE) (rand : ℕ → Bool) :
    (e : Engine) → ∃ s, e.initKvengine garbage (Env.healthy rand) = some s ∧ e.Inv s []
  | .array => ⟨_, rfl, kvsArrayInit_inv garbage⟩
  | .hash => by
    obtain ⟨hash, hcreate, hI⟩ := KvsHash.create_inv rand
    refine ⟨hash, ?_, _, hI, by rw [KvsHash.allOf_nil, List.map_nil]⟩
    show some (kvsHashCreate KvsHash.zero (Env.healthy rand)).2 = some hash
    rw [hcreate]
  | .rbtree => by
    obtain ⟨T, hcreate, hI⟩ := KvsRbtree.create_eq rand
    refine ⟨T, ?_, .nil, hI, rfl⟩
    show (kvsRbtreeCreate KvsRbtree.zero (Env.healthy rand)).map Prod.snd = some T
    rw [hcreate]
    rfl
  | .skiptable => by
    obtain ⟨table, hcreate, hI⟩ := KvsSkiptable.create_eq rand
    refine ⟨table, ?_, [], hI, rfl⟩
    show (kvsSkiptableCreate KvsSkiptable.zero (Env.healthy rand)).map Prod.snd = some table
    rw [hcreate]
    rfl

/-- A created engine holds no string, whatever allocations did. -/
theorem init_all (P : CString → Prop) (garbage : Vector KvsArrayItem KVS_ARRAY_SIZE) (env : Env)
    (e : Engine) : Post (e.initKvengine garbage env) (fun s => (e.ops.strs s).All P) := by
  have hempty : ∀ {strs : Heap CString}, strs = Heap.empty → strs.All P := fun h => h ▸ Heap.All.empty
  cases e with
  | array => exact .pure (hempty (KvsArray.create_strs KvsArray.zero garbage env))
  | hash => exact .pure (hempty (KvsHash.create_strs KvsHash.zero env))
  | rbtree => exact .map ((KvsRbtree.create_strs KvsRbtree.zero env).mono (fun _ h => hempty h))
  | skiptable =>
    exact .map ((KvsSkiptable.create_strs KvsSkiptable.zero env).mono (fun _ h => hempty h))

end Engine

/-! ## Requests and responses -/

/-- **A request.** -/
structure Request where
  /-- The memory from the message on. -/
  mem : List UInt8
  /-- The length that is passed with it. -/
  length : ℤ

namespace Request

/-- What a request asks for; nothing, if the length is not positive. -/
def asks (q : Request) : Parsed :=
  if q.length ≤ 0 then .empty else parse (tokensOf blanks q.mem)

/-- **A request that can be served**: it is terminated, and its tokens fit the
array. -/
structure WellFormed (q : Request) : Prop where
  terminated : (0 : UInt8) ∈ q.mem
  tokens_le : (tokensOf blanks q.mem).length ≤ KVS_MAX_TOKENS

/-- A request to delete a key that is not stored. -/
def DelMiss (q : Request) (m : Store) : Prop := ∃ k, q.asks = .call (.del k) ∧ k ∉ m

end Request

variable {E : Type}

/-- **The server**: one call of `kvs_protocol` for each request. -/
def KvsOps.server (ops : KvsOps E) : Machine E (Request × Env) Reply := fun s i =>
  (kvsProtocol ops s (some i.1.mem) i.1.length wbuffer i.2).toOption

/-- The server on calls all of whose allocations succeed. -/
def KvsOps.healthyServer (ops : KvsOps E) : Machine E (Request × (ℕ → Bool)) Reply :=
  ops.server.comap (fun i => (i.1, Env.healthy i.2))

/-- **The finite map behind the protocol**, with an engine's own codes. -/
def protocolSpec (c : Codes) : Spec Store Request Reply := fun m q =>
  match q.asks with
  | .call op => (render op (engineSpec c m op).1, (engineSpec c m op).2)
  | p => (p.refusal, m)

/-- One request that can be served. -/
theorem server_eq {q : Request} (hq : q.WellFormed) (ops : KvsOps E) (s : E) (env : Env) :
    ops.server s (q, env) = (respond ops s env q.asks).toOption := by
  unfold KvsOps.server Request.asks
  by_cases hl : q.length ≤ 0
  · have hcond : some q.mem = none ∨ q.length ≤ 0 ∨ wbuffer = 0 := Or.inr (Or.inl hl)
    rw [if_pos hl]
    exact congrArg Except.toOption (if_pos hcond)
  · rw [if_neg hl, kvsProtocol_eq (not_le.mp hl) Received.wbuffer_ne hq.terminated hq.tokens_le]

/-- **An engine that implements the map serves it.** -/
theorem Implements.serves {ops : KvsOps E} {Inv : E → List Item → Prop} {c : Codes}
    (h : Implements ops Inv c) :
    Simulates ops.healthyServer (protocolSpec c) Prod.fst (fun _ q => q.WellFormed)
      (Represents Inv) := by
  rintro s m ⟨q, rand⟩ hR hq
  show ∃ s', ops.server s (q, Env.healthy rand) = some ((protocolSpec c m q).1, s')
    ∧ Represents Inv s' (protocolSpec c m q).2
  rw [server_eq hq]
  unfold protocolSpec
  cases q.asks with
  | call op =>
    obtain ⟨s', hs, hR'⟩ := h.simulates s m (op, rand) hR trivial
    refine ⟨s', ?_, hR'⟩
    have hmachine : ops.machine s (op, Env.healthy rand) = some ((engineSpec c m op).1, s') := hs
    rw [toOption_respond_call, hmachine]
    rfl
  | malformed => exact ⟨s, rfl, hR⟩
  | unknown => exact ⟨s, rfl, hR⟩
  | empty => exact ⟨s, rfl, hR⟩

/-! ## Interchanging engines -/

/-- **The responses of a run**, as byte strings. -/
def KvsOps.responses (ops : KvsOps E) (s : E) (is : List (Request × (ℕ → Bool))) :
    Option (List (List UInt8)) :=
  (ops.healthyServer.run s is).map (fun r => r.1.map Reply.bytes)

/-- The engine is as `init_kvengine` leaves it, allocations succeeding. -/
def Engine.Started (e : Engine) (s : e.State) : Prop :=
  ∃ garbage rand, e.initKvengine garbage (Env.healthy rand) = some s

/-- **A run of any engine** on requests that can be served answers as its
map does. -/
theorem Engine.responses_eq {e : Engine} {s : e.State} (hs : e.Started s)
    (is : List (Request × (ℕ → Bool))) (hq : ∀ q ∈ is.map Prod.fst, q.WellFormed) :
    e.ops.responses s is
      = some (((protocolSpec e.codes).run ∅ (is.map Prod.fst)).1.map Reply.bytes) := by
  obtain ⟨garbage, rand, hinit⟩ := hs
  obtain ⟨s₀, hinit', hI⟩ := e.exists_init garbage rand
  obtain rfl : s₀ = s := Option.some.inj (hinit'.symm.trans hinit)
  obtain ⟨s', hrun, -⟩ := e.implements.serves.run ⟨[], hI, rfl⟩ (Spec.Along.of_forall_mem hq)
  unfold KvsOps.responses
  rw [hrun]
  rfl

section Agree

variable {c : Codes} {m : Store} {q : Request}

/-- A positive code is answered by its text. -/
theorem replyOfRet_of_pos {ret : ℤ} (h : 0 < ret) (text : String) :
    replyOfRet text ret = sprintf (ascii text) := by
  unfold replyOfRet
  rw [if_neg (not_lt.mpr h.le), if_neg h.ne']

/-- **Where the codes do not show**: with room in the store and a positive
code for a missed `MOD`, every request but a missed `DEL` is answered as
the interface means it. -/
theorem protocolSpec_eq_plain (hfull : c.full m.size = false) (hmod : 0 < c.modMiss m.size)
    (hq : ¬ q.DelMiss m) : protocolSpec c m q = protocolSpec Codes.plain m q := by
  unfold protocolSpec
  cases hasks : q.asks with
  | call op =>
    cases op with
    | set k v =>
      show (render (.set k v) (engineSpec c m (.set k v)).1, (engineSpec c m (.set k v)).2) = _
      simp only [engineSpec, hfull, Codes.plain]
      rfl
    | get k => rfl
    | del k =>
      have hk : k ∈ m := by
        by_contra hk
        exact hq ⟨k, hasks, hk⟩
      show (render (.del k) (engineSpec c m (.del k)).1, (engineSpec c m (.del k)).2) = _
      simp only [engineSpec, if_pos hk]
    | mod k v =>
      show (render (.mod k v) (engineSpec c m (.mod k v)).1, (engineSpec c m (.mod k v)).2) = _
      simp only [engineSpec]
      by_cases hk : k ∈ m
      · rw [if_pos hk, if_pos hk]
      · rw [if_neg hk, if_neg hk]
        simp only [render, replyOfRet_of_pos hmod]
        rfl
    | exist k => rfl
  | malformed => rfl
  | unknown => rfl
  | empty => rfl

/-- The hash table's codes change no state. -/
theorem protocolSpec_hash_snd (m : Store) (q : Request) :
    (protocolSpec KvsHash.codes m q).2 = (protocolSpec Codes.plain m q).2 := by
  unfold protocolSpec
  cases q.asks with
  | call op =>
    show (engineSpec KvsHash.codes m op).2 = (engineSpec Codes.plain m op).2
    rw [engineSpec_snd rfl, engineSpec_plain]
  | malformed => rfl
  | unknown => rfl
  | empty => rfl

/-- The hash table answers a missed `DEL` by an error. -/
theorem protocolSpec_hash_ne (h : q.DelMiss m) :
    (protocolSpec KvsHash.codes m q).1.bytes ≠ (protocolSpec Codes.plain m q).1.bytes := by
  obtain ⟨k, hasks, hk⟩ := h
  unfold protocolSpec
  rw [hasks]
  show (render (.del k) (engineSpec KvsHash.codes m (.del k)).1).bytes
    ≠ (render (.del k) (engineSpec Codes.plain m (.del k)).1).bytes
  simp only [engineSpec, if_neg hk]
  show (replyOfRet "NO EXIST\r\n" (-1)).bytes ≠ (replyOfRet "NO EXIST\r\n" 1).bytes
  decide

/-- A run on which the hash table answers as the interface means it has no
missed `DEL`. -/
theorem along_of_hash_eq {qs : List Request} {m : Store}
    (h : ((protocolSpec KvsHash.codes).run m qs).1.map Reply.bytes
      = ((protocolSpec Codes.plain).run m qs).1.map Reply.bytes) :
    (protocolSpec Codes.plain).Along (fun m q => ¬ q.DelMiss m) m qs := by
  induction qs generalizing m with
  | nil => trivial
  | cons q qs ih =>
    obtain ⟨hhead, htail⟩ := List.cons.inj h
    rw [protocolSpec_hash_snd] at htail
    exact ⟨fun hmiss => protocolSpec_hash_ne hmiss hhead, ih htail⟩

/-- Below the capacity of the array, the codes of every engine are as the
interface means them, but for a missed `DEL`. -/
theorem Engine.codes_room (e : Engine) {n : ℕ} (hn : n < KVS_ARRAY_SIZE) :
    e.codes.full n = false ∧ 0 < e.codes.modMiss n := by
  cases e with
  | array =>
    refine ⟨beq_eq_false_iff_ne.mpr hn.ne, ?_⟩
    show (0 : ℤ) < if n = 0 then (KVS_ARRAY_SIZE : ℤ) else n
    by_cases h0 : n = 0
    · rw [if_pos h0]
      decide
    · rw [if_neg h0]
      exact Int.natCast_pos.mpr (Nat.pos_of_ne_zero h0)
  | hash => exact ⟨rfl, Int.one_pos⟩
  | rbtree => exact ⟨rfl, Int.one_pos⟩
  | skiptable => exact ⟨rfl, Int.one_pos⟩

end Agree

/-- The four engines answer a sequence of requests by the same byte strings,
whatever `rand` returns and whatever the array's table holds at first. -/
def SameResponses (qs : List Request) : Prop :=
  ∃ out, ∀ (e : Engine) (s : e.State) (is : List (Request × (ℕ → Bool))),
    e.Started s → is.map Prod.fst = qs → e.ops.responses s is = some out

/-- Engines that answer alike were asked to delete stored keys only. -/
theorem SameResponses.along {qs : List Request} (h : SameResponses qs)
    (hq : ∀ q ∈ qs, q.WellFormed) :
    (protocolSpec Codes.plain).Along (fun m q => ¬ q.DelMiss m) ∅ qs := by
  obtain ⟨out, hout⟩ := h
  have hfst : (qs.map (fun q => (q, fun _ : ℕ => false))).map Prod.fst = qs := by
    rw [List.map_map]
    exact List.map_id qs
  have hrun : ∀ e : Engine, ((protocolSpec e.codes).run ∅ qs).1.map Reply.bytes = out := by
    intro e
    obtain ⟨s, hinit, -⟩ := e.exists_init (Vector.replicate KVS_ARRAY_SIZE ⟨0, 0⟩) (fun _ => false)
    have hs : e.Started s := ⟨_, _, hinit⟩
    have heq := e.responses_eq hs (qs.map (fun q => (q, fun _ => false))) (hfst.symm ▸ hq)
    rw [hout e s _ hs hfst, hfst] at heq
    exact (Option.some.inj heq).symm
  -- the hash table and the skip list alone decide it
  exact along_of_hash_eq ((hrun .hash).trans (hrun .skiptable).symm)

/-- **The engines are interchangeable** on a sequence of requests that can be
served, with fewer than 1024 keys stored at once, exactly if none of them
deletes a key that is not stored. -/
theorem responses_agree_iff (qs : List Request) (hq : ∀ q ∈ qs, q.WellFormed)
    (hkeys : (protocolSpec Codes.plain).Along (fun m _ => m.size < KVS_ARRAY_SIZE) ∅ qs) :
    SameResponses qs ↔ (protocolSpec Codes.plain).Along (fun m q => ¬ q.DelMiss m) ∅ qs := by
  refine ⟨fun h => h.along hq, fun hdel => ?_⟩
  refine ⟨((protocolSpec Codes.plain).run ∅ qs).1.map Reply.bytes, ?_⟩
  rintro e s is hs rfl
  have hcongr : (protocolSpec e.codes).run ∅ (is.map Prod.fst)
      = (protocolSpec Codes.plain).run ∅ (is.map Prod.fst) :=
    Spec.run_congr (fun m q h => protocolSpec_eq_plain (e.codes_room h.1).1 (e.codes_room h.1).2 h.2)
      (hkeys.and hdel)
  rw [e.responses_eq hs is hq, hcongr]

/-- A request by its text. -/
def Request.ofText (text : String) : Request := ⟨ascii text ++ [0], text.length⟩

/-- Setting, reading and deleting a key. -/
theorem sameResponses_set_get_del :
    SameResponses [.ofText "SET k v", .ofText "GET k", .ofText "DEL k"] := by
  refine (responses_agree_iff _ ?_ ?_).mpr ?_
  · simp only [List.forall_mem_cons]
    exact ⟨⟨by decide, by decide⟩, ⟨by decide, by decide⟩, ⟨by decide, by decide⟩, by simp⟩
  · refine ⟨?_, ?_, ?_, trivial⟩
    · decide
    · decide +kernel
    · decide +kernel
  · have hset : (Request.ofText "SET k v").asks
        = .call (.set ⟨ascii "k", by decide⟩ ⟨ascii "v", by decide⟩) := by decide
    have hget : (Request.ofText "GET k").asks = .call (.get ⟨ascii "k", by decide⟩) := by decide
    have hdel : (Request.ofText "DEL k").asks = .call (.del ⟨ascii "k", by decide⟩) := by decide
    refine ⟨?_, ?_, ?_, trivial⟩
    · rintro ⟨k, hk, -⟩
      cases hset.symm.trans hk
    · rintro ⟨k, hk, -⟩
      cases hget.symm.trans hk
    · rintro ⟨k, hk, hnot⟩
      cases hdel.symm.trans hk
      exact hnot (by decide +kernel)

/-- A single request to delete a key, to an empty store. -/
theorem not_sameResponses_del :
    ¬ ∀ qs : List Request, (∀ q ∈ qs, q.WellFormed) →
      (protocolSpec Codes.plain).Along (fun m _ => m.size < KVS_ARRAY_SIZE) ∅ qs →
      SameResponses qs := by
  intro h
  have hq : ∀ q ∈ [Request.ofText "DEL k"], q.WellFormed := by
    simp only [List.forall_mem_singleton]
    exact ⟨by decide, by decide⟩
  have hmiss := (h _ hq ⟨by decide, trivial⟩).along hq
  exact hmiss.1 ⟨⟨[107], by decide⟩, by decide, Finmap.notMem_empty⟩

/-! ## The write buffer -/

/-- A string of at most 1018 bytes: what a request of 1024 bytes has left for
one argument of `SET` or `MOD`. -/
def Short (w : CString) : Prop := w.strlen ≤ 1018

/-- **A response fits the write buffer**: its length and the bytes printed, each
with the terminating NUL. -/
def Reply.Fits (a : Reply) : Prop :=
  a.length + 1 ≤ BUFFER_LENGTH ∧ a.bytes.length + 1 ≤ BUFFER_LENGTH

/-- A response that fits can be printed to a clear buffer. -/
theorem printTo_of_fits {a : Reply} (h : a.Fits) : ∃ buf, a.printTo zeros = some buf := by
  have hlength : a.bytes.length < zeros.length := by
    rw [zeros, List.length_replicate]
    exact h.2
  unfold Reply.printTo
  by_cases hneg : a.length < 0
  · exact ⟨_, if_pos hneg⟩
  · exact ⟨_, (if_neg hneg).trans (if_pos hlength)⟩

/-- **A request as received**, with what lies behind the read buffer: the read buffer
of `server_reader` is an array on the stack, and anything may. -/
def Received.requestOver (r : Received) (rest : List UInt8) : Request :=
  ⟨r.rbuffer rest, r.bytes.length⟩

/-- A request as the reactor and the proactor receive it: behind the read buffer of
`struct conn` and of `io_conn_t` comes the number of bytes received, and its low
byte is a NUL if they fill the buffer. -/
def Received.request (r : Received) : Request := r.requestOver [0]

namespace Received

theorem terminated (r : Received) : (0 : UInt8) ∈ r.request.mem := by
  unfold request requestOver
  rw [rbuffer_eq_append]
  exact List.mem_append_right _ List.mem_cons_self

/-- What is read of a request is no longer than the buffer. -/
theorem length_takeWhile_le (r : Received) :
    (r.request.mem.takeWhile (fun b => b ≠ 0)).length ≤ BUFFER_LENGTH := by
  have hlength : (r.rbuffer []).length = BUFFER_LENGTH := by
    have hle := r.length_le
    simp only [rbuffer, List.append_nil, List.length_append, List.length_replicate]
    omega
  have hle := length_takeWhile_ne_zero_le (r.rbuffer []) []
  rw [hlength] at hle
  unfold request requestOver
  rw [rbuffer_eq_append]
  exact hle

end Received

/-- A command is found under its own name. -/
theorem eq_command_of_kvsFindCommand {name : CString} {cmd : KvsCmd}
    (h : kvsFindCommand name = some cmd) : name = command cmd := by
  unfold kvsFindCommand at h
  have heq := List.find?_some h
  exact (strcmp_eq_zero _ _).mp (of_decide_eq_true heq)

/-- The name of a command of three letters, a key and a value that share 1024
bytes with the blanks between them. -/
theorem short_of_sum {name k v : CString} (hpos : ∀ w ∈ [name, k, v], 0 < w.strlen)
    (hname : name.strlen = 3)
    (hsum : ([name, k, v].map (fun w => w.strlen + 1)).sum ≤ BUFFER_LENGTH + 1) :
    Short k ∧ Short v := by
  have hk : 0 < k.strlen := hpos k (by simp)
  have hv : 0 < v.strlen := hpos v (by simp)
  have hsum' : name.strlen + 1 + (k.strlen + 1 + (v.strlen + 1 + 0)) ≤ 1024 + 1 := hsum
  unfold Short
  omega

/-- **A request has room for short arguments only.** -/
theorem keeps_of_parse {ts : List CString} {op : KvsOp} (h : parse ts = .call op)
    (hpos : ∀ w ∈ ts, 0 < w.strlen)
    (hsum : (ts.map (fun w => w.strlen + 1)).sum ≤ BUFFER_LENGTH + 1) : op.Keeps Short := by
  cases ts with
  | nil => cases h
  | cons name args =>
    have hargs : parseArgs (kvsFindCommand name) args = .call op := h
    rcases hcmd : kvsFindCommand name with _ | cmd
    · rw [hcmd] at hargs
      cases hargs
    have hname : name.strlen = (command cmd).strlen :=
      congrArg CString.strlen (eq_command_of_kvsFindCommand hcmd)
    rw [hcmd] at hargs
    -- all but the right number of arguments for the command are malformed
    rcases args with _ | ⟨k, _ | ⟨v, _ | ⟨w, args⟩⟩⟩ <;> cases cmd <;> cases hargs
    · exact trivial
    · exact trivial
    · exact trivial
    · exact short_of_sum hpos hname hsum
    · exact (short_of_sum hpos hname hsum).2

/-- The texts of the protocol fit. -/
theorem fits_sprintf {text : List UInt8} (h : text.length + 1 ≤ BUFFER_LENGTH) :
    (sprintf text).Fits := by
  refine ⟨?_, h⟩
  show (text.length : ℤ) + 1 ≤ (BUFFER_LENGTH : ℤ)
  exact_mod_cast h

theorem fits_refused : Reply.refused.Fits := ⟨by decide, by decide⟩

theorem fits_replyOfRet {text : String} (h : (ascii text).length + 1 ≤ BUFFER_LENGTH) (ret : ℤ) :
    (replyOfRet text ret).Fits := by
  unfold replyOfRet
  split
  · exact fits_sprintf (by decide)
  · split
    · exact fits_sprintf (by decide)
    · exact fits_sprintf h

/-- The response to a call that returns a short string, or none. -/
theorem fits_render (op : KvsOp) {r : KvsRes} (hr : r.Gives Short) : (render op r).Fits := by
  cases op with
  | set k v =>
    cases r with
    | code ret => exact fits_replyOfRet (by decide) ret
    | value v => exact fits_refused
  | get k =>
    rcases r with ret | _ | v
    · exact fits_refused
    · exact fits_sprintf (by decide)
    · have hv : v.bytes.length ≤ 1018 := hr
      refine fits_sprintf ?_
      have htwo : (ascii "\r\n").length = 2 := by decide
      rw [List.length_append, htwo]
      show v.bytes.length + 2 + 1 ≤ 1024
      omega
  | del k =>
    cases r with
    | code ret => exact fits_replyOfRet (by decide) ret
    | value v => exact fits_refused
  | mod k v =>
    cases r with
    | code ret => exact fits_replyOfRet (by decide) ret
    | value v => exact fits_refused
  | exist k =>
    cases r with
    | code ret =>
      refine fits_sprintf ?_
      split <;> decide
    | value v => exact fits_refused

theorem fits_refusal (p : Parsed) : p.refusal.Fits := by
  cases p with
  | call op => exact fits_refused
  | malformed => exact fits_sprintf (by decide)
  | unknown => exact fits_sprintf (by decide)
  | empty => exact fits_refused

/-- **One request**: an engine that holds short strings answers by a response
that fits, and holds short strings after it. -/
theorem server_fits {ops : KvsOps E} (hc : Copies ops) {s : E} (r : Received) (env : Env)
    (hs : (ops.strs s).All Short) :
    Post (ops.server s (r.request, env)) (fun o => (ops.strs o.2).All Short ∧ o.1.Fits) := by
  have hnul := r.terminated
  by_cases hts : (tokensOf blanks r.request.mem).length ≤ KVS_MAX_TOKENS
  · have hasks : r.request.asks = parse (tokensOf blanks r.request.mem) :=
      if_neg (not_le.mpr r.natCast_length_pos)
    rw [server_eq ⟨hnul, hts⟩]
    cases hparse : r.request.asks with
    | call op =>
      have hop : op.Keeps Short := by
        refine keeps_of_parse (hasks.symm.trans hparse)
          (strlen_pos_of_mem_tokensOf zero_notMem_blanks hnul) ?_
        exact (sum_tokensOf_le zero_notMem_blanks hnul).trans
          (Nat.succ_le_succ r.length_takeWhile_le)
      rw [toOption_respond_call]
      exact .map ((hc.machine env hs hop).mono (fun o ho => ⟨ho.2, fits_render op ho.1⟩))
    | malformed => exact .pure ⟨hs, fits_refusal .malformed⟩
    | unknown => exact .pure ⟨hs, fits_refusal .unknown⟩
    | empty => exact .pure ⟨hs, fits_refusal .empty⟩
  · -- more tokens than the array has entries: the request does not return
    have hends : KVS_MAX_TOKENS < tokenEnds blanks r.request.mem := by
      rw [tokenEnds_eq_length zero_notMem_blanks hnul]
      exact not_le.mp hts
    have hnone : ops.server s (r.request, env) = none := congrArg Except.toOption
      (kvsProtocol_overrun r.natCast_length_pos Received.wbuffer_ne hends ops s env)
    rw [hnone]
    exact fun _ he => nomatch he

/-- **A run of the server** keeps the engine's strings short, and its responses
fit. -/
theorem server_run_fits (e : Engine) {garbage : Vector KvsArrayItem KVS_ARRAY_SIZE} {env : Env}
    {s s' : e.State} (hinit : e.initKvengine garbage env = some s) {is : List (Received × Env)}
    {out : List Reply}
    (hrun : e.ops.server.run s (is.map (fun i => (i.1.request, i.2))) = some (out, s')) :
    (e.ops.strs s').All Short ∧ ∀ a ∈ out, a.Fits := by
  refine Machine.run_invariant (I := fun s => (e.ops.strs s).All Short)
    (P := fun i => ∃ r : Received, i.1 = r.request) ?_ (e.init_all Short garbage env s hinit) ?_ hrun
  · rintro s ⟨_, env⟩ a s' hs ⟨r, rfl⟩ hstep
    exact server_fits e.copies r env hs _ hstep
  · intro i hi
    obtain ⟨j, -, rfl⟩ := List.mem_map.mp hi
    exact ⟨j.1, rfl⟩

/-- **Every response fits the write buffer.** In every run of the server from
the empty store, whatever allocations succeed and whichever engine is
registered, what `kvs_protocol` returns and prints fits; and the run does
return if allocations succeed and no request has more than 128 tokens. -/
theorem responses_fit (e : Engine) {garbage : Vector KvsArrayItem KVS_ARRAY_SIZE} {env : Env}
    {s : e.State} (hinit : e.initKvengine garbage env = some s) :
    (∀ (is : List (Received × Env)) (out : List Reply) (s' : e.State),
      e.ops.server.run s (is.map (fun i => (i.1.request, i.2))) = some (out, s') →
        ∀ a ∈ out, a.Fits)
    ∧ (e.Started s → ∀ is : List (Received × (ℕ → Bool)),
      (∀ i ∈ is, (tokensOf blanks i.1.request.mem).length ≤ KVS_MAX_TOKENS) →
        ∃ out s', e.ops.server.run s (is.map (fun i => (i.1.request, Env.healthy i.2)))
          = some (out, s')) := by
  constructor
  · exact fun is out s' hrun => (server_run_fits e hinit hrun).2
  · rintro ⟨garbage', rand, hinit'⟩ is hts
    obtain ⟨s₀, hs₀, hI⟩ := e.exists_init garbage' rand
    obtain rfl : s₀ = s := Option.some.inj (hs₀.symm.trans hinit')
    have hwell : ∀ q ∈ (is.map (fun i => (i.1.request, i.2))).map Prod.fst, q.WellFormed := by
      intro q hq
      rw [List.map_map] at hq
      obtain ⟨i, hi, rfl⟩ := List.mem_map.mp hq
      exact ⟨i.1.terminated, hts i hi⟩
    obtain ⟨s', hrun, -⟩ := e.implements.serves.run ⟨[], hI, rfl⟩ (Spec.Along.of_forall_mem hwell)
    unfold KvsOps.healthyServer at hrun
    rw [Machine.run_comap, List.map_map] at hrun
    exact ⟨_, s', hrun⟩

/-- A request as received, by its text. -/
def Received.ofText (text : String) (hpos : 0 < (ascii text).length)
    (hle : (ascii text).length ≤ BUFFER_LENGTH) : Received :=
  ⟨ascii text, hpos, hle⟩

/-- Setting a key and reading it back, with the skip list. -/
theorem responses_fit_set_get :
    ∃ s out s', Engine.skiptable.initKvengine (Vector.replicate KVS_ARRAY_SIZE ⟨0, 0⟩)
        (Env.healthy (fun _ => false)) = some s
      ∧ Engine.skiptable.ops.server.run s
          [((Received.ofText "SET k v" (by decide) (by decide)).request,
              Env.healthy (fun _ => false)),
            ((Received.ofText "GET k" (by decide) (by decide)).request,
              Env.healthy (fun _ => false))]
          = some (out, s')
      ∧ ∀ a ∈ out, a.Fits := by
  obtain ⟨s, hinit, -⟩ := Engine.exists_init (Vector.replicate KVS_ARRAY_SIZE ⟨0, 0⟩)
    (fun _ => false) .skiptable
  obtain ⟨hfit, hreturn⟩ := responses_fit .skiptable hinit
  obtain ⟨out, s', hrun⟩ := hreturn ⟨_, _, hinit⟩
    [(.ofText "SET k v" (by decide) (by decide), fun _ => false),
      (.ofText "GET k" (by decide) (by decide), fun _ => false)]
    (by
      simp only [List.forall_mem_cons]
      exact ⟨by decide +kernel, by decide +kernel, by simp⟩)
  refine ⟨s, out, s', hinit, hrun, hfit
    [(.ofText "SET k v" (by decide) (by decide), Env.healthy (fun _ => false)),
      (.ofText "GET k" (by decide) (by decide), Env.healthy (fun _ => false))] out s' ?_⟩
  exact hrun
