import LinuxLearn.Exchange
import LinuxLearn.KvsGrammar

/-!
# The reactor

`reactor.c`: one thread, one epoll instance and an array `conn_list` with
a slot for every descriptor below 1024. A slot holds the buffers of a
connection and the callbacks the loop dispatches to; the listener's
`accept_cb` sits where a client has its `recv_cb`. A client is registered
for reading until a request has been served and for writing until its
response has been sent.

The loop takes a batch of events from `epoll_wait` and dispatches them one
by one, so the model's steps are the two: a wait, and one dispatch. What
the kernel answers to the call a callback makes comes with the step. What
is assumed of the kernel (`Kernel`): it reports what is registered, each
descriptor once in a batch, and `accept` returns a descriptor that is not
open.
-/

open Exchange

/-- `CONNECTION_SIZE`. -/
def CONNECTION_SIZE : ℕ := 1024

/-- A mask of epoll events. -/
structure Events where
  epollin : Bool
  epollout : Bool
deriving DecidableEq

/-- `EPOLLIN`. -/
def EPOLLIN : Events := ⟨true, false⟩

/-- `EPOLLOUT`. -/
def EPOLLOUT : Events := ⟨false, true⟩

/-- The callbacks. -/
inductive Callback where
  | acceptCb
  | recvCb
  | sendCb
deriving DecidableEq

/-- **`struct conn`.** -/
structure Conn where
  fd : ℕ
  rbuffer : List UInt8
  /-- How many bytes of `rbuffer` were received. -/
  rlength : ℤ
  wbuffer : List UInt8
  /-- How many bytes of `wbuffer` are to be sent. -/
  wlength : ℤ
  /-- `none` is null. -/
  sendCallback : Option Callback
  /-- The union of `recv_callback` and `accept_callback`. -/
  rAction : Option Callback

/-- A zeroed slot. -/
def Conn.zero : Conn := ⟨0, zeros, 0, zeros, 0, none, none⟩

/-- **The reactor**, and what the kernel has of it. -/
structure Reactor (E : Type) where
  /-- The engine behind the handler. -/
  engine : E
  connList : ℕ → Conn
  /-- The interest list of `epfd`. -/
  epoll : ℕ → Option Events
  /-- Which sockets are open. -/
  opened : ℕ → Bool
  /-- The events of the batch that are still to be dispatched. -/
  ready : List (ℕ × Events)

/-- **How the loop can go wrong.** -/
inductive ReactorFault where
  /-- A null callback is called. -/
  | nullCallback
  /-- An array is accessed past its end. -/
  | outOfBounds
  /-- A negative length is passed to `send`. -/
  | negativeLength
  /-- `kvs_protocol` goes wrong. -/
  | protocol (f : Fault)
deriving DecidableEq

/-- An entry of the reactor's log. -/
abbrev ReactorAct := Act ℕ (Request × Env) UInt8

namespace Reactor

variable {E : Type}

/-- `close`: the kernel drops a closed descriptor from the interest list. -/
def close (s : Reactor E) (fd : ℕ) : Reactor E :=
  { s with opened := Function.update s.opened fd false, epoll := Function.update s.epoll fd none }

/-- **`set_event`**: `EPOLL_CTL_ADD` fails on a descriptor that is registered,
`EPOLL_CTL_MOD` on one that is not, and nobody looks. -/
def setEvent (s : Reactor E) (fd : ℕ) (event : Events) (add : Bool) : Reactor E :=
  if add then
    if s.epoll fd = none then { s with epoll := Function.update s.epoll fd (some event) } else s
  else
    if s.epoll fd = none then s else { s with epoll := Function.update s.epoll fd (some event) }

/-- A registered descriptor is modified. -/
theorem setEvent_mod_of_some {s : Reactor E} {fd : ℕ} {i : Events} (h : s.epoll fd = some i)
    (event : Events) :
    setEvent s fd event false = { s with epoll := Function.update s.epoll fd (some event) } := by
  unfold setEvent
  rw [if_neg Bool.false_ne_true, h]
  rfl

/-- **`accept_cb`.** -/
def acceptCb (s : Reactor E) (answer : Answer) : List ReactorAct × Reactor E :=
  match answer.accept with
  | none => ([], s)
  | some clientfd =>
    let s := { s with opened := Function.update s.opened clientfd true }
    if CONNECTION_SIZE ≤ clientfd then
      ([.accept clientfd, .close clientfd], s.close clientfd)
    else
      let c : Conn :=
        { s.connList clientfd with
          fd := clientfd
          rAction := some .recvCb
          sendCallback := some .sendCb
          rbuffer := zeros
          rlength := 0
          wbuffer := zeros
          wlength := 0 }
      ([.accept clientfd],
        setEvent { s with connList := Function.update s.connList clientfd c } clientfd EPOLLIN true)

/-- **`kvs_request`**: the handler on the read buffer, and its result in the
write buffer. Behind a read buffer that is full lies the low byte of
`rlength`, which is then a NUL. -/
def kvsRequest (ops : KvsOps E) (engine : E) (c : Conn) (env : Env) :
    Except ReactorFault (Reply × Conn × E) :=
  match kvsProtocol ops engine (some (c.rbuffer ++ [0])) c.rlength wbuffer env with
  | .error f => .error (.protocol f)
  | .ok (a, engine) =>
    match a.printTo c.wbuffer with
    | none => .error .outOfBounds
    | some buf => .ok (a, { c with wbuffer := buf, wlength := a.length }, engine)

/-- **`recv_cb`.** On an error or a disconnect the descriptor is closed first and
deleted from the interest list then, which fails and is not needed. -/
def recvCb (ops : KvsOps E) (s : Reactor E) (fd : ℕ) (answer : Answer) :
    Except ReactorFault (List ReactorAct × Reactor E) :=
  match answer.recv with
  | .failed =>
    .ok ([.close fd],
      { s.close fd with connList := Function.update s.connList fd Conn.zero })
  | .disconnected =>
    .ok ([.close fd],
      { s.close fd with connList := Function.update s.connList fd Conn.zero })
  | .data r => do
    let c := { s.connList fd with rbuffer := r.rbuffer [], rlength := r.bytes.length }
    let (a, c, engine) ← kvsRequest ops s.engine c answer.env
    return ([.recv fd (r.request, answer.env) a.bytes],
      setEvent { s with engine := engine, connList := Function.update s.connList fd c } fd EPOLLOUT
        false)

/-- **`send_cb`**: of the bytes it is asked to send, `send` sends as many as it
says, and the callback does not look. -/
def sendCb (s : Reactor E) (fd : ℕ) (answer : Answer) :
    Except ReactorFault (List ReactorAct × Reactor E) :=
  let c := s.connList fd
  if c.wlength = 0 then .ok ([], setEvent s c.fd EPOLLIN false)
  else if c.wlength < 0 then .error .negativeLength
  else if c.wbuffer.length < c.wlength then .error .outOfBounds
  else
    let asked := c.wbuffer.take c.wlength.toNat
    .ok ([.send fd asked (asked.take (answer.send.getD 0))], setEvent s c.fd EPOLLIN false)

/-- A call through a slot of `conn_list`. -/
def call (ops : KvsOps E) (s : Reactor E) (fd : ℕ) (answer : Answer) :
    Option Callback → Except ReactorFault (List ReactorAct × Reactor E)
  | none => .error .nullCallback
  | some .acceptCb => .ok (acceptCb s answer)
  | some .recvCb => recvCb ops s fd answer
  | some .sendCb => sendCb s fd answer

/-- **One round of the dispatch loop**: the next event of the batch. -/
def dispatch (ops : KvsOps E) (s : Reactor E) (answer : Answer) :
    Except ReactorFault (List ReactorAct × Reactor E) :=
  match s.ready with
  | [] => .ok ([], s)
  | (connfd, events) :: ready =>
    if CONNECTION_SIZE ≤ connfd then .error .outOfBounds
    else do
      let s := { s with ready := ready }
      let (log, s) ← (if events.epollin then call ops s connfd answer (s.connList connfd).rAction
        else .ok ([], s))
      let (log', s) ← (if events.epollout then
          call ops s connfd answer (s.connList connfd).sendCallback
        else .ok ([], s))
      return (log ++ log', s)

/-- A step of the loop: a return from `epoll_wait`, or a dispatch. -/
inductive Input where
  | wait (events : List (ℕ × Events))
  | dispatch (answer : Answer)

/-- **One step of `reactor_start`'s loop.** -/
def step (ops : KvsOps E) (s : Reactor E) : Input → Except ReactorFault (List ReactorAct × Reactor E)
  | .wait events => .ok ([], { s with ready := events })
  | .dispatch answer => dispatch ops s answer

/-- **The reactor as it enters its loop**: all slots zeroed but the listener's. -/
def start (engine : E) (listener : ℕ) : Reactor E where
  engine := engine
  connList := Function.update (fun _ => Conn.zero) listener
    { Conn.zero with fd := listener, rAction := some .acceptCb }
  epoll := Function.update (fun _ => none) listener (some EPOLLIN)
  opened := Function.update (fun _ => false) listener true
  ready := []

/-- The reactor as a machine. -/
def machine (ops : KvsOps E) : Machine (Reactor E) Input (List ReactorAct) := fun s i =>
  (step ops s i).toOption

/-- **What is assumed of the kernel and the clients.** A wait comes when a batch
is done, and reports registered events, each descriptor once. A dispatch
has an event to dispatch; `accept` returns a descriptor that is not open;
a request holds between one and 128 tokens; and `send` sends what `Sends`
says of the length it is asked for. -/
def Kernel (Sends : ℤ → Option ℕ → Prop) (s : Reactor E) : Input → Prop
  | .wait events => s.ready = [] ∧ (events.map Prod.fst).Nodup
    ∧ ∀ x ∈ events, ∃ interest, s.epoll x.1 = some interest
      ∧ (x.2.epollin → interest.epollin) ∧ (x.2.epollout → interest.epollout)
  | .dispatch answer => s.ready ≠ []
    ∧ (∀ fd, answer.accept = some fd → s.opened fd = false)
    ∧ (∀ r, answer.recv = .data r → r.HasToken
      ∧ (tokensOf blanks r.request.mem).length ≤ KVS_MAX_TOKENS)
    ∧ ∀ x ∈ s.ready.head?, x.2.epollout → Sends (s.connList x.1).wlength answer.send

/-! ## The invariant -/

/-- **A slot set up for a client.** -/
structure IsClient (c : Conn) (fd : ℕ) : Prop where
  fd_eq : c.fd = fd
  recv : c.rAction = some .recvCb
  send : c.sendCallback = some .sendCb
  length : c.wbuffer.length = BUFFER_LENGTH

/-- **A response is pending in a slot.** -/
structure Holds (c : Conn) (r : List UInt8) : Prop where
  ne_nil : r ≠ []
  wlength : c.wlength = r.length
  take : c.wbuffer.take r.length = r
  le : r.length ≤ BUFFER_LENGTH

/-- **A client's descriptor, slot and registration**, in each phase its log can
say it is in. -/
inductive Client (s : Reactor E) (fd : ℕ) : Option (Phase UInt8) → Prop
  | closed (hopen : s.opened fd = false) (hepoll : s.epoll fd = none) : Client s fd (some .closed)
  | idle (hopen : s.opened fd = true) (hlt : fd < CONNECTION_SIZE)
    (hepoll : s.epoll fd = some EPOLLIN) (hconn : IsClient (s.connList fd) fd) :
    Client s fd (some .idle)
  | pending {r : List UInt8} (hopen : s.opened fd = true) (hlt : fd < CONNECTION_SIZE)
    (hepoll : s.epoll fd = some EPOLLOUT) (hconn : IsClient (s.connList fd) fd)
    (hholds : Holds (s.connList fd) r) : Client s fd (some (.pending r))

/-- The descriptors but one are as they were. -/
structure Agree (fd : ℕ) (s s' : Reactor E) : Prop where
  opened : ∀ x ≠ fd, s'.opened x = s.opened x
  epoll : ∀ x ≠ fd, s'.epoll x = s.epoll x
  connList : ∀ x ≠ fd, s'.connList x = s.connList x

theorem agree_ready (s : Reactor E) (fd : ℕ) (ready : List (ℕ × Events)) :
    Agree fd s { s with ready := ready } := ⟨fun _ _ => rfl, fun _ _ => rfl, fun _ _ => rfl⟩

theorem Client.congr {s s' : Reactor E} {fd x : ℕ} {ph : Option (Phase UInt8)}
    (h : Client s x ph) (hagree : Agree fd s s') (hx : x ≠ fd) : Client s' x ph := by
  have hopened := hagree.opened x hx
  have hepolls := hagree.epoll x hx
  have hconns := hagree.connList x hx
  cases h with
  | closed hopen hepoll => exact .closed (hopened.trans hopen) (hepolls.trans hepoll)
  | idle hopen hlt hepoll hconn =>
    exact .idle (hopened.trans hopen) hlt (hepolls.trans hepoll) (hconns ▸ hconn)
  | pending hopen hlt hepoll hconn hholds =>
    exact .pending (hopened.trans hopen) hlt (hepolls.trans hepoll) (hconns ▸ hconn)
      (hconns ▸ hholds)

/-- **The reactor's invariant**, between its log and its state. -/
structure Inv (ops : KvsOps E) (Sends : ℤ → Option ℕ → Prop) (listener : ℕ) (s₀ : E)
    (log : List ReactorAct) (s : Reactor E) : Prop where
  listener_lt : listener < CONNECTION_SIZE
  listener_open : s.opened listener = true
  listener_epoll : s.epoll listener = some EPOLLIN
  listener_action : (s.connList listener).rAction = some .acceptCb
  client : ∀ fd, fd ≠ listener → Client s fd (phase fd log)
  /-- No descriptor has two events left in the batch. -/
  ready_nodup : (s.ready.map Prod.fst).Nodup
  /-- The events left in the batch are still registered. -/
  ready_le : ∀ x ∈ s.ready, ∃ interest, s.epoll x.1 = some interest
    ∧ (x.2.epollin → interest.epollin) ∧ (x.2.epollout → interest.epollout)
  /-- What was sent. -/
  sends : ∀ a ∈ log, a.SentAs Sends
  /-- The engine has served the requests of the log, in order. -/
  engine : ∃ out, ops.server.run s₀ (requests log) = some (out, s.engine)
    ∧ out.map Reply.bytes = responses log
  short : (ops.strs s.engine).All Short

section Update

variable {ops : KvsOps E} {Sends : ℤ → Option ℕ → Prop} {listener : ℕ} {s₀ : E}
variable {log : List ReactorAct} {s s' : Reactor E} {F : Fault → Prop}

/-- **A step that is about one client** keeps the invariant if that client ends
up as its log says. -/
theorem Inv.update (h : Inv ops Sends listener s₀ log s) {fd : ℕ} (hfd : fd ≠ listener)
    (hagree : Agree fd s s') (acts : List ReactorAct) (hacts : ∀ a ∈ acts, a.conn = fd)
    (hsends : ∀ a ∈ acts, a.SentAs Sends)
    (hclient : Client s' fd (phase fd (log ++ acts))) (hsub : s'.ready.Sublist s.ready)
    (hnot : ∀ x ∈ s'.ready, x.1 ≠ fd)
    (hengine : ∃ out, ops.server.run s₀ (requests (log ++ acts)) = some (out, s'.engine)
      ∧ out.map Reply.bytes = responses (log ++ acts))
    (hshort : (ops.strs s'.engine).All Short) : Inv ops Sends listener s₀ (log ++ acts) s' where
  listener_lt := h.listener_lt
  listener_open := (hagree.opened listener hfd.symm).trans h.listener_open
  listener_epoll := (hagree.epoll listener hfd.symm).trans h.listener_epoll
  listener_action := by
    rw [hagree.connList listener hfd.symm]
    exact h.listener_action
  client := by
    intro x hx
    by_cases hxfd : x = fd
    · exact hxfd ▸ hclient
    · have hphase : phase x (log ++ acts) = phase x log :=
        phase_append_of_ne (fun a ha he => hxfd ((he.symm.trans (hacts a ha))))
      rw [hphase]
      exact (h.client x hx).congr hagree hxfd
  ready_nodup := h.ready_nodup.sublist (hsub.map Prod.fst)
  ready_le := by
    intro x hx
    rw [hagree.epoll x.1 (hnot x hx)]
    exact h.ready_le x (hsub.subset hx)
  sends := by
    intro a ha
    exact (List.mem_append.mp ha).elim (h.sends a) (hsends a)
  engine := hengine
  short := hshort

/-- Such a step that leaves the engine alone. -/
theorem Inv.update_quiet (h : Inv ops Sends listener s₀ log s) {fd : ℕ} (hfd : fd ≠ listener)
    (hagree : Agree fd s s') (acts : List ReactorAct) (hacts : ∀ a ∈ acts, a.conn = fd)
    (hsends : ∀ a ∈ acts, a.SentAs Sends)
    (hclient : Client s' fd (phase fd (log ++ acts))) (hsub : s'.ready.Sublist s.ready)
    (hnot : ∀ x ∈ s'.ready, x.1 ≠ fd) (hrequests : requests acts = [])
    (hresponses : responses acts = []) (hengine : s'.engine = s.engine) :
    Inv ops Sends listener s₀ (log ++ acts) s' := by
  refine h.update hfd hagree acts hacts hsends hclient hsub hnot ?_ ?_
  · rw [requests_append, responses_append, hrequests, hresponses, List.append_nil, List.append_nil,
      hengine]
    exact h.engine
  · rw [hengine]
    exact h.short

/-- A step that does nothing for anybody. -/
theorem Inv.pop (h : Inv ops Sends listener s₀ log s) {x : ℕ × Events} {ready : List (ℕ × Events)}
    (hready : s.ready = x :: ready) :
    Inv ops Sends listener s₀ log { s with ready := ready } where
  listener_lt := h.listener_lt
  listener_open := h.listener_open
  listener_epoll := h.listener_epoll
  listener_action := h.listener_action
  client := fun fd hfd => (h.client fd hfd).congr (agree_ready s listener ready) hfd
  ready_nodup := by
    have hnd := h.ready_nodup
    rw [hready] at hnd
    exact hnd.of_cons
  ready_le := fun y hy => h.ready_le y (hready ▸ List.mem_cons_of_mem x hy)
  sends := h.sends
  engine := h.engine
  short := h.short

/-- A descriptor that is not open is a client's, and closed. -/
theorem Inv.closed_of_opened (h : Inv ops Sends listener s₀ log s) {fd : ℕ}
    (hopen : s.opened fd = false) :
    fd ≠ listener ∧ s.epoll fd = none ∧ phase fd log = some .closed := by
  have hfd : fd ≠ listener := fun he => by
    rw [he, h.listener_open] at hopen
    cases hopen
  refine ⟨hfd, ?_⟩
  have hclient := h.client fd hfd
  generalize phase fd log = ph at hclient
  cases hclient with
  | closed _ hepoll => exact ⟨hepoll, rfl⟩
  | idle hopen' => exact absurd (hopen'.symm.trans hopen) (by decide)
  | pending hopen' => exact absurd (hopen'.symm.trans hopen) (by decide)

/-- A client that is registered for reading is idle. -/
theorem Inv.idle_of_epoll (h : Inv ops Sends listener s₀ log s) {fd : ℕ} (hfd : fd ≠ listener)
    (hepoll : s.epoll fd = some EPOLLIN) :
    s.opened fd = true ∧ fd < CONNECTION_SIZE ∧ IsClient (s.connList fd) fd
      ∧ phase fd log = some .idle := by
  have hclient := h.client fd hfd
  generalize phase fd log = ph at hclient
  cases hclient with
  | closed _ hepoll' => cases hepoll'.symm.trans hepoll
  | idle hopen hlt _ hconn => exact ⟨hopen, hlt, hconn, rfl⟩
  | pending _ _ hepoll' => cases hepoll'.symm.trans hepoll

/-- A client that is registered for writing has a response pending. -/
theorem Inv.pending_of_epoll (h : Inv ops Sends listener s₀ log s) {fd : ℕ} (hfd : fd ≠ listener)
    (hepoll : s.epoll fd = some EPOLLOUT) :
    s.opened fd = true ∧ fd < CONNECTION_SIZE ∧ IsClient (s.connList fd) fd
      ∧ ∃ r, Holds (s.connList fd) r ∧ phase fd log = some (.pending r) := by
  have hclient := h.client fd hfd
  generalize phase fd log = ph at hclient
  cases hclient with
  | closed _ hepoll' => cases hepoll'.symm.trans hepoll
  | idle _ _ hepoll' => cases hepoll'.symm.trans hepoll
  | pending hopen hlt _ hconn hholds => exact ⟨hopen, hlt, hconn, _, hholds, rfl⟩

/-- A client is registered for one of the two, or not at all. -/
theorem Inv.epoll_cases (h : Inv ops Sends listener s₀ log s) {fd : ℕ} {interest : Events}
    (hepoll : s.epoll fd = some interest) : interest = EPOLLIN ∨ interest = EPOLLOUT := by
  by_cases hfd : fd = listener
  · rw [hfd, h.listener_epoll] at hepoll
    exact Or.inl (Option.some.inj hepoll).symm
  have hclient := h.client fd hfd
  generalize phase fd log = ph at hclient
  cases hclient with
  | closed _ hepoll' => cases hepoll'.symm.trans hepoll
  | idle _ _ hepoll' => exact Or.inl (Option.some.inj (hepoll.symm.trans hepoll'))
  | pending _ _ hepoll' => exact Or.inr (Option.some.inj (hepoll.symm.trans hepoll'))

/-! ## The callbacks -/

/-- **`accept_cb` opens a client**, or closes it again where there is no slot
for it. -/
theorem acceptCb_inv (h : Inv ops Sends listener s₀ log s) {answer : Answer}
    (hfresh : ∀ fd, answer.accept = some fd → s.opened fd = false) :
    Inv ops Sends listener s₀ (log ++ (acceptCb s answer).1) (acceptCb s answer).2 := by
  unfold acceptCb
  cases haccept : answer.accept with
  | none =>
    show Inv ops Sends listener s₀ (log ++ []) s
    rw [List.append_nil]
    exact h
  | some c =>
    obtain ⟨hc, hepoll, hphase⟩ := h.closed_of_opened (hfresh c haccept)
    have hidle : phase c (log ++ [Act.accept c]) = some .idle := phase_concat_of_turn hphase rfl rfl
    have hnot : ∀ x ∈ s.ready, x.1 ≠ c := fun x hx he => by
      obtain ⟨interest, hinterest, -⟩ := h.ready_le x hx
      rw [he, hepoll] at hinterest
      cases hinterest
    by_cases hlt : CONNECTION_SIZE ≤ c
    · have hclosed : phase c (log ++ ([Act.accept c] ++ [Act.close c])) = some .closed := by
        rw [← List.append_assoc]
        exact phase_concat_of_turn hidle rfl rfl
      simp only [if_pos hlt]
      refine h.update_quiet hc ⟨?_, ?_, ?_⟩ ([Act.accept c] ++ [Act.close c])
        (by simp [Act.conn]) (by simp [Act.SentAs]) ?_ ?_ ?_
        rfl rfl ?_
      · intro x hx
        simp [close, hx]
      · intro x hx
        simp [close, hx]
      · exact fun _ _ => rfl
      · rw [hclosed]
        exact .closed (by simp [close]) (by simp [close])
      · exact List.Sublist.refl _
      · exact hnot
      · rfl
    · simp only [if_neg hlt, setEvent, if_pos, hepoll]
      refine h.update_quiet hc ⟨?_, ?_, ?_⟩ [.accept c] (by simp [Act.conn])
        (by simp [Act.SentAs]) ?_ ?_ ?_ rfl rfl ?_
      · intro x hx
        simp [hx]
      · intro x hx
        simp [hx]
      · intro x hx
        simp [hx]
      · rw [hidle]
        refine .idle (by simp) (not_le.mp hlt) (by simp) ?_
        simp only [Function.update_self]
        exact ⟨rfl, rfl, rfl, List.length_replicate⟩
      · exact List.Sublist.refl _
      · exact hnot
      · rfl

/-- **What a step may come to**: the invariant is kept, unless `kvs_protocol`
has gone wrong in a way `F` allows. -/
def Good (ops : KvsOps E) (Sends : ℤ → Option ℕ → Prop) (listener : ℕ) (s₀ : E)
    (log : List ReactorAct) (F : Fault → Prop) :
    Except ReactorFault (List ReactorAct × Reactor E) → Prop
  | .error f => ∃ p, f = .protocol p ∧ F p
  | .ok o => Inv ops Sends listener s₀ (log ++ o.1) o.2

/-- **`kvs_request` on a request that holds a token**: what `kvs_protocol`
returns is pending in the slot. -/
theorem kvsRequest_eq {engine : E} (hc : Copies ops) (hshort : (ops.strs engine).All Short)
    {r : Received} (htoken : r.HasToken) {c : Conn} {fd : ℕ} (hr : c.rbuffer = r.rbuffer [])
    (hl : c.rlength = r.bytes.length) (hconn : IsClient c fd) (env : Env) :
    (∃ f, kvsRequest ops engine c env = .error (.protocol f)
        ∧ kvsProtocol ops engine (some r.request.mem) r.request.length wbuffer env = .error f)
      ∨ ∃ text c' engine', kvsRequest ops engine c env = .ok (sprintf text, c', engine')
        ∧ ops.server engine (r.request, env) = some (sprintf text, engine')
        ∧ (ops.strs engine').All Short ∧ IsClient c' fd ∧ Holds c' text := by
  have hmem : c.rbuffer ++ [0] = r.request.mem := by
    rw [hr]
    exact (r.rbuffer_eq_append [0]).symm
  have hprotocol : kvsProtocol ops engine (some r.request.mem) r.request.length wbuffer env
      = kvsProtocol ops engine (some (c.rbuffer ++ [0])) c.rlength wbuffer env := by
    rw [hmem, hl]
    rfl
  unfold kvsRequest
  cases hok : kvsProtocol ops engine (some (c.rbuffer ++ [0])) c.rlength wbuffer env with
  | error f => exact Or.inl ⟨f, rfl, hprotocol.trans hok⟩
  | ok o =>
    have hserver : ops.server engine (r.request, env) = some o :=
      congrArg Except.toOption (hprotocol.trans hok)
    obtain ⟨hshort', text, hne, hlt, htext⟩ := server_text hc hshort htoken hserver
    obtain ⟨buf, hprint, hlength, htake⟩ := printTo_sprintf _ (hconn.length.symm ▸ hlt)
    refine Or.inr ⟨text, { c with wbuffer := buf, wlength := text.length }, o.2, ?_, ?_, hshort',
      ⟨hconn.fd_eq, hconn.recv, hconn.send, hlength.trans hconn.length⟩, ⟨hne, rfl, htake, hlt.le⟩⟩
    · show (match o.1.printTo c.wbuffer with
        | none => Except.error ReactorFault.outOfBounds
        | some buf => .ok (o.1, { c with wbuffer := buf, wlength := o.1.length }, o.2)) = _
      rw [htext, hprint]
      rfl
    · rw [hserver, ← htext]

/-- **`recv_cb` on an idle client** closes it, or has a response pending. -/
theorem recvCb_good (hc : Copies ops) (h : Inv ops Sends listener s₀ log s) {fd : ℕ}
    (hfd : fd ≠ listener)
    (hepoll : s.epoll fd = some EPOLLIN) (hnot : ∀ x ∈ s.ready, x.1 ≠ fd) {answer : Answer}
    (htoken : ∀ r, answer.recv = .data r → r.HasToken) :
    Good ops Sends listener s₀ log (ProtocolFails ops s.engine answer) (recvCb ops s fd answer) := by
  obtain ⟨hopen, hlt, hconn, hphase⟩ := h.idle_of_epoll hfd hepoll
  have hclose : Inv ops Sends listener s₀ (log ++ [Act.close fd])
      { s.close fd with connList := Function.update s.connList fd Conn.zero } := by
    refine h.update_quiet hfd ⟨?_, ?_, ?_⟩ [.close fd] (by simp [Act.conn])
      (by simp [Act.SentAs]) ?_ ?_ ?_ rfl rfl ?_
    · intro x hx
      simp [close, hx]
    · intro x hx
      simp [close, hx]
    · intro x hx
      simp [hx]
    · rw [phase_concat_of_turn hphase rfl rfl]
      exact .closed (by simp [close]) (by simp [close])
    · exact List.Sublist.refl _
    · exact hnot
    · rfl
  unfold recvCb
  cases hrecv : answer.recv with
  | failed => exact hclose
  | disconnected => exact hclose
  | data r =>
    have hconn' : IsClient
        { s.connList fd with rbuffer := r.rbuffer [], rlength := r.bytes.length } fd :=
      ⟨hconn.fd_eq, hconn.recv, hconn.send, hconn.length⟩
    obtain ⟨f, hf, hprotocol⟩ | ⟨text, c', engine, hok, hserve, hshort, hclient, hholds⟩ :=
      kvsRequest_eq hc h.short (htoken r hrecv) rfl rfl hconn' answer.env
    · simp only [hf]
      exact ⟨f, rfl, r, hrecv, hprotocol⟩
    · simp only [hok]
      obtain ⟨out, hrun, hout⟩ := h.engine
      show Inv ops Sends listener s₀ (log ++ [Act.recv fd (r.request, answer.env) text])
        (setEvent { s with engine := engine, connList := Function.update s.connList fd c' } fd
          EPOLLOUT false)
      rw [setEvent_mod_of_some
        (s := { s with engine := engine, connList := Function.update s.connList fd c' }) hepoll]
      refine h.update hfd ⟨?_, ?_, ?_⟩ [.recv fd (r.request, answer.env) text]
        (by simp [Act.conn]) (by simp [Act.SentAs]) ?_ ?_ ?_ ?_ ?_
      · exact fun _ _ => rfl
      · intro x hx
        simp [hx]
      · intro x hx
        simp [hx]
      · rw [phase_concat_of_turn hphase rfl rfl]
        refine .pending hopen hlt (by simp) ?_ ?_
        · simp only [Function.update_self]
          exact hclient
        · simp only [Function.update_self]
          exact hholds
      · exact List.Sublist.refl _
      · exact hnot
      · rw [requests_append, responses_append]
        refine ⟨out ++ [sprintf text], Machine.run_concat_of_eq hrun hserve, ?_⟩
        rw [List.map_append, hout]
        rfl
      · exact hshort

/-- **`send_cb` on a client with a response pending** sends it and waits for the
next request. -/
theorem sendCb_good (h : Inv ops Sends listener s₀ log s) {fd : ℕ} (hfd : fd ≠ listener)
    (hepoll : s.epoll fd = some EPOLLOUT) (hnot : ∀ x ∈ s.ready, x.1 ≠ fd) {answer : Answer}
    (hsend : Sends (s.connList fd).wlength answer.send) :
    Good ops Sends listener s₀ log F (sendCb s fd answer) := by
  obtain ⟨hopen, hlt, hconn, r, hholds, hphase⟩ := h.pending_of_epoll hfd hepoll
  have hpos : 0 < (s.connList fd).wlength := by
    rw [hholds.wlength]
    exact Int.natCast_pos.mpr (List.length_pos_of_ne_nil hholds.ne_nil)
  have hle : (s.connList fd).wlength ≤ (s.connList fd).wbuffer.length := by
    rw [hholds.wlength, hconn.length]
    exact Int.ofNat_le.mpr hholds.le
  have hasked : (s.connList fd).wbuffer.take (s.connList fd).wlength.toNat = r := by
    rw [hholds.wlength, Int.toNat_natCast]
    exact hholds.take
  have hidle : phase fd (log ++ [Act.send fd r (r.take (answer.send.getD 0))]) = some .idle :=
    phase_concat_of_turn hphase rfl (if_pos rfl)
  unfold sendCb
  simp only [if_neg hpos.ne', if_neg hpos.not_gt, if_neg hle.not_gt, hasked]
  show Inv ops Sends listener s₀ (log ++ [Act.send fd r (r.take (answer.send.getD 0))])
    (setEvent s (s.connList fd).fd EPOLLIN false)
  rw [hconn.fd_eq, setEvent_mod_of_some hepoll]
  have hsent : (.send fd r (r.take (answer.send.getD 0)) : ReactorAct).SentAs Sends :=
    ⟨answer.send, hholds.wlength ▸ hsend, rfl⟩
  refine h.update_quiet hfd ⟨?_, ?_, ?_⟩ [.send fd r (r.take (answer.send.getD 0))]
    (by simp [Act.conn]) (List.forall_mem_singleton.mpr hsent) ?_ ?_ ?_ rfl rfl ?_
  · exact fun _ _ => rfl
  · intro x hx
    simp [hx]
  · exact fun _ _ => rfl
  · rw [hidle]
    exact .idle hopen hlt (by simp) hconn
  · exact List.Sublist.refl _
  · exact hnot
  · rfl

/-! ## The loop -/

/-- A callback that is all there is to a round. -/
theorem Good.bind_nil {result : Except ReactorFault (List ReactorAct × Reactor E)}
    (h : Good ops Sends listener s₀ log F result) :
    Good ops Sends listener s₀ log F (result >>= fun o => pure (o.1 ++ [], o.2)) := by
  cases result with
  | error f => exact h
  | ok o =>
    show Inv ops Sends listener s₀ (log ++ (o.1 ++ [])) o.2
    rw [List.append_nil]
    exact h

theorem Good.bind_left {result : Except ReactorFault (List ReactorAct × Reactor E)}
    (h : Good ops Sends listener s₀ log F result) :
    Good ops Sends listener s₀ log F (result >>= fun o => pure ([] ++ o.1, o.2)) := by
  cases result with
  | error f => exact h
  | ok o => exact h

/-- The callback for a readable event. -/
theorem call_in_good (hc : Copies ops) (h : Inv ops Sends listener s₀ log s) {fd : ℕ}
    (hepoll : s.epoll fd = some EPOLLIN) (hnot : ∀ x ∈ s.ready, x.1 ≠ fd) {answer : Answer}
    (hfresh : ∀ fd, answer.accept = some fd → s.opened fd = false)
    (htoken : ∀ r, answer.recv = .data r → r.HasToken) :
    Good ops Sends listener s₀ log (ProtocolFails ops s.engine answer)
      (call ops s fd answer (s.connList fd).rAction) := by
  by_cases hfd : fd = listener
  · rw [hfd, h.listener_action]
    exact acceptCb_inv h hfresh
  · obtain ⟨-, -, hconn, -⟩ := h.idle_of_epoll hfd hepoll
    rw [hconn.recv]
    exact recvCb_good hc h hfd hepoll hnot htoken

/-- The callback for a writable event: the listener has none, and none is
reported for it. -/
theorem call_out_good (h : Inv ops Sends listener s₀ log s) {fd : ℕ}
    (hepoll : s.epoll fd = some EPOLLOUT) (hnot : ∀ x ∈ s.ready, x.1 ≠ fd) {answer : Answer}
    (hsend : Sends (s.connList fd).wlength answer.send) :
    Good ops Sends listener s₀ log F (call ops s fd answer (s.connList fd).sendCallback) := by
  have hfd : fd ≠ listener := fun he => by
    rw [he, h.listener_epoll] at hepoll
    cases hepoll
  obtain ⟨-, -, hconn, -⟩ := h.pending_of_epoll hfd hepoll
  rw [hconn.send]
  exact sendCb_good h hfd hepoll hnot hsend

/-- A client has a phase. -/
theorem Inv.exists_phase (h : Inv ops Sends listener s₀ log s) {fd : ℕ} (hfd : fd ≠ listener) :
    ∃ ph, phase fd log = some ph := by
  have hclient := h.client fd hfd
  generalize phase fd log = ph at hclient
  cases hclient <;> exact ⟨_, rfl⟩

/-- A registered descriptor has a slot. -/
theorem Inv.lt_of_epoll (h : Inv ops Sends listener s₀ log s) {fd : ℕ} {interest : Events}
    (hepoll : s.epoll fd = some interest) : fd < CONNECTION_SIZE := by
  by_cases hfd : fd = listener
  · rw [hfd]
    exact h.listener_lt
  · rcases h.epoll_cases hepoll with rfl | rfl
    · exact (h.idle_of_epoll hfd hepoll).2.1
    · exact (h.pending_of_epoll hfd hepoll).2.1

/-- **One dispatch**: the callback the slot holds is the one the event is for. -/
theorem dispatch_good (hc : Copies ops) (h : Inv ops Sends listener s₀ log s) {answer : Answer}
    (hfresh : ∀ fd, answer.accept = some fd → s.opened fd = false)
    (htoken : ∀ r, answer.recv = .data r → r.HasToken)
    (hsend : ∀ x ∈ s.ready.head?, x.2.epollout → Sends (s.connList x.1).wlength answer.send) :
    Good ops Sends listener s₀ log (ProtocolFails ops s.engine answer) (dispatch ops s answer) := by
  unfold dispatch
  cases hready : s.ready with
  | nil =>
    show Inv ops Sends listener s₀ (log ++ []) s
    rw [List.append_nil]
    exact h
  | cons x ready =>
    obtain ⟨connfd, epollin, epollout⟩ := x
    obtain ⟨interest, hepoll, hin, hout⟩ := h.ready_le (connfd, ⟨epollin, epollout⟩) (by simp [hready])
    have hpop := h.pop hready
    have hnot : ∀ y ∈ ready, y.1 ≠ connfd := by
      intro y hy he
      have hnd := h.ready_nodup
      rw [hready, List.map_cons, List.nodup_cons] at hnd
      exact hnd.1 (List.mem_map.mpr ⟨y, hy, he⟩)
    have hnone : Good ops Sends listener s₀ log (ProtocolFails ops s.engine answer)
        (.ok ([], { s with ready := ready })) := by
      show Inv ops Sends listener s₀ (log ++ []) { s with ready := ready }
      rw [List.append_nil]
      exact hpop
    simp only [if_neg (h.lt_of_epoll hepoll).not_ge]
    -- one bit is registered, so at most one is reported
    rcases h.epoll_cases hepoll with rfl | rfl
    · obtain rfl : epollout = false := by
        cases epollout with
        | false => rfl
        | true => exact absurd (hout rfl) (by decide)
      cases epollin with
      | false => exact hnone.bind_nil
      | true => exact (call_in_good hc hpop hepoll hnot hfresh htoken).bind_nil
    · obtain rfl : epollin = false := by
        cases epollin with
        | false => rfl
        | true => exact absurd (hin rfl) (by decide)
      cases epollout with
      | false => exact hnone.bind_nil
      | true =>
        have hsend' := hsend (connfd, ⟨false, true⟩) (by simp [hready]) rfl
        exact (call_out_good hpop hepoll hnot hsend').bind_left

/-- `kvs_protocol` goes wrong in a step. -/
def Input.Fails (ops : KvsOps E) (s : Reactor E) (f : Fault) : Input → Prop
  | .wait _ => False
  | .dispatch answer => ProtocolFails ops s.engine answer f

/-- **One step of the loop** keeps the invariant, unless `kvs_protocol` goes
wrong. -/
theorem step_good (hc : Copies ops) (h : Inv ops Sends listener s₀ log s) {i : Input}
    (hi : Kernel Sends s i) :
    Good ops Sends listener s₀ log (fun f => i.Fails ops s f) (step ops s i) := by
  cases i with
  | wait events =>
    obtain ⟨-, hnd, hle⟩ := hi
    show Inv ops Sends listener s₀ (log ++ []) { s with ready := events }
    rw [List.append_nil]
    refine ⟨h.listener_lt, h.listener_open, h.listener_epoll, h.listener_action, ?_, hnd, hle,
      h.sends, h.engine, h.short⟩
    intro fd hfd
    exact (h.client fd hfd).congr (agree_ready s listener events) hfd
  | dispatch answer =>
    obtain ⟨-, hfresh, htoken, hsend⟩ := hi
    exact dispatch_good hc h hfresh (fun r hr => (htoken r hr).1) hsend

/-- **The loop is entered with the invariant.** -/
theorem start_inv (hlistener : listener < CONNECTION_SIZE) (hshort : (ops.strs s₀).All Short) :
    Inv ops Sends listener s₀ [] (start s₀ listener) where
  listener_lt := hlistener
  listener_open := by simp [start]
  listener_epoll := by simp [start]
  listener_action := by simp [start]
  client := fun fd hfd => .closed (by simp [start, hfd]) (by simp [start, hfd])
  ready_nodup := List.nodup_nil
  ready_le := fun x hx => absurd hx List.not_mem_nil
  sends := fun a ha => absurd ha List.not_mem_nil
  engine := ⟨[], rfl, rfl⟩
  short := hshort

/-- **The invariant of every reachable state.** -/
theorem reach_inv (hc : Copies ops) (hlistener : listener < CONNECTION_SIZE)
    (hshort : (ops.strs s₀).All Short)
    (h : (machine ops).Reach (Kernel Sends) (start s₀ listener) log s) :
    Inv ops Sends listener s₀ log s := by
  refine Machine.Reach.invariant (start_inv hlistener hshort) ?_ h
  intro log t i out u hinv hi hstep
  have hgood := step_good hc hinv hi
  rw [eq_ok_of_toOption hstep] at hgood
  exact hgood

/-- From a reachable state a step on an admissible input returns, unless
`kvs_protocol` goes wrong in it. -/
theorem step_returns (hc : Copies ops) (h : Inv ops Sends listener s₀ log s) {i : Input}
    (hi : Kernel Sends s i) :
    (∃ o, step ops s i = .ok o) ∨ ∃ f, step ops s i = .error (.protocol f) ∧ i.Fails ops s f := by
  have hgood := step_good hc h hi
  cases hok : step ops s i with
  | ok o => exact Or.inl ⟨o, rfl⟩
  | error f =>
    rw [hok] at hgood
    obtain ⟨p, rfl, hp⟩ := hgood
    exact Or.inr ⟨p, rfl, hp⟩

end Update

/-- The engine of a reactor that has met with no failing allocation is
reachable. -/
theorem reachable_of_healthy {e : Engine} {s₀ s : e.State} (hs : e.Started s₀)
    {qs : List (Request × Env)} {out : List Reply}
    (hrun : e.ops.server.run s₀ qs = some (out, s))
    (hhealthy : ∀ q ∈ qs, ∃ rand, q.2 = Env.healthy rand) : e.Reachable s := by
  obtain ⟨is, rfl⟩ : ∃ is : List (Request × (ℕ → Bool)),
      qs = is.map (fun i => (i.1, Env.healthy i.2)) := by
    refine ⟨qs.map (fun q => (q.1, q.2.rand)), ?_⟩
    rw [List.map_map]
    refine (List.map_id qs).symm.trans (List.map_congr_left (fun q hq => ?_))
    obtain ⟨rand, hrand⟩ := hhealthy q hq
    show (q.1, q.2) = (q.1, Env.healthy q.2.rand)
    rw [hrand]
    rfl
  refine ⟨s₀, is, out, hs, ?_⟩
  unfold KvsOps.healthyServer
  rw [Machine.run_comap]
  exact hrun

/-- The engine meets with no failing allocation in a step. -/
def Input.Healthy : Input → Prop
  | .wait _ => True
  | .dispatch answer => ∃ rand, answer.env = Env.healthy rand

/-- In a reachable state of the engine `kvs_protocol` does not go wrong, if
allocations succeed. -/
theorem not_fails_of_healthy {e : Engine} {s : Reactor e.State} (hs : e.Reachable s.engine)
    {Sends : ℤ → Option ℕ → Prop} {i : Input} (hi : Kernel Sends s i) (hhealthy : i.Healthy)
    (f : Fault) : ¬ i.Fails e.ops s f := by
  cases i with
  | wait events => exact id
  | dispatch answer =>
    rintro ⟨r, hr, hfault⟩
    obtain ⟨rand, hrand⟩ := hhealthy
    have hq : r.request.WellFormed := ⟨r.terminated, (hi.2.2.1 r hr).2⟩
    obtain ⟨a, s', hok⟩ := (follows_grammar e s.engine r.natCast_length_pos hq).2 hs rand
    rw [hrand] at hfault
    cases hfault.symm.trans hok

/-- **Every client takes turns, and the server is sequential.** In every state
the reactor reaches with any engine, `send` transmitting what it is given:
an open client is registered for reading, waiting for a request, or for
writing, with the response computed last in its write buffer; its log
takes turns, and what it got, with what is pending, is what it is due; and
the responses are those of `kvs_protocol`, called on the requests one
after another. No further step dispatches a null callback, or goes wrong in
any way that is not `kvs_protocol`'s own, and none goes wrong at all if
allocations succeed. -/
theorem turns_sequential (e : Engine) {garbage : Vector KvsArrayItem KVS_ARRAY_SIZE} {env₀ : Env}
    {s₀ : e.State} (hinit : e.initKvengine garbage env₀ = some s₀) {listener : ℕ}
    (hlistener : listener < CONNECTION_SIZE) {log : List ReactorAct} {s : Reactor e.State}
    (h : (machine e.ops).Reach (Kernel SendsAll) (start s₀ listener) log s) :
    (∀ fd, fd ≠ listener → s.opened fd = true →
      (s.epoll fd = some EPOLLIN ∧ phase fd log = some .idle)
      ∨ ∃ r, s.epoll fd = some EPOLLOUT ∧ phase fd log = some (.pending r)
        ∧ (s.connList fd).wlength = r.length ∧ (s.connList fd).wbuffer.take r.length = r)
    ∧ (∀ fd, fd ≠ listener → ∃ ph, phase fd log = some ph ∧ due fd log = got fd log ++ ph.rest)
    ∧ (∃ out, e.ops.server.run s₀ (requests log) = some (out, s.engine)
      ∧ out.map Reply.bytes = responses log)
    ∧ (∀ i, Kernel SendsAll s i → (∃ o, step e.ops s i = .ok o)
      ∨ ∃ f, step e.ops s i = .error (.protocol f) ∧ i.Fails e.ops s f)
    ∧ (e.Started s₀ → (∀ q ∈ requests log, ∃ rand, q.2 = Env.healthy rand) →
      ∀ i : Input, Kernel SendsAll s i → i.Healthy → ∃ o, step e.ops s i = .ok o) := by
  have hinv := reach_inv e.copies hlistener (e.init_all Short garbage env₀ s₀ hinit) h
  refine ⟨?_, ?_, hinv.engine, fun i hi => step_returns e.copies hinv hi, ?_⟩
  · intro fd hfd hopen
    have hclient := hinv.client fd hfd
    generalize phase fd log = ph at hclient
    cases hclient with
    | closed hclosed => exact absurd (hopen.symm.trans hclosed) (by decide)
    | idle _ _ hepoll => exact Or.inl ⟨hepoll, rfl⟩
    | pending _ _ hepoll _ hholds => exact Or.inr ⟨_, hepoll, rfl, hholds.wlength, hholds.take⟩
  · intro fd hfd
    obtain ⟨ph, hph⟩ := hinv.exists_phase hfd
    exact ⟨ph, hph, due_eq_of_whole hph (fun a ha => whole_of_sendsAll (hinv.sends a ha))⟩
  · intro hs hhealthy i hi hi'
    obtain ⟨out, hrun, -⟩ := hinv.engine
    have hreach := reachable_of_healthy hs hrun hhealthy
    obtain hok | ⟨f, -, hf⟩ := step_returns e.copies hinv hi
    · exact hok
    · exact absurd hf (not_fails_of_healthy hreach hi hi' f)

section Runs

variable {e : Engine} {s₀ : e.State} {listener fd : ℕ} {log : List ReactorAct}
variable {s : Reactor e.State}

/-- What a descriptor is registered for can be all there is in a batch. -/
theorem reach_wait (h : (machine e.ops).Reach (Kernel SendsAll) (start s₀ listener) log s)
    (hready : s.ready = []) {interest : Events} (hepoll : s.epoll fd = some interest) :
    (machine e.ops).Reach (Kernel SendsAll) (start s₀ listener) log
      { s with ready := [(fd, interest)] } := by
  have hwait : Kernel SendsAll s (.wait [(fd, interest)]) :=
    ⟨hready, List.nodup_singleton fd, List.forall_mem_singleton.mpr ⟨interest, hepoll, id, id⟩⟩
  have hreach := h.step hwait rfl
  rwa [List.append_nil] at hreach

/-- **A client that connects is accepted**, and waits. -/
theorem reach_accept (hs : e.Started s₀) (hlistener : listener < CONNECTION_SIZE)
    (h : (machine e.ops).Reach (Kernel SendsAll) (start s₀ listener) log s)
    (hready : s.ready = []) (hlt : fd < CONNECTION_SIZE) (hopen : s.opened fd = false) :
    ∃ s', (machine e.ops).Reach (Kernel SendsAll) (start s₀ listener) (log ++ [.accept fd]) s'
      ∧ s'.ready = [] ∧ s'.opened = Function.update s.opened fd true
      ∧ s'.epoll = Function.update s.epoll fd (some EPOLLIN) := by
  obtain ⟨garbage, _, hinit⟩ := hs
  have hinv := reach_inv e.copies hlistener (e.init_all Short garbage _ s₀ hinit) h
  obtain ⟨-, hepoll, -⟩ := hinv.closed_of_opened hopen
  have hreach := reach_wait h hready hinv.listener_epoll
  let answer : Answer := ⟨some fd, .failed, none, Env.healthy (fun _ => false)⟩
  have hdispatch : Kernel SendsAll { s with ready := [(listener, EPOLLIN)] } (.dispatch answer) := by
    refine ⟨List.cons_ne_nil _ _, ?_, ?_, ?_⟩
    · intro fd' haccept
      obtain rfl := Option.some.inj haccept
      exact hopen
    · intro r hr
      cases hr
    · intro x hx hout
      obtain rfl := Option.some.inj hx
      cases hout
  have haccept : (acceptCb { s with ready := [] } answer).1 = [.accept fd]
      ∧ (acceptCb { s with ready := [] } answer).2.ready = []
      ∧ (acceptCb { s with ready := [] } answer).2.opened = Function.update s.opened fd true
      ∧ (acceptCb { s with ready := [] } answer).2.epoll
        = Function.update s.epoll fd (some EPOLLIN) := by
    simp only [acceptCb, answer, if_neg hlt.not_ge, setEvent, if_pos, hepoll, and_self]
  obtain ⟨hlog, hdone, hopened, hregistered⟩ := haccept
  refine ⟨_, hlog ▸ hreach.step hdispatch ?_, hdone, hopened, hregistered⟩
  show (dispatch e.ops { s with ready := [(listener, EPOLLIN)] } answer).toOption = _
  unfold dispatch
  simp only [if_neg hinv.listener_lt.not_ge, hinv.listener_action]
  show some ((acceptCb { s with ready := [] } answer).1 ++ [], _) = _
  rw [List.append_nil]

/-- **A client that waits is served**: its request is reported, received and answered. -/
theorem reach_recv (hs : e.Started s₀) (hlistener : listener < CONNECTION_SIZE)
    (h : (machine e.ops).Reach (Kernel SendsAll) (start s₀ listener) log s)
    (hhealthy : ∀ q ∈ requests log, ∃ rand, q.2 = Env.healthy rand) (hready : s.ready = [])
    (hfd : fd ≠ listener) (hepoll : s.epoll fd = some EPOLLIN) {r : Received} (htoken : r.HasToken)
    (hfew : (tokensOf blanks r.request.mem).length ≤ KVS_MAX_TOKENS) (rand : ℕ → Bool) :
    ∃ text s', (machine e.ops).Reach (Kernel SendsAll) (start s₀ listener)
        (log ++ [.recv fd (r.request, Env.healthy rand) text]) s'
      ∧ s'.ready = [] ∧ s'.opened = s.opened
      ∧ s'.epoll = Function.update s.epoll fd (some EPOLLOUT) := by
  obtain ⟨garbage, _, hinit⟩ := id hs
  have hinv := reach_inv e.copies hlistener (e.init_all Short garbage _ s₀ hinit) h
  obtain ⟨-, hlt, hconn, -⟩ := hinv.idle_of_epoll hfd hepoll
  have hreach := reach_wait h hready hepoll
  let answer : Answer := ⟨none, .data r, none, Env.healthy rand⟩
  let reported : Reactor e.State := { s with ready := [(fd, EPOLLIN)] }
  have hdispatch : Kernel SendsAll reported (.dispatch answer) := by
    refine ⟨List.cons_ne_nil _ _, ?_, ?_, ?_⟩
    · intro fd haccept
      cases haccept
    · intro r' hr'
      obtain rfl : r = r' := Recv.data.inj hr'
      exact ⟨htoken, hfew⟩
    · intro x hx hout
      obtain rfl := Option.some.inj hx
      cases hout
  have hconn' : IsClient
      { s.connList fd with rbuffer := r.rbuffer [], rlength := r.bytes.length } fd :=
    ⟨hconn.fd_eq, hconn.recv, hconn.send, hconn.length⟩
  obtain ⟨f, -, hprotocol⟩ | ⟨text, c', engine, hok, -⟩ :=
    kvsRequest_eq e.copies hinv.short htoken rfl rfl hconn' (Env.healthy rand)
  · obtain ⟨out, hrun, -⟩ := hinv.engine
    have hfails : (Input.dispatch answer).Fails e.ops reported f := ⟨r, rfl, hprotocol⟩
    exact absurd hfails (not_fails_of_healthy (s := reported) (reachable_of_healthy hs hrun hhealthy)
      hdispatch ⟨rand, rfl⟩ f)
  · let s' : Reactor e.State :=
      { s with
        engine := engine
        connList := Function.update s.connList fd c'
        epoll := Function.update s.epoll fd (some EPOLLOUT)
        ready := [] }
    have hrecv : recvCb e.ops { s with ready := [] } fd answer
        = .ok ([.recv fd (r.request, Env.healthy rand) text], s') := by
      show (kvsRequest e.ops s.engine _ (Env.healthy rand) >>= _) = _
      rw [hok]
      exact congrArg (fun s => Except.ok (_, s)) (setEvent_mod_of_some
        (s := { s with engine := engine, connList := Function.update s.connList fd c', ready := [] })
        hepoll EPOLLOUT)
    refine ⟨text, s', hreach.step hdispatch ?_, rfl, rfl, rfl⟩
    show (dispatch e.ops reported answer).toOption = _
    unfold dispatch
    simp only [reported, if_neg hlt.not_ge, hconn.recv]
    show (recvCb e.ops { s with ready := [] } fd answer >>= _).toOption = _
    rw [hrecv]
    rfl

/-- **A client with a response gets it**: that it can be written to is reported, and the
response is sent. -/
theorem reach_send (hs : e.Started s₀) (hlistener : listener < CONNECTION_SIZE)
    (h : (machine e.ops).Reach (Kernel SendsAll) (start s₀ listener) log s)
    (hready : s.ready = []) (hfd : fd ≠ listener) (hepoll : s.epoll fd = some EPOLLOUT) :
    ∃ text s', phase fd log = some (.pending text)
      ∧ (machine e.ops).Reach (Kernel SendsAll) (start s₀ listener)
        (log ++ [.send fd text text]) s'
      ∧ s'.ready = [] ∧ s'.opened = s.opened
      ∧ s'.epoll = Function.update s.epoll fd (some EPOLLIN) := by
  obtain ⟨garbage, _, hinit⟩ := hs
  have hinv := reach_inv e.copies hlistener (e.init_all Short garbage _ s₀ hinit) h
  obtain ⟨-, hlt, hconn, text, hholds, hphase⟩ := hinv.pending_of_epoll hfd hepoll
  have hreach := reach_wait h hready hepoll
  let answer : Answer := ⟨none, .failed, some text.length, Env.healthy (fun _ => false)⟩
  have hdispatch : Kernel SendsAll { s with ready := [(fd, EPOLLOUT)] } (.dispatch answer) := by
    refine ⟨List.cons_ne_nil _ _, ?_, ?_, ?_⟩
    · intro fd haccept
      cases haccept
    · intro r hr
      cases hr
    · intro x hx _
      obtain rfl := Option.some.inj hx
      exact ⟨text.length, rfl, hholds.wlength⟩
  let s' : Reactor e.State :=
    { s with epoll := Function.update s.epoll fd (some EPOLLIN), ready := [] }
  refine ⟨text, s', hphase, hreach.step hdispatch ?_, rfl, rfl, rfl⟩
  have hne : (text.length : ℤ) ≠ 0 := fun h =>
    hholds.ne_nil (List.length_eq_zero_iff.mp (Int.ofNat_eq_zero.mp h))
  have hle : (text.length : ℤ) ≤ (s.connList fd).wbuffer.length := by
    rw [hconn.length]
    exact Int.ofNat_le.mpr hholds.le
  have hsend : sendCb { s with ready := [] } fd answer = .ok ([.send fd text text], s') := by
    unfold sendCb
    simp only [hholds.wlength, if_neg hne, if_neg (Int.natCast_nonneg _).not_gt, if_neg hle.not_gt,
      Int.toNat_natCast, hholds.take, hconn.fd_eq]
    show Except.ok ([Act.send fd text (text.take text.length)], _) = _
    rw [List.take_length]
    exact congrArg (fun s => Except.ok (_, s))
      (setEvent_mod_of_some (s := { s with ready := [] }) hepoll EPOLLIN)
  show (dispatch e.ops { s with ready := [(fd, EPOLLOUT)] } answer).toOption = _
  unfold dispatch
  simp only [if_neg hlt.not_ge]
  show (call e.ops { s with ready := [] } fd answer (s.connList fd).sendCallback >>= _).toOption = _
  rw [hconn.send]
  show (sendCb { s with ready := [] } fd answer >>= _).toOption = _
  rw [hsend]
  rfl

end Runs

/-- What the kernel answers where it is asked to accept or to receive. -/
def sampleAnswer (accept : Option ℕ) : Answer where
  accept := accept
  recv := .data (.ofText "GET k" (by decide) (by decide))
  send := none
  env := Env.healthy (fun _ => false)

theorem kernel_sampleAnswer {E : Type} {s : Reactor E} {fd : ℕ} {ready : List (ℕ × Events)}
    (hready : s.ready = (fd, EPOLLIN) :: ready) {accept : Option ℕ}
    (hfresh : ∀ fd, accept = some fd → s.opened fd = false) :
    Kernel SendsAll s (.dispatch (sampleAnswer accept)) := by
  refine ⟨by simp [hready], hfresh, ?_, ?_⟩
  · intro r hr
    cases hr
    exact ⟨by decide, by decide +kernel⟩
  · intro x hx hout
    rw [hready] at hx
    cases hx
    cases hout

/-- **Two clients of the skip list**: both connect and are served, and the first gets its
response, which is what it is due. The other's is pending, and the next request of the
first is served. -/
theorem turns_sequential_clients :
    ∃ (s₀ : Engine.skiptable.State) (q : Request × Env) (r r' : List UInt8)
      (s : Reactor Engine.skiptable.State),
      Engine.skiptable.Started s₀
      ∧ (machine Engine.skiptable.ops).Reach (Kernel SendsAll) (start s₀ 3)
        [.accept 5, .accept 6, .recv 5 q r, .recv 6 q r', .send 5 r r] s
      ∧ due 5 [.accept 5, .accept 6, .recv 5 q r, .recv 6 q r', .send 5 r r]
        = got 5 [.accept 5, .accept 6, .recv 5 q r, .recv 6 q r', .send 5 r r]
      ∧ (s.connList 6).wbuffer.take r'.length = r'
      ∧ ∃ o, step Engine.skiptable.ops s (.dispatch (sampleAnswer none)) = .ok o := by
  obtain ⟨s₀, hinit, -⟩ := Engine.exists_init (Vector.replicate KVS_ARRAY_SIZE ⟨0, 0⟩)
    (fun _ => false) .skiptable
  have hs : Engine.skiptable.Started s₀ := ⟨_, _, hinit⟩
  have hlistener : 3 < CONNECTION_SIZE := by decide
  let received : Received := .ofText "GET k" (by decide) (by decide)
  have htoken : received.HasToken := by decide
  have hfew : (tokensOf blanks received.request.mem).length ≤ KVS_MAX_TOKENS := by decide +kernel
  obtain ⟨s₁, h₁, hready₁, hopened₁, hepoll₁⟩ := reach_accept hs hlistener .refl rfl
    (show 5 < CONNECTION_SIZE by decide) rfl
  obtain ⟨s₂, h₂, hready₂, hopened₂, hepoll₂⟩ := reach_accept hs hlistener h₁ hready₁
    (show 6 < CONNECTION_SIZE by decide) (by rw [hopened₁]; rfl)
  obtain ⟨r, s₃, h₃, hready₃, hopened₃, hepoll₃⟩ := reach_recv hs hlistener h₂
    (fun q hq => absurd hq List.not_mem_nil) hready₂ (show 5 ≠ 3 by decide)
    (by rw [hepoll₂, hepoll₁]; rfl) htoken hfew (fun _ => false)
  obtain ⟨r', s₄, h₄, hready₄, hopened₄, hepoll₄⟩ := reach_recv hs hlistener h₃
    (List.forall_mem_singleton.mpr ⟨_, rfl⟩) hready₃ (show 6 ≠ 3 by decide)
    (by rw [hepoll₃, hepoll₂]; rfl) htoken hfew (fun _ => false)
  obtain ⟨text, s₅, hphase, h₅, hready₅, hopened₅, hepoll₅⟩ := reach_send hs hlistener h₄ hready₄
    (show 5 ≠ 3 by decide) (by rw [hepoll₄, hepoll₃]; rfl)
  obtain rfl : r = text := Phase.pending.inj (Option.some.inj hphase)
  -- both are reported: the first has a request again
  have hwait : Kernel SendsAll s₅ (.wait [(5, EPOLLIN), (6, EPOLLOUT)]) := by
    refine ⟨hready₅, by decide, List.forall_mem_cons.mpr ⟨⟨EPOLLIN, ?_, id, id⟩,
      List.forall_mem_singleton.mpr ⟨EPOLLOUT, ?_, id, id⟩⟩⟩
    · rw [hepoll₅]
      rfl
    · rw [hepoll₅, hepoll₄]
      rfl
  have h₆ := h₅.step hwait rfl
  obtain ⟨hclients, hdue, -, -, hreturn⟩ := turns_sequential .skiptable hinit hlistener h₆
  refine ⟨s₀, _, r, r', _, hs, h₆, ?_, ?_, hreturn hs ?_ _ (kernel_sampleAnswer rfl (by simp))
    ⟨fun _ => false, rfl⟩⟩
  · obtain ⟨ph, hph, hdue⟩ := hdue 5 (by decide)
    have hidle := phase_concat_of_turn (a := .send 5 r r) hphase rfl (if_pos rfl)
    obtain rfl : Phase.idle = ph := Option.some.inj (hidle.symm.trans hph)
    exact hdue.trans (List.append_nil _)
  · obtain ⟨-, hidle⟩ | ⟨text, -, hpending, -, htake⟩ := hclients 6 (by decide) (by
      show s₅.opened 6 = true
      rw [hopened₅, hopened₄, hopened₃, hopened₂]
      rfl)
    · cases hidle
    · obtain rfl : r' = text := Phase.pending.inj (Option.some.inj hpending)
      exact htake
  · refine List.forall_mem_cons.mpr ⟨⟨_, rfl⟩, List.forall_mem_singleton.mpr ⟨_, rfl⟩⟩

end Reactor
