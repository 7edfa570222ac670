import LinuxLearn.Websocket

/-!
# The WebSocket server

`reactor.c` of the WebSocket server: an epoll loop over an array `conn_list`
with a slot for every descriptor. A slot outlives its connection: when the
kernel hands out a descriptor again, `event_register` clears the buffers of
its slot, and leaves its `status` as the last connection has left it.

So the state of a session belongs to the descriptor. It belongs to the
connection, too, as long as no descriptor of a connection that has sent
something is handed out again and every connection starts with a message
that names a key (`status_of_connection`).
-/

namespace Websocket

/-- `CONNECTION_SIZE`. -/
def CONNECTION_SIZE : ℕ := 1048576

/-- What a descriptor is registered for: `EPOLLIN` or `EPOLLOUT`. -/
inductive Event where
  | epollin
  | epollout
deriving DecidableEq

/-- What `recv` can answer. -/
inductive RecvAnswer where
  | failed
  | disconnected
  | received (message : List UInt8)

/-- **What the kernel answers** to the call a callback makes. -/
structure Answer where
  accept : Option ℕ
  recv : RecvAnswer

/-- **The reactor**, and what the kernel has of it. -/
structure Reactor where
  /-- The slots, by descriptor. -/
  connList : ℕ → Conn
  /-- The interest list of `epfd`. -/
  epoll : ℕ → Option Event
  /-- Which sockets are open. -/
  opened : ℕ → Bool

/-- How the loop can go wrong. -/
inductive ReactorFault where
  | nullCallback
  | outOfBounds
  | handler (f : Fault)

/-- **What happens**: a connection is accepted on a descriptor or closed, a
message is passed to `ws_request` while the slot has a status, and a 101
response is produced. -/
inductive Note where
  | accepted (fd : ℕ)
  | closed (fd : ℕ)
  | requested (fd : ℕ) (status : ℤ)
  | switched (fd : ℕ)

/-- **Whether a 101 response was produced for the connection** that was accepted
last on a descriptor. -/
def switchedOn (fd : ℕ) (log : List Note) : Bool :=
  log.foldl (fun switched n => match n with
    | .accepted fd' => if fd' = fd then false else switched
    | .switched fd' => if fd' = fd then true else switched
    | _ => switched) false

namespace Reactor

/-- **`set_event`**: `EPOLL_CTL_ADD` fails on a descriptor that is registered,
`EPOLL_CTL_MOD` on one that is not, and nobody looks. -/
def setEvent (s : Reactor) (fd : ℕ) (event : Event) (flag : Bool) : Reactor :=
  if flag = (s.epoll fd).isNone then
    { s with epoll := Function.update s.epoll fd (some event) }
  else s

/-- `close`: the kernel drops a closed descriptor from the interest list. -/
def close (s : Reactor) (fd : ℕ) : Reactor :=
  { s with opened := Function.update s.opened fd false, epoll := Function.update s.epoll fd none }

/-- A slot is written to. -/
def setConn (s : Reactor) (fd : ℕ) (c : Conn) : Reactor :=
  { s with connList := Function.update s.connList fd c }

/-- **`event_register`**, of a descriptor that is not negative. -/
def eventRegister (s : Reactor) (fd : ℕ) (event : Event) : Except ReactorFault Reactor :=
  if CONNECTION_SIZE ≤ fd then .error .outOfBounds
  else
    let c : Conn :=
      { s.connList fd with
        fd := fd
        rAction := some .recvCb
        sendCallback := some .sendCb
        rbuffer := zeroed BUFFER_LENGTH
        rlength := 0
        wbuffer := zeroed BUFFER_LENGTH
        wlength := 0 }
    .ok ((s.setConn fd c).setEvent fd event true)

/-- **`accept_cb`.** -/
def acceptCb (s : Reactor) (answer : Answer) : Except ReactorFault (List Note × Reactor) :=
  match answer.accept with
  | none => .ok ([], s)
  | some clientfd => do
    let s ← { s with opened := Function.update s.opened clientfd true }.eventRegister clientfd
      .epollin
    return ([.accepted clientfd], s)

/-- **`recv_cb`.** A descriptor that is closed is no longer in the interest list
when it is deleted from it. -/
def recvCb (ssl : Openssl) (s : Reactor) (fd : ℕ) (answer : Answer) :
    Except ReactorFault (List Note × Reactor) :=
  let c := { s.connList fd with rbuffer := zeroed BUFFER_LENGTH }
  match answer.recv with
  | .failed => .ok ([.closed fd], (s.setConn fd c).close fd)
  | .disconnected => .ok ([.closed fd], (s.setConn fd c).close fd)
  | .received message =>
    let c := { c with
      rbuffer := message ++ zeroed (BUFFER_LENGTH - message.length)
      rlength := message.length }
    match wsRequest ssl c with
    | .error f => .error (.handler f)
    | .ok (switched, c') =>
      .ok (.requested fd c.status :: (if switched then [.switched fd] else []),
        (s.setConn fd c').setEvent fd .epollout false)

/-- **`send_cb`**: what is in the write buffer is sent, and nothing is looked at. -/
def sendCb (s : Reactor) (fd : ℕ) : List Note × Reactor := ([], s.setEvent fd .epollin false)

/-- A callback is called. -/
def call (ssl : Openssl) (s : Reactor) (fd : ℕ) (answer : Answer) :
    Option Callback → Except ReactorFault (List Note × Reactor)
  | none => .error .nullCallback
  | some .acceptCb => s.acceptCb answer
  | some .recvCb => s.recvCb ssl fd answer
  | some .sendCb => .ok (s.sendCb fd)

/-- **What the loop is told**: a descriptor is ready. -/
structure Input where
  fd : ℕ
  /-- What it is ready for. -/
  event : Event
  /-- What the kernel answers to the call that is made then. -/
  answer : Answer

/-- **One event is dispatched.** -/
def step (ssl : Openssl) (s : Reactor) (i : Input) : Except ReactorFault (List Note × Reactor) :=
  match i.event with
  | .epollin => s.call ssl i.fd i.answer (s.connList i.fd).rAction
  | .epollout => s.call ssl i.fd i.answer (s.connList i.fd).sendCallback

/-- The server as a machine. -/
def machine (ssl : Openssl) : Machine Reactor Input (List Note) := fun s i =>
  (s.step ssl i).toOption

/-- **The server as `main` starts it**, with a listener. -/
def start (listener : ℕ) : Reactor where
  connList := Function.update (fun _ => Conn.zero) listener
    { Conn.zero with fd := listener, rAction := some .acceptCb }
  epoll := Function.update (fun _ => none) listener (some .epollin)
  opened := Function.update (fun _ => false) listener true

/-- **What is assumed of the kernel**: it reports what is registered, a descriptor
it hands out is not open, and it hands over what fits the buffer. -/
def Kernel (s : Reactor) (i : Input) : Prop :=
  s.epoll i.fd = some i.event
  ∧ (∀ fd, i.answer.accept = some fd → s.opened fd = false)
  ∧ ∀ message, i.answer.recv = .received message →
    message ≠ [] ∧ message.length ≤ BUFFER_LENGTH

/-- **No session is inherited, and every session starts with a key**: a connection
gets a slot no message was handled in, and the first message of a slot names
a key. -/
def Fresh (s : Reactor) (i : Input) : Prop :=
  (∀ fd, (s.connList i.fd).rAction = some .acceptCb → i.answer.accept = some fd →
    (s.connList fd).status = 0)
  ∧ ∀ message, (s.connList i.fd).rAction = some .recvCb → i.event = .epollin →
    i.answer.recv = .received message → (s.connList i.fd).status = 0 → NamesKey message

/-- **The state of a session belongs to the connection**: when a message is passed
to `ws_request`, the status is 1 exactly if a 101 response was produced for
the connection, and is 0 before. -/
def Belongs (log : List Note) : Prop :=
  ∀ before after fd status, log = before ++ .requested fd status :: after →
    (status = 1 ↔ switchedOn fd before = true) ∧ (switchedOn fd before = false → status = 0)

/-! ## The invariant -/

section Log

variable {log out : List Note} {fd : ℕ}

theorem switchedOn_concat (fd : ℕ) (log : List Note) (n : Note) :
    switchedOn fd (log ++ [n]) = match n with
      | .accepted fd' => if fd' = fd then false else switchedOn fd log
      | .switched fd' => if fd' = fd then true else switchedOn fd log
      | _ => switchedOn fd log := by
  unfold switchedOn
  rw [List.foldl_append]
  rfl

/-- More is said about a log by what is said about its new entries. -/
theorem Belongs.append (h : Belongs log)
    (hout : ∀ before after fd status, out = before ++ .requested fd status :: after →
      (status = 1 ↔ switchedOn fd (log ++ before) = true)
        ∧ (switchedOn fd (log ++ before) = false → status = 0)) : Belongs (log ++ out) := by
  intro before after fd status heq
  rcases List.append_eq_append_iff.mp heq with ⟨as, rfl, has⟩ | ⟨bs, hbs, has⟩
  · exact hout as after fd status has
  · cases bs with
    | nil =>
      rw [List.append_nil] at hbs
      have hfirst := hout [] after fd status has.symm
      rw [List.append_nil, hbs] at hfirst
      exact hfirst
    | cons b bs =>
      obtain ⟨rfl, -⟩ := List.cons.inj has
      exact h before bs fd status hbs

/-- An entry that is no message. -/
theorem Belongs.concat (h : Belongs log) {n : Note} (hn : ∀ fd status, n ≠ .requested fd status) :
    Belongs (log ++ [n]) := by
  refine h.append (fun before after fd status heq => ?_)
  have hmem : Note.requested fd status ∈ [n] := by
    rw [heq]
    exact List.mem_append_right _ List.mem_cons_self
  exact absurd (List.mem_singleton.mp hmem).symm (hn fd status)

end Log

/-- **What a slot says of its connection.** -/
structure Session (log : List Note) (fd : ℕ) (c : Conn) : Prop where
  status_eq_one : c.status = 1 ↔ switchedOn fd log = true
  status_eq_zero : switchedOn fd log = false → c.status = 0

/-- **What holds between the events**: the slots of clients that are registered
say the truth, and so did they for every message. -/
structure Inv (log : List Note) (s : Reactor) : Prop where
  session : ∀ fd, (s.epoll fd).isSome → (s.connList fd).rAction = some .recvCb →
    Session log fd (s.connList fd)
  sends : ∀ fd cb, (s.connList fd).sendCallback = some cb → cb = .sendCb
  belongs : Belongs log

section Steps

variable {log out : List Note} {s s' : Reactor} {ssl : Openssl} {i : Input}

theorem setEvent_connList (s : Reactor) (fd : ℕ) (event : Event) (flag : Bool) :
    (s.setEvent fd event flag).connList = s.connList := by
  unfold setEvent
  split <;> rfl

theorem setEvent_epoll_of_ne (s : Reactor) {fd fd' : ℕ} (event : Event) (flag : Bool)
    (h : fd' ≠ fd) : (s.setEvent fd event flag).epoll fd' = s.epoll fd' := by
  unfold setEvent
  split
  · exact Function.update_of_ne h _ _
  · rfl

/-- Changing what a descriptor is registered for registers nothing new. -/
theorem isSome_of_setEvent_mod {fd fd' : ℕ} {event : Event}
    (h : ((s.setEvent fd event false).epoll fd').isSome) : (s.epoll fd').isSome := by
  by_cases hfd : fd' = fd
  · subst hfd
    unfold setEvent at h
    cases hepoll : s.epoll fd' with
    | none =>
      rw [hepoll] at h
      simp [hepoll] at h
    | some e => rfl
  · rw [setEvent_epoll_of_ne s event false hfd] at h
    exact h

theorem setConn_of_ne (s : Reactor) {fd fd' : ℕ} (c : Conn) (h : fd' ≠ fd) :
    (s.setConn fd c).connList fd' = s.connList fd' := Function.update_of_ne h _ _

theorem setConn_self (s : Reactor) (fd : ℕ) (c : Conn) : (s.setConn fd c).connList fd = c :=
  Function.update_self ..

/-- **A step works on one slot.** -/
theorem Inv.slot (h : Inv log s) (fd : ℕ)
    (hconn : ∀ fd', fd' ≠ fd → s'.connList fd' = s.connList fd')
    (hepoll : ∀ fd', fd' ≠ fd → s'.epoll fd' = s.epoll fd')
    (hswitched : ∀ fd', fd' ≠ fd → switchedOn fd' (log ++ out) = switchedOn fd' log)
    (hsession : (s'.epoll fd).isSome → (s'.connList fd).rAction = some .recvCb →
      Session (log ++ out) fd (s'.connList fd))
    (hsends : ∀ cb, (s'.connList fd).sendCallback = some cb → cb = .sendCb)
    (hbelongs : Belongs (log ++ out)) : Inv (log ++ out) s' where
  session := by
    intro fd' hsome haction
    by_cases hfd : fd' = fd
    · subst hfd
      exact hsession hsome haction
    · rw [hepoll fd' hfd] at hsome
      rw [hconn fd' hfd] at haction ⊢
      obtain ⟨hone, hzero⟩ := h.session fd' hsome haction
      exact ⟨hswitched fd' hfd ▸ hone, hswitched fd' hfd ▸ hzero⟩
  sends := by
    intro fd' cb hcb
    by_cases hfd : fd' = fd
    · subst hfd
      exact hsends cb hcb
    · rw [hconn fd' hfd] at hcb
      exact h.sends fd' cb hcb
  belongs := hbelongs

/-- **A connection is accepted**, on a slot without a session. -/
theorem Inv.acceptCb {answer : Answer} (h : Inv log s)
    (hfresh : ∀ fd, answer.accept = some fd → (s.connList fd).status = 0)
    (hstep : s.acceptCb answer = .ok (out, s')) : Inv (log ++ out) s' := by
  unfold Reactor.acceptCb at hstep
  cases haccept : answer.accept with
  | none =>
    rw [haccept] at hstep
    obtain ⟨rfl, rfl⟩ := Prod.mk.inj (Except.ok.inj hstep)
    rw [List.append_nil]
    exact h
  | some fd =>
    rw [haccept] at hstep
    obtain ⟨s₁, hregister, hstep⟩ := exists_of_bind_eq_ok hstep
    obtain ⟨rfl, rfl⟩ := Prod.mk.inj (Except.ok.inj hstep)
    unfold eventRegister at hregister
    split at hregister
    · cases hregister
    obtain rfl := Except.ok.inj hregister
    have hswitched : switchedOn fd (log ++ [Note.accepted fd]) = false := by
      rw [switchedOn_concat]
      exact if_pos rfl
    have hstatus := hfresh fd haccept
    refine h.slot fd (fun fd' hfd => ?_) (fun fd' hfd => ?_) (fun fd' hfd => ?_) (fun _ _ => ?_)
      (fun cb hcb => ?_) (h.belongs.concat (fun _ _ he => nomatch he))
    · rw [setEvent_connList]
      exact setConn_of_ne _ _ hfd
    · exact setEvent_epoll_of_ne _ _ _ hfd
    · rw [switchedOn_concat]
      exact if_neg (Ne.symm hfd)
    · rw [setEvent_connList, setConn_self]
      exact ⟨by simp [hstatus, hswitched], fun _ => hstatus⟩
    · rw [setEvent_connList, setConn_self] at hcb
      exact (Option.some.inj hcb).symm

/-- **A connection is closed.** -/
theorem Inv.closed (h : Inv log s) (fd : ℕ) (rbuffer : List UInt8) :
    Inv (log ++ [Note.closed fd])
      ((s.setConn fd { s.connList fd with rbuffer := rbuffer }).close fd) := by
  refine h.slot fd (fun fd' hfd => setConn_of_ne _ _ hfd) (fun fd' hfd => ?_) (fun fd' hfd => ?_)
    (fun hsome _ => ?_) (fun cb hcb => ?_) (h.belongs.concat (fun _ _ he => nomatch he))
  · exact Function.update_of_ne hfd _ _
  · rw [switchedOn_concat]
  · change (Function.update s.epoll fd none fd).isSome = true at hsome
    rw [Function.update_self] at hsome
    cases hsome
  · change ((s.setConn fd _).connList fd).sendCallback = _ at hcb
    rw [setConn_self] at hcb
    exact h.sends fd cb hcb

/-- **A message is handled**, which names a key if it is the first. -/
theorem Inv.received (h : Inv log s) {fd : ℕ} (hepoll : (s.epoll fd).isSome)
    (haction : (s.connList fd).rAction = some .recvCb) {message : List UInt8} {c c' : Conn}
    {switched : Bool} (hmessage : message.length ≤ BUFFER_LENGTH)
    (hfresh : (s.connList fd).status = 0 → NamesKey message)
    (hrequest : wsRequest ssl c = .ok (switched, c'))
    (hc : c = { s.connList fd with
      rbuffer := message ++ zeroed (BUFFER_LENGTH - message.length)
      rlength := message.length }) :
    Inv (log ++ (.requested fd c.status :: (if switched then [.switched fd] else [])))
      ((s.setConn fd c').setEvent fd .epollout false) := by
  have hsession := h.session fd hepoll haction
  have hcstatus : c.status = (s.connList fd).status := by rw [hc]
  have hcrequest : c.request = cstring message := Conn.request_eq _ hmessage (by rw [hc]) (by rw [hc])
  -- the message, and what the slot says of the connection then
  have hrequested : Belongs (log ++ [Note.requested fd c.status]) := by
    refine h.belongs.append (fun before after fd' status heq => ?_)
    cases before with
    | nil =>
      obtain ⟨⟨rfl, rfl⟩, -⟩ := List.cons.inj heq |>.imp_left Note.requested.inj
      rw [List.append_nil, hcstatus]
      exact ⟨hsession.status_eq_one, hsession.status_eq_zero⟩
    | cons n before =>
      exact absurd (List.cons.inj heq).2.symm
        (List.append_ne_nil_of_right_ne_nil _ (List.cons_ne_nil _ _))
  have hslot : ∀ {out'}, Belongs (log ++ out') →
      (∀ fd', fd' ≠ fd → switchedOn fd' (log ++ out') = switchedOn fd' log) →
      Session (log ++ out') fd c' →
      Inv (log ++ out') ((s.setConn fd c').setEvent fd .epollout false) := by
    intro out' hbelongs hother hsession'
    refine h.slot fd (fun fd' hfd => ?_) (fun fd' hfd => ?_) hother (fun _ _ => ?_)
      (fun cb hcb => ?_) hbelongs
    · rw [setEvent_connList]
      exact setConn_of_ne _ _ hfd
    · exact setEvent_epoll_of_ne _ _ _ hfd
    · rw [setEvent_connList, setConn_self]
      exact hsession'
    · rw [setEvent_connList, setConn_self, (wsRequest_eq hrequest).2.1, hc] at hcb
      exact h.sends fd cb hcb
  obtain ⟨-, -, ⟨hstatus, hstatus', hswitched⟩ | ⟨hstatus, hstatus', rfl⟩⟩ := wsRequest_eq hrequest
  · -- the first message of the slot is a handshake
    obtain rfl : switched = true := by
      rw [hswitched, hcrequest]
      exact hfresh (hcstatus ▸ hstatus)
    have hswitchedOn : switchedOn fd (log ++ [Note.requested fd c.status] ++ [Note.switched fd]) = true := by
      rw [switchedOn_concat]
      exact if_pos rfl
    have hout : log ++ (Note.requested fd c.status :: (if true = true then [Note.switched fd] else []))
        = log ++ [Note.requested fd c.status] ++ [Note.switched fd] := List.append_cons ..
    refine hslot (hout ▸ hrequested.concat (fun _ _ he => nomatch he)) (fun fd' hfd => ?_) ?_
    · rw [hout, switchedOn_concat, switchedOn_concat]
      exact if_neg (Ne.symm hfd)
    · rw [hout]
      exact ⟨iff_of_true hstatus' hswitchedOn, fun hfalse => nomatch hswitchedOn.symm.trans hfalse⟩
  · -- the others are frames
    have hswitchedOn : switchedOn fd log = true := by
      by_contra hfalse
      exact hstatus (hcstatus.trans (hsession.status_eq_zero (Bool.eq_false_iff.mpr hfalse)))
    have hsame : ∀ fd', switchedOn fd' (log ++ [Note.requested fd c.status]) = switchedOn fd' log :=
      fun fd' => by rw [switchedOn_concat]
    have htrue := (hsame fd).trans hswitchedOn
    have hone : c'.status = 1 := (hstatus'.trans hcstatus).trans (hsession.status_eq_one.mpr hswitchedOn)
    exact hslot hrequested (fun fd' _ => hsame fd')
      ⟨iff_of_true hone htrue, fun hfalse => nomatch htrue.symm.trans hfalse⟩

/-- **Every event** keeps the invariant. -/
theorem Inv.step (h : Inv log s) (hkernel : Kernel s i) (hfresh : Fresh s i)
    (hstep : s.step ssl i = .ok (out, s')) : Inv (log ++ out) s' := by
  obtain ⟨hepoll, -, hrecv⟩ := hkernel
  have hsent : ∀ fd, Inv (log ++ []) (s.setEvent fd .epollin false) := by
    intro fd
    rw [List.append_nil]
    refine ⟨fun fd' hsome haction => ?_, fun fd' cb hcb => ?_, h.belongs⟩
    · rw [setEvent_connList] at haction ⊢
      exact h.session fd' (isSome_of_setEvent_mod hsome) haction
    · rw [setEvent_connList] at hcb
      exact h.sends fd' cb hcb
  unfold Reactor.step at hstep
  cases hevent : i.event with
  | epollout =>
    rw [hevent] at hstep
    cases hcb : (s.connList i.fd).sendCallback with
    | none =>
      rw [hcb] at hstep
      cases hstep
    | some cb =>
      obtain rfl := h.sends i.fd cb hcb
      rw [hcb] at hstep
      obtain ⟨rfl, rfl⟩ := Prod.mk.inj (Except.ok.inj hstep)
      exact hsent i.fd
  | epollin =>
    rw [hevent] at hstep hepoll
    cases haction : (s.connList i.fd).rAction with
    | none =>
      rw [haction] at hstep
      cases hstep
    | some cb =>
      rw [haction] at hstep
      cases cb with
      | sendCb =>
        obtain ⟨rfl, rfl⟩ := Prod.mk.inj (Except.ok.inj hstep)
        exact hsent i.fd
      | acceptCb => exact h.acceptCb (fun fd hfd => hfresh.1 fd haction hfd) hstep
      | recvCb =>
        change s.recvCb ssl i.fd i.answer = _ at hstep
        unfold Reactor.recvCb at hstep
        cases hanswer : i.answer.recv with
        | failed =>
          rw [hanswer] at hstep
          obtain ⟨rfl, rfl⟩ := Prod.mk.inj (Except.ok.inj hstep)
          exact h.closed i.fd _
        | disconnected =>
          rw [hanswer] at hstep
          obtain ⟨rfl, rfl⟩ := Prod.mk.inj (Except.ok.inj hstep)
          exact h.closed i.fd _
        | received message =>
          rw [hanswer] at hstep
          simp only at hstep
          split at hstep
          · cases hstep
          · next switched c' hrequest =>
            obtain ⟨rfl, rfl⟩ := Prod.mk.inj (Except.ok.inj hstep)
            have hinv := h.received (by rw [hepoll]; rfl) haction (hrecv message hanswer).2
              (fun hstatus => hfresh.2 message haction hevent hanswer hstatus) hrequest rfl
            exact hinv

theorem Inv.start (listener : ℕ) : Inv [] (start listener) := by
  have hlistener : (Reactor.start listener).connList listener
      = { Conn.zero with fd := listener, rAction := some .acceptCb } := by
    simp only [Reactor.start, Function.update_self]
  have hconn : ∀ fd, fd ≠ listener → (Reactor.start listener).connList fd = Conn.zero := by
    intro fd hfd
    simp only [Reactor.start, Function.update_of_ne hfd]
  refine ⟨fun fd hsome haction => ?_, fun fd cb hcb => ?_, fun before after fd status heq => ?_⟩
  · by_cases hfd : fd = listener
    · rw [hfd, hlistener] at haction
      cases haction
    · rw [hconn fd hfd] at haction
      cases haction
  · by_cases hfd : fd = listener
    · rw [hfd, hlistener] at hcb
      cases hcb
    · rw [hconn fd hfd] at hcb
      cases hcb
  · exact absurd heq.symm (List.append_ne_nil_of_right_ne_nil _ (List.cons_ne_nil _ _))

end Steps

/-- **The state of a session belongs to its connection**, in every run in which no
connection gets a slot that a message was handled in before, and the first
message of every slot names a key. -/
theorem status_of_connection {ssl : Openssl} {listener : ℕ} {log : List Note} {s : Reactor}
    (h : (machine ssl).Reach (fun s i => Kernel s i ∧ Fresh s i) (start listener) log s) :
    Belongs log := by
  refine (Machine.Reach.invariant (I := Inv) (Inv.start listener) ?_ h).belongs
  intro log s i out s' hinv hP hstep
  exact hinv.step hP.1 hP.2 (eq_ok_of_toOption hstep)

/-! Sessions on descriptor 5. -/

/-- A message comes, and is handled. -/
theorem machine_received {ssl : Openssl} {s : Reactor} {fd : ℕ} {message : List UInt8} {c' : Conn}
    {switched : Bool} (haction : (s.connList fd).rAction = some .recvCb)
    (hrequest : wsRequest ssl { s.connList fd with
      rbuffer := message ++ zeroed (BUFFER_LENGTH - message.length)
      rlength := message.length } = .ok (switched, c')) :
    machine ssl s ⟨fd, .epollin, ⟨none, .received message⟩⟩
      = some (.requested fd (s.connList fd).status :: (if switched then [.switched fd] else []),
        (s.setConn fd c').setEvent fd .epollout false) := by
  have hrecv : s.recvCb ssl fd ⟨none, .received message⟩
      = .ok (.requested fd (s.connList fd).status :: (if switched then [.switched fd] else []),
        (s.setConn fd c').setEvent fd .epollout false) := by
    unfold recvCb
    simp only [hrequest]
  show (s.call ssl fd ⟨none, .received message⟩ (s.connList fd).rAction).toOption = _
  rw [haction]
  exact congrArg Except.toOption hrecv

/-- A frame comes, and is handled. -/
theorem reach_frame {ssl : Openssl} {P : Reactor → Input → Prop} {s₀ s : Reactor} {log : List Note}
    (fd : ℕ) (message : List UInt8) (h : (machine ssl).Reach P s₀ log s)
    (hP : P s ⟨fd, .epollin, ⟨none, .received message⟩⟩)
    (haction : (s.connList fd).rAction = some .recvCb) (hstatus : (s.connList fd).status = 1)
    (hwbuffer : (s.connList fd).wbuffer.length = BUFFER_LENGTH)
    (hmessage : message.length ≤ BUFFER_LENGTH) :
    ∃ s', (machine ssl).Reach P s₀ (log ++ [Note.requested fd 1]) s' := by
  have hrbuffer : (message ++ zeroed (BUFFER_LENGTH - message.length)).length = BUFFER_LENGTH := by
    rw [List.length_append, zeroed, List.length_replicate, Nat.add_sub_cancel' hmessage]
  obtain ⟨c', hframe⟩ := wsRequest_frame ssl (c := { s.connList fd with
    rbuffer := message ++ zeroed (BUFFER_LENGTH - message.length)
    rlength := message.length }) hstatus hrbuffer hwbuffer
  have hstep := machine_received haction hframe
  rw [hstatus] at hstep
  exact ⟨_, h.step hP hstep⟩

/-- An OpenSSL that computes little. -/
def sampleSsl : Openssl := ⟨fun _ => [1], fun _ => [65, 10]⟩

/-- A message of one line that names no key. -/
def hiMessage : List UInt8 := ascii "hi"

/-- A message of one line that names a key. -/
def keyMessage : List UInt8 := ascii "Sec-WebSocket-Key: a"

/-- A client on a slot that nothing was handled in. -/
def newClient : Conn :=
  { Conn.zero with fd := 5, rAction := some .recvCb, sendCallback := some .sendCb }

/-- The server after it has accepted a connection on descriptor 5. -/
def accepted : Reactor :=
  { (start 3).setConn 5 newClient with
    opened := Function.update (start 3).opened 5 true
    epoll := Function.update (start 3).epoll 5 (some .epollin) }

theorem reach_accepted {P : Reactor → Input → Prop}
    (hP : P (start 3) ⟨3, .epollin, ⟨some 5, .failed⟩⟩) :
    (machine sampleSsl).Reach P (start 3) [.accepted 5] accepted :=
  (Machine.Reach.refl (M := machine sampleSsl)).step hP rfl

theorem kernel_received {s : Reactor} {fd : ℕ} {message : List UInt8}
    (hepoll : s.epoll fd = some .epollin) (hne : message ≠ []) (hle : message.length ≤ BUFFER_LENGTH) :
    Kernel s ⟨fd, .epollin, ⟨none, .received message⟩⟩ := by
  refine ⟨hepoll, fun _ he => (nomatch he), fun message' he => ?_⟩
  obtain rfl : message = message' := RecvAnswer.received.inj he
  exact ⟨hne, hle⟩

theorem kernel_other {s : Reactor} {i : Input} (hepoll : s.epoll i.fd = some i.event)
    (haccept : i.answer.accept = none) (hrecv : ∀ message, i.answer.recv ≠ .received message) :
    Kernel s i := by
  refine ⟨hepoll, fun fd he => ?_, fun message he => absurd he (hrecv message)⟩
  rw [haccept] at he
  cases he

set_option maxRecDepth 8000 in
/-- A session that starts with a key, and goes on with a frame. -/
theorem status_of_connection_key :
    ∃ s, (machine sampleSsl).Reach (fun s i => Kernel s i ∧ Fresh s i) (start 3)
        [.accepted 5, .requested 5 0, .switched 5, .requested 5 1] s
      ∧ Belongs [.accepted 5, .requested 5 0, .switched 5, .requested 5 1] := by
  have hread : readline keyMessage 0 = (-1, keyMessage) := rfl
  have hfresh : Fresh (start 3) ⟨3, .epollin, ⟨some 5, .failed⟩⟩ := by
    refine ⟨fun fd _ he => ?_, fun _ _ _ he => nomatch he⟩
    obtain rfl : 5 = fd := Option.some.inj he
    rfl
  have hopen := reach_accepted (P := fun s i => Kernel s i ∧ Fresh s i)
    ⟨⟨rfl, by decide, fun _ he => (nomatch he)⟩, hfresh⟩
  have haccept : base64Encode sampleSsl
      (cstring (sampleSsl.sha1 ((keyMessage ++ GUID).drop WEBSOCK_KEY_LENGTH))) = .ok [65] := rfl
  obtain ⟨c', hkey, hstatus, hwbuffer, haction, hsend⟩ := wsRequest_key
    (c := { accepted.connList 5 with
      rbuffer := keyMessage ++ zeroed (BUFFER_LENGTH - keyMessage.length)
      rlength := keyMessage.length }) rfl
    (by rw [Conn.request_eq keyMessage (by decide) rfl rfl]; exact hread)
    (by decide) (by decide) haccept (by decide)
  have hnames : NamesKey keyMessage := by decide
  have hfresh' : Fresh accepted ⟨5, .epollin, ⟨none, .received keyMessage⟩⟩ := by
    refine ⟨fun _ _ he => (nomatch he), fun message _ _ he _ => ?_⟩
    obtain rfl : keyMessage = message := RecvAnswer.received.inj he
    exact hnames
  have hkernel : Kernel accepted ⟨5, .epollin, ⟨none, .received keyMessage⟩⟩ :=
    kernel_received rfl (by decide) (by decide)
  have hstep : machine sampleSsl accepted ⟨5, .epollin, ⟨none, .received keyMessage⟩⟩ = _ :=
    machine_received rfl hkey
  have hfirst := hopen.step ⟨hkernel, hfresh'⟩ hstep
  have hsent := hfirst.step (i := ⟨5, .epollout, ⟨none, .failed⟩⟩)
    ⟨kernel_other rfl rfl (fun _ he => nomatch he), fun _ _ he => (nomatch he),
      fun _ _ _ he => nomatch he⟩ (show machine sampleSsl _ _ = some ([], _) from by
        show ((call sampleSsl _ 5 ⟨none, .failed⟩ c'.sendCallback).toOption) = _
        rw [hsend]
        rfl)
  have hframe : Fresh (((accepted.setConn 5 c').setEvent 5 .epollout false).setEvent 5 .epollin false)
      ⟨5, .epollin, ⟨none, .received hiMessage⟩⟩ := by
    refine ⟨fun _ _ he => (nomatch he), fun _ _ _ _ hzero => ?_⟩
    change c'.status = 0 at hzero
    exact absurd (hstatus.symm.trans hzero) one_ne_zero
  obtain ⟨s, hlast⟩ := reach_frame 5 hiMessage hsent
    ⟨kernel_received rfl (by decide) (by decide), hframe⟩ haction hstatus hwbuffer (by decide)
  exact ⟨s, hlast, status_of_connection hlast⟩

/-- **The state of a session outlives its connection**: a client says `hi` and
leaves, and the first message of the next one is taken for a frame. -/
theorem not_status_of_connection :
    ¬ ∀ (ssl : Openssl) (listener : ℕ) (log : List Note) (s : Reactor),
      (machine ssl).Reach Kernel (start listener) log s → Belongs log := by
  intro h
  have hread : readline hiMessage 0 = (-1, hiMessage) := rfl
  have hfirst := (reach_accepted (P := Kernel) ⟨rfl, by decide, fun _ he => nomatch he⟩).step
    (i := ⟨5, .epollin, ⟨none, .received hiMessage⟩⟩)
    (kernel_received rfl (by decide) (by decide))
    (machine_received rfl (wsRequest_line sampleSsl rfl
      (by rw [Conn.request_eq hiMessage (by decide) rfl rfl]; exact hread)
      (by decide) (by decide)))
  have hsent := hfirst.step (i := ⟨5, .epollout, ⟨none, .failed⟩⟩)
    (kernel_other rfl rfl (fun _ he => nomatch he)) rfl
  have hclosed := hsent.step (i := ⟨5, .epollin, ⟨none, .disconnected⟩⟩)
    (kernel_other rfl rfl (fun _ he => nomatch he)) rfl
  have hagain := hclosed.step (i := ⟨3, .epollin, ⟨some 5, .failed⟩⟩)
    ⟨rfl, by decide, fun _ he => nomatch he⟩ rfl
  obtain ⟨s, hlast⟩ := reach_frame 5 hiMessage hagain
    (kernel_received rfl (by decide) (by decide)) rfl rfl List.length_replicate (by decide)
  have hbelongs := (h sampleSsl 3 _ s hlast
    [.accepted 5, .requested 5 0, .closed 5, .accepted 5] [] 5 1 rfl).1.mp rfl
  exact absurd hbelongs (by decide)

end Reactor

end Websocket
