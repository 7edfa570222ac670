import LinuxLearn.Simulation

/-!
# The io_uring echo server

`aaa.c` keeps one operation per connection in flight: a `recv`, then a `send`
of what was received, then a `recv` again. The kernel takes the operations
that were submitted in any order, and posts their completions in any order;
the server takes up to 128 of these at a time and prepares the operations
that follow, which are submitted together.

All operations work on one buffer. A `recv` fills it when it executes, and a
`send` transmits what is in it when *it* executes, which is some time after
its bytes were received. So a connection has a **share** of the buffer, from
its `recv` to its `send`, and clients get back what they sent as long as no
other `recv` writes something else over a share, and every `send` transmits
all of it (`echoes_of_spared`). The submission queue has room for all that
is prepared (`exists_turn`).
-/

namespace IoUring

/-- `ENTRIES_LENGTH`. -/
def ENTRIES_LENGTH : ℕ := 1024

/-- `BUFFER_LENGTH`. -/
def BUFFER_LENGTH : ℕ := 1024

/-- `EVENT_ACCEPT`, `EVENT_RECV` and `EVENT_SEND`. -/
inductive Event where
  | accept
  | recv
  | send
deriving DecidableEq

/-- **`struct conn_info`.** -/
structure ConnInfo where
  fd : ℤ
  event : Event

/-- **A submission**: what is to be done, and with how much of the buffer. -/
structure Sqe where
  info : ConnInfo
  /-- How many bytes of the buffer it is for. -/
  len : ℕ

/-- **A completion**: what was done, and its result. -/
structure Cqe where
  info : ConnInfo
  res : ℤ

/-- The bytes of the buffer that a submission holds for a client. -/
def Sqe.share (sqe : Sqe) : Option (ℤ × ℕ) :=
  match sqe.info.event with
  | .accept => none
  | .recv => some (sqe.info.fd, 0)
  | .send => some (sqe.info.fd, sqe.len)

/-- The bytes of the buffer that a completion holds for a client. -/
def Cqe.share (cqe : Cqe) : ℤ × ℕ :=
  match cqe.info.event with
  | .accept => (cqe.res, 0)
  | .recv => (cqe.info.fd, cqe.res.toNat)
  | .send => (cqe.info.fd, 0)

/-- **A connection as its client sees it.** -/
structure Socket where
  /-- What the client sent and the server has read. -/
  read : List UInt8
  /-- What the client sent and the server has not read. -/
  unread : List UInt8
  /-- What the client received. -/
  received : List UInt8

/-- What the client has sent, all in all. -/
def Socket.sent (c : Socket) : List UInt8 := c.read ++ c.unread

/-- **The server and its ring.** -/
structure Server where
  /-- The one buffer of all operations. -/
  buffer : List UInt8
  /-- Submissions that are prepared. -/
  sq : List Sqe
  /-- Submissions the kernel has. -/
  flight : List Sqe
  /-- Operations that have executed, and are not posted yet. -/
  executed : List Cqe
  /-- Completions that are posted. -/
  cq : List Cqe
  /-- Which sockets are open. -/
  opened : ℤ → Bool
  socket : ℤ → Socket

namespace Server

open scoped List

/-! ## The server -/

/-- An entry of the submission queue is filled; **`io_uring_get_sqe`** has none
where the queue is full. -/
def prepare (s : Server) (sqe : Sqe) : Option Server :=
  if s.sq.length < ENTRIES_LENGTH then some { s with sq := s.sq ++ [sqe] } else none

/-- **`set_event_accept`.** -/
def setEventAccept (s : Server) (sockfd : ℤ) : Option Server := s.prepare ⟨⟨sockfd, .accept⟩, 0⟩

/-- **`set_event_recv`**, into `buffer`. -/
def setEventRecv (s : Server) (sockfd : ℤ) (len : ℕ) : Option Server :=
  s.prepare ⟨⟨sockfd, .recv⟩, len⟩

/-- **`set_event_send`**, from `buffer`. -/
def setEventSend (s : Server) (sockfd : ℤ) (len : ℕ) : Option Server :=
  s.prepare ⟨⟨sockfd, .send⟩, len⟩

/-- **What the loop of `main` does with one completion.** -/
def handle (s : Server) (cqe : Cqe) : Option Server :=
  match cqe.info.event with
  | .accept => do
    let s ← s.setEventAccept cqe.info.fd
    s.setEventRecv cqe.res BUFFER_LENGTH
  | .recv =>
    if cqe.res = 0 then some { s with opened := Function.update s.opened cqe.info.fd false }
    else if 0 < cqe.res then s.setEventSend cqe.info.fd cqe.res.toNat
    else some s
  | .send => s.setEventRecv cqe.info.fd BUFFER_LENGTH

/-- `io_uring_submit`. -/
def submit (s : Server) : Server := { s with sq := [], flight := s.flight ++ s.sq }

/-- **A turn of the loop of `main`**, from the wait for a completion to the next. -/
def turn (s : Server) : Option (List Cqe × Server) :=
  if s.cq = [] then none
  else do
    let cqes := s.cq.take 128
    let s ← cqes.foldlM handle s
    return (cqes, { s with cq := s.cq.drop cqes.length }.submit)

/-! ## The kernel -/

/-- A connection is accepted on a descriptor. -/
def accept (s : Server) (fd : ℤ) : Option Server :=
  if s.opened fd then none
  else some { s with
    opened := Function.update s.opened fd true
    socket := Function.update s.socket fd ⟨[], [], []⟩ }

/-- **A `recv` executes**: the buffer is filled with what comes next on the
connection, or, at its end, with nothing. -/
def recv (s : Server) (fd : ℤ) (len n : ℕ) : Option Server :=
  let c := s.socket fd
  if s.opened fd ∧ n ≤ len ∧ n ≤ c.unread.length then
    some { s with
      buffer := c.unread.take n ++ s.buffer.drop n
      socket := Function.update s.socket fd
        { c with read := c.read ++ c.unread.take n, unread := c.unread.drop n } }
  else none

/-- **A `send` executes**: what is in the buffer is transmitted, and not always all
that is asked for. -/
def send (s : Server) (fd : ℤ) (len n : ℕ) : Option Server :=
  let c := s.socket fd
  if s.opened fd ∧ n ≤ len then
    some { s with
      socket := Function.update s.socket fd { c with received := c.received ++ s.buffer.take n } }
  else none

/-- An operation in flight is one that has executed. -/
def finish (s : Server) (i : ℕ) (cqe : Cqe) : Server :=
  { s with flight := s.flight.eraseIdx i, executed := s.executed ++ [cqe] }

/-- **An operation in flight executes**, or fails, with a result. -/
def execute (s : Server) (i : ℕ) (res : ℤ) : Option Server := do
  let sqe ← s.flight[i]?
  let s := s.finish i ⟨sqe.info, res⟩
  if res < 0 then some s
  else match sqe.info.event with
    | .accept => s.accept res
    | .recv => s.recv sqe.info.fd sqe.len res.toNat
    | .send => s.send sqe.info.fd sqe.len res.toNat

/-- The completion of an operation is posted. -/
def complete (s : Server) (i : ℕ) : Option Server := do
  let cqe ← s.executed[i]?
  return { s with executed := s.executed.eraseIdx i, cq := s.cq ++ [cqe] }

/-- A client sends something on a connection. -/
def write (s : Server) (fd : ℤ) (bytes : List UInt8) : Server :=
  let c := s.socket fd
  { s with socket := Function.update s.socket fd { c with unread := c.unread ++ bytes } }

/-- **What can happen.** -/
inductive Input where
  | write (fd : ℤ) (bytes : List UInt8)
  | execute (i : ℕ) (res : ℤ)
  | complete (i : ℕ)
  | turn

/-- **The server and the kernel as a machine**; its log is of the completions the
server has taken. -/
def machine : Machine Server Input (List Cqe)
  | s, .write fd bytes => some ([], s.write fd bytes)
  | s, .execute i res => (s.execute i res).map (fun s => ([], s))
  | s, .complete i => (s.complete i).map (fun s => ([], s))
  | s, .turn => s.turn

/-- **The server as `main` starts it**: an accept is submitted. -/
def start (sockfd : ℕ) : Server where
  buffer := List.replicate BUFFER_LENGTH 0
  sq := []
  flight := [⟨⟨sockfd, .accept⟩, 0⟩]
  executed := []
  cq := []
  opened := fun fd => fd = sockfd
  socket := fun _ => ⟨[], [], []⟩

/-! ## The shares of the buffer -/

/-- The shares there are while some completions are still to be handled. -/
def sharesWith (s : Server) (cqes : List Cqe) : List (ℤ × ℕ) :=
  (s.sq ++ s.flight).filterMap Sqe.share ++ cqes.map Cqe.share

/-- **The shares of the buffer**: who has bytes in it that a `recv` has put there
and no `send` has transmitted, and how many. -/
def shares (s : Server) : List (ℤ × ℕ) := s.sharesWith (s.executed ++ s.cq)

/-- **Every client gets back what it sent**: what it received is the start of what
it sent, and all that was read of it where nothing of it is in the buffer. -/
def Echoes (s : Server) : Prop :=
  ∀ fd, (s.socket fd).received <+: (s.socket fd).sent
    ∧ ((∀ n, (fd, n) ∈ s.shares → n = 0) → (s.socket fd).received = (s.socket fd).read)

/-- **An operation spares the shares** when it executes: a `recv` leaves in the
buffer what is a client's share, and a `send` transmits all it was given. -/
def SparedBy (s : Server) (sqe : Sqe) (res : ℤ) : Prop :=
  (sqe.info.event = .recv → ∀ p ∈ s.shares,
    ((s.socket sqe.info.fd).unread.take res.toNat ++ s.buffer.drop res.toNat).take p.2
      = s.buffer.take p.2)
  ∧ (sqe.info.event = .send → res = sqe.len)

instance (s : Server) (sqe : Sqe) (res : ℤ) : Decidable (s.SparedBy sqe res) :=
  inferInstanceAs (Decidable (_ ∧ _))

/-- A step spares the shares of the buffer. -/
def Spared (s : Server) : Input → Prop
  | .execute i res => ∀ sqe ∈ s.flight[i]?, s.SparedBy sqe res
  | _ => True

instance (s : Server) (i : Input) : Decidable (s.Spared i) :=
  match i with
  | .execute i res => inferInstanceAs (Decidable (∀ sqe ∈ s.flight[i]?, s.SparedBy sqe res))
  | .write _ _ => .isTrue trivial
  | .complete _ => .isTrue trivial
  | .turn => .isTrue trivial

/-! ## The invariant -/

/-- **What holds while some completions are still to be handled**: an open
connection has one share at most, and what is in it is what the client has
not got back of what was read. -/
structure Inv (s : Server) (cqes : List Cqe) : Prop where
  length_buffer : s.buffer.length = BUFFER_LENGTH
  length_recv : ∀ sqe ∈ s.sq ++ s.flight, sqe.info.event = .recv → sqe.len ≤ BUFFER_LENGTH
  nonneg : ∀ fd, s.opened fd → 0 ≤ fd
  single : ∀ fd, 0 ≤ fd →
    ((s.sharesWith cqes).map Prod.fst).count fd ≤ if s.opened fd then 1 else 0
  held : ∀ p ∈ s.sharesWith cqes, p.2 ≤ BUFFER_LENGTH
    ∧ (s.socket p.1).read = (s.socket p.1).received ++ s.buffer.take p.2
  settled : ∀ fd, (∀ p ∈ s.sharesWith cqes, p.1 ≠ fd) →
    (s.socket fd).received = (s.socket fd).read
  unused : ∀ fd < 0, (s.socket fd).read = [] ∧ (s.socket fd).received = []

variable {s t : Server} {cqes : List Cqe} {cqe : Cqe} {sqe : Sqe} {fd : ℤ} {n : ℕ} {i : Input}

/-- Only the shares matter, and not where they are. -/
theorem Inv.of_perm {cqes' : List Cqe} (h : s.Inv cqes)
    (hshares : (t.sharesWith cqes').Perm (s.sharesWith cqes)) (hbuffer : t.buffer = s.buffer)
    (hrecv : ∀ sqe ∈ t.sq ++ t.flight, sqe.info.event = .recv → sqe.len ≤ BUFFER_LENGTH)
    (hopened : t.opened = s.opened) (hsocket : t.socket = s.socket) : t.Inv cqes' := by
  refine ⟨hbuffer ▸ h.length_buffer, hrecv, hopened ▸ h.nonneg,
    fun fd hfd => ?_, fun p hp => ?_, fun fd hfd => ?_, hsocket ▸ h.unused⟩
  · rw [(hshares.map Prod.fst).count_eq, hopened]
    exact h.single fd hfd
  · rw [hsocket, hbuffer]
    exact h.held p (hshares.mem_iff.mp hp)
  · rw [hsocket]
    exact h.settled fd (fun p hp => hfd p (hshares.mem_iff.mpr hp))

/-- A connection that has a share has no other. -/
theorem Inv.ne_of_cons (h : s.Inv cqes) {m : ℕ} {rest : List (ℤ × ℕ)}
    (hshares : (s.sharesWith cqes).Perm ((fd, m) :: rest)) (hfd : 0 ≤ fd) :
    s.opened fd = true ∧ ∀ p ∈ rest, p.1 ≠ fd := by
  have hcount := h.single fd hfd
  rw [(hshares.map Prod.fst).count_eq, List.map_cons, List.count_cons_self] at hcount
  have hopen : s.opened fd = true := by
    by_contra hclosed
    rw [if_neg hclosed] at hcount
    omega
  rw [if_pos hopen] at hcount
  have hnone : (rest.map Prod.fst).count fd = 0 := by omega
  exact ⟨hopen, fun p hp he =>
    List.count_eq_zero.mp hnone (he ▸ List.mem_map_of_mem hp)⟩

/-- **One share changes** with the connection it belongs to, and what the other
shares hold stays in the buffer. -/
theorem Inv.change {cqes' : List Cqe} (h : s.Inv cqes) {m m' : ℕ} {rest : List (ℤ × ℕ)}
    (hfd : 0 ≤ fd) (hshares : (s.sharesWith cqes).Perm ((fd, m) :: rest))
    (hshares' : (t.sharesWith cqes').Perm ((fd, m') :: rest))
    (hlength : t.buffer.length = BUFFER_LENGTH)
    (hrecv : ∀ sqe ∈ t.sq ++ t.flight, sqe.info.event = .recv → sqe.len ≤ BUFFER_LENGTH)
    (hopened : t.opened = s.opened) (hsocket : ∀ fd', fd' ≠ fd → t.socket fd' = s.socket fd')
    (hbuffer : ∀ p ∈ rest, t.buffer.take p.2 = s.buffer.take p.2) (hm' : m' ≤ BUFFER_LENGTH)
    (hheld : (t.socket fd).read = (t.socket fd).received ++ t.buffer.take m') : t.Inv cqes' := by
  obtain ⟨_, hne⟩ := h.ne_of_cons hshares hfd
  refine ⟨hlength, hrecv, hopened ▸ h.nonneg,
    fun fd' hfd' => ?_, fun p hp => ?_, fun fd' hfd' => ?_, fun fd' hfd' => ?_⟩
  · rw [(hshares'.map Prod.fst).count_eq, hopened]
    have hcount := h.single fd' hfd'
    rw [(hshares.map Prod.fst).count_eq] at hcount
    exact hcount
  · rcases List.mem_cons.mp (hshares'.mem_iff.mp hp) with rfl | hp
    · exact ⟨hm', hheld⟩
    · rw [hsocket p.1 (hne p hp), hbuffer p hp]
      exact h.held p (hshares.mem_iff.mpr (List.mem_cons_of_mem _ hp))
  · have hother : fd' ≠ fd := fun he =>
      hfd' (fd, m') (hshares'.mem_iff.mpr List.mem_cons_self) he.symm
    rw [hsocket fd' hother]
    refine h.settled fd' (fun p hp => ?_)
    rcases List.mem_cons.mp (hshares.mem_iff.mp hp) with rfl | hp
    · exact hother.symm
    · exact hfd' p (hshares'.mem_iff.mpr (List.mem_cons_of_mem _ hp))
  · rw [hsocket fd' (by omega)]
    exact h.unused fd' hfd'

/-- **A share is given up**, and its connection may be closed. -/
theorem Inv.drop {cqes' : List Cqe} (h : s.Inv cqes)
    (hshares : (s.sharesWith cqes).Perm ((fd, 0) :: t.sharesWith cqes'))
    (hbuffer : t.buffer = s.buffer)
    (hrecv : ∀ sqe ∈ t.sq ++ t.flight, sqe.info.event = .recv → sqe.len ≤ BUFFER_LENGTH)
    (hopened : t.opened = s.opened ∨ t.opened = Function.update s.opened fd false)
    (hsocket : t.socket = s.socket) : t.Inv cqes' := by
  have hcount : ∀ fd', ((s.sharesWith cqes).map Prod.fst).count fd'
      = ((t.sharesWith cqes').map Prod.fst).count fd' + if fd = fd' then 1 else 0 := by
    intro fd'
    rw [(hshares.map Prod.fst).count_eq, List.map_cons, List.count_cons]
    simp
  refine ⟨hbuffer ▸ h.length_buffer, hrecv, fun fd' hfd' => ?_, fun fd' hfd' => ?_, fun p hp => ?_,
    fun fd' hfd' => ?_, hsocket ▸ h.unused⟩
  · rcases hopened with hopened | hopened
    · exact h.nonneg fd' (hopened ▸ hfd')
    · rw [hopened] at hfd'
      by_cases he : fd' = fd
      · rw [he, Function.update_self] at hfd'
        cases hfd'
      · rw [Function.update_of_ne he] at hfd'
        exact h.nonneg fd' hfd'
  · have hold := h.single fd' hfd'
    rw [hcount fd'] at hold
    rcases hopened with hopened | hopened
    · rw [hopened]
      omega
    · rw [hopened]
      by_cases he : fd' = fd
      · rw [if_pos he.symm] at hold
        split at hold <;> omega
      · rw [Function.update_of_ne he]
        omega
  · rw [hsocket, hbuffer]
    exact h.held p (hshares.mem_iff.mpr (List.mem_cons_of_mem _ hp))
  · rw [hsocket]
    by_cases he : fd' = fd
    · have hread := (h.held (fd, 0) (hshares.mem_iff.mpr List.mem_cons_self)).2
      rw [List.take_zero, List.append_nil] at hread
      rw [he]
      exact hread.symm
    · refine h.settled fd' (fun p hp => ?_)
      rcases List.mem_cons.mp (hshares.mem_iff.mp hp) with rfl | hp
      · exact fun h' => he h'.symm
      · exact hfd' p hp

/-- **A connection is opened**, and gets a share. -/
theorem Inv.opens {cqes' : List Cqe} (h : s.Inv cqes) (hfd : 0 ≤ fd) (hclosed : ¬ s.opened fd)
    (hshares : (t.sharesWith cqes').Perm ((fd, 0) :: s.sharesWith cqes))
    (hbuffer : t.buffer = s.buffer)
    (hrecv : ∀ sqe ∈ t.sq ++ t.flight, sqe.info.event = .recv → sqe.len ≤ BUFFER_LENGTH)
    (hopened : t.opened = Function.update s.opened fd true)
    (hsocket : t.socket = Function.update s.socket fd ⟨[], [], []⟩) : t.Inv cqes' := by
  have hcount := h.single fd hfd
  rw [if_neg hclosed] at hcount
  have hne : ∀ p ∈ s.sharesWith cqes, p.1 ≠ fd := fun p hp he =>
    List.count_eq_zero.mp (Nat.le_zero.mp hcount) (he ▸ List.mem_map_of_mem hp)
  refine ⟨hbuffer ▸ h.length_buffer, hrecv, fun fd' hfd' => ?_, fun fd' hfd' => ?_,
    fun p hp => ?_, fun fd' hfd' => ?_, fun fd' hfd' => ?_⟩
  · by_cases he : fd' = fd
    · exact he ▸ hfd
    · rw [hopened, Function.update_of_ne he] at hfd'
      exact h.nonneg fd' hfd'
  · rw [(hshares.map Prod.fst).count_eq, List.map_cons, List.count_cons, hopened]
    by_cases he : fd' = fd
    · rw [he, Function.update_self]
      simp only [beq_self_eq_true, ↓reduceIte]
      omega
    · rw [Function.update_of_ne he, if_neg (by simpa using Ne.symm he)]
      exact h.single fd' hfd'
  · rcases List.mem_cons.mp (hshares.mem_iff.mp hp) with rfl | hp
    · rw [hsocket, Function.update_self, List.take_zero]
      exact ⟨Nat.zero_le _, rfl⟩
    · rw [hsocket, Function.update_of_ne (hne p hp), hbuffer]
      exact h.held p hp
  · have hother : fd' ≠ fd := fun he =>
      hfd' (fd, 0) (hshares.mem_iff.mpr List.mem_cons_self) he.symm
    rw [hsocket, Function.update_of_ne hother]
    exact h.settled fd' (fun p hp => hfd' p (hshares.mem_iff.mpr (List.mem_cons_of_mem _ hp)))
  · rw [hsocket, Function.update_of_ne (by omega)]
    exact h.unused fd' hfd'

/-- What has failed is on no connection. -/
theorem Inv.fails {cqes' : List Cqe} (h : s.Inv cqes) (hfd : fd < 0)
    (hshares : (t.sharesWith cqes').Perm ((fd, 0) :: s.sharesWith cqes))
    (hbuffer : t.buffer = s.buffer)
    (hrecv : ∀ sqe ∈ t.sq ++ t.flight, sqe.info.event = .recv → sqe.len ≤ BUFFER_LENGTH)
    (hopened : t.opened = s.opened) (hsocket : t.socket = s.socket) : t.Inv cqes' := by
  refine ⟨hbuffer ▸ h.length_buffer, hrecv, hopened ▸ h.nonneg, fun fd' hfd' => ?_,
    fun p hp => ?_, fun fd' hfd' => ?_, hsocket ▸ h.unused⟩
  · have hother : fd ≠ fd' := by omega
    rw [(hshares.map Prod.fst).count_eq, List.map_cons, List.count_cons, hopened,
      if_neg (by simpa using hother)]
    exact h.single fd' hfd'
  · rw [hsocket, hbuffer]
    rcases List.mem_cons.mp (hshares.mem_iff.mp hp) with rfl | hp
    · obtain ⟨hread, hreceived⟩ := h.unused fd hfd
      rw [hread, hreceived]
      exact ⟨Nat.zero_le _, rfl⟩
    · exact h.held p hp
  · rw [hsocket]
    exact h.settled fd' (fun p hp => hfd' p (hshares.mem_iff.mpr (List.mem_cons_of_mem _ hp)))

/-! ## What the server does -/

theorem eq_of_prepare (h : s.prepare sqe = some t) : t = { s with sq := s.sq ++ [sqe] } := by
  unfold prepare at h
  split at h
  · exact (Option.some.inj h).symm
  · cases h

theorem filterMap_singleton (sqe : Sqe) : [sqe].filterMap Sqe.share = sqe.share.toList := by
  cases h : sqe.share with
  | none => rw [List.filterMap_cons_none h, List.filterMap_nil, Option.toList_none]
  | some p => rw [List.filterMap_cons_some h, List.filterMap_nil, Option.toList_some]

/-- A submission brings its share. -/
theorem sharesWith_concat (s : Server) (sqe : Sqe) (cqes : List Cqe) :
    ({ s with sq := s.sq ++ [sqe] }.sharesWith cqes).Perm
      (sqe.share.toList ++ s.sharesWith cqes) := by
  unfold sharesWith
  simp only [List.filterMap_append, filterMap_singleton, List.append_assoc]
  exact List.perm_append_comm_assoc _ _ _

/-- A completion holds its share until it is handled. -/
theorem sharesWith_cons (s : Server) (cqe : Cqe) (cqes : List Cqe) :
    (s.sharesWith (cqe :: cqes)).Perm (cqe.share :: s.sharesWith cqes) := by
  unfold sharesWith
  rw [List.map_cons]
  exact List.perm_middle

theorem Inv.length_concat (h : s.Inv cqes)
    (hlen : sqe.info.event = .recv → sqe.len ≤ BUFFER_LENGTH) :
    ∀ sqe' ∈ (s.sq ++ [sqe]) ++ s.flight, sqe'.info.event = .recv → sqe'.len ≤ BUFFER_LENGTH := by
  intro sqe' hsqe' he
  rcases List.mem_append.mp hsqe' with hsqe' | hsqe'
  · rcases List.mem_append.mp hsqe' with hsqe' | hsqe'
    · exact h.length_recv sqe' (List.mem_append_left _ hsqe') he
    · rw [List.mem_singleton.mp hsqe'] at he ⊢
      exact hlen he
  · exact h.length_recv sqe' (List.mem_append_right _ hsqe') he

/-- **A submission takes over the share** of the completion it answers. -/
theorem Inv.prepared (h : s.Inv (cqe :: cqes)) (hprep : s.prepare sqe = some t)
    (hshare : sqe.share = some cqe.share)
    (hlen : sqe.info.event = .recv → sqe.len ≤ BUFFER_LENGTH) : t.Inv cqes := by
  obtain rfl := eq_of_prepare hprep
  have hshares := sharesWith_concat s sqe cqes
  rw [hshare, Option.toList_some] at hshares
  exact h.of_perm (hshares.trans (sharesWith_cons s cqe cqes).symm) rfl (h.length_concat hlen) rfl rfl

/-- A submission that holds no share changes nothing. -/
theorem Inv.prepared_none (h : s.Inv cqes) (hprep : s.prepare sqe = some t)
    (hshare : sqe.share = none)
    (hlen : sqe.info.event = .recv → sqe.len ≤ BUFFER_LENGTH) : t.Inv cqes := by
  obtain rfl := eq_of_prepare hprep
  have hshares := sharesWith_concat s sqe cqes
  rw [hshare, Option.toList_none, List.nil_append] at hshares
  exact h.of_perm hshares rfl (h.length_concat hlen) rfl rfl

/-- **A completion is handled.** -/
theorem Inv.handle (h : s.Inv (cqe :: cqes)) (hstep : s.handle cqe = some t) : t.Inv cqes := by
  obtain ⟨⟨fd, event⟩, res⟩ := cqe
  cases event with
  | accept =>
    obtain ⟨s', haccept, hrecv⟩ := Option.bind_eq_some_iff.mp hstep
    have h' : s'.Inv (⟨⟨fd, .accept⟩, res⟩ :: cqes) := h.prepared_none haccept rfl (by simp)
    exact h'.prepared hrecv rfl (fun _ => le_refl _)
  | recv =>
    have hshares := sharesWith_cons s ⟨⟨fd, .recv⟩, res⟩ cqes
    change (if res = 0 then _ else if 0 < res then _ else _) = _ at hstep
    split at hstep
    · next hzero =>
      subst hzero
      obtain rfl := Option.some.inj hstep
      exact h.drop hshares rfl h.length_recv (.inr rfl) rfl
    · split at hstep
      · exact h.prepared hstep rfl (by simp)
      · next hneg =>
        obtain rfl := Option.some.inj hstep
        have hres : res.toNat = 0 := Int.toNat_of_nonpos (by omega)
        unfold Cqe.share at hshares
        rw [hres] at hshares
        exact h.drop hshares rfl h.length_recv (.inl rfl) rfl
  | send => exact h.prepared hstep rfl (fun _ => le_refl _)

/-- What the server does with a completion leaves the other completions alone. -/
theorem cq_of_handle (hstep : s.handle cqe = some t) : t.cq = s.cq ∧ t.executed = s.executed := by
  have hprepare : ∀ {s t : Server} {sqe : Sqe}, s.prepare sqe = some t →
      t.cq = s.cq ∧ t.executed = s.executed := by
    intro s t sqe h
    obtain rfl := eq_of_prepare h
    exact ⟨rfl, rfl⟩
  obtain ⟨⟨fd, event⟩, res⟩ := cqe
  cases event with
  | accept =>
    obtain ⟨s', haccept, hrecv⟩ := Option.bind_eq_some_iff.mp hstep
    obtain ⟨hcq, hexecuted⟩ := hprepare haccept
    exact hcq ▸ hexecuted ▸ hprepare hrecv
  | recv =>
    change (if res = 0 then _ else if 0 < res then _ else _) = _ at hstep
    split at hstep
    · obtain rfl := Option.some.inj hstep
      exact ⟨rfl, rfl⟩
    · split at hstep
      · exact hprepare hstep
      · obtain rfl := Option.some.inj hstep
        exact ⟨rfl, rfl⟩
  | send => exact hprepare hstep

/-- Completions are handled one after another. -/
theorem Inv.handleAll {batch : List Cqe} (h : s.Inv (batch ++ cqes))
    (hrun : batch.foldlM Server.handle s = some t) :
    t.Inv cqes ∧ t.cq = s.cq ∧ t.executed = s.executed := by
  induction batch generalizing s with
  | nil =>
    obtain rfl := Option.some.inj hrun
    exact ⟨h, rfl, rfl⟩
  | cons cqe batch ih =>
    rw [List.foldlM_cons] at hrun
    obtain ⟨u, hstep, hrest⟩ := Option.bind_eq_some_iff.mp hrun
    obtain ⟨hcq, hexecuted⟩ := cq_of_handle hstep
    exact hcq ▸ hexecuted ▸ ih (h.handle hstep) hrest

theorem Inv.submit (h : s.Inv cqes) : s.submit.Inv cqes := by
  have hmem : s.flight ++ s.sq ~ s.sq ++ s.flight := List.perm_append_comm
  refine h.of_perm ?_ rfl (fun sqe hsqe => ?_) rfl rfl
  · exact (hmem.filterMap Sqe.share).append_right (cqes.map Cqe.share)
  · exact h.length_recv sqe (hmem.mem_iff.mp hsqe)

/-- **A turn of the loop.** -/
theorem Inv.turn {out : List Cqe} (h : s.Inv (s.executed ++ s.cq))
    (hstep : s.turn = some (out, t)) : t.Inv (t.executed ++ t.cq) := by
  unfold Server.turn at hstep
  split at hstep
  · cases hstep
  · obtain ⟨u, hrun, hret⟩ := Option.bind_eq_some_iff.mp hstep
    obtain ⟨rfl, rfl⟩ := Prod.mk.inj (Option.some.inj hret)
    have hsplit : s.cq.take 128 ++ (s.executed ++ s.cq.drop (s.cq.take 128).length)
        ~ s.executed ++ s.cq := by
      have hdrop : s.cq.take 128 ++ s.cq.drop (s.cq.take 128).length = s.cq := by
        rw [List.length_take]
        rcases Nat.le_total 128 s.cq.length with hle | hle
        · rw [Nat.min_eq_left hle, List.take_append_drop]
        · rw [Nat.min_eq_right hle, List.drop_length, List.append_nil, List.take_of_length_le hle]
      conv_rhs => rw [← hdrop]
      exact List.perm_append_comm_assoc _ _ _
    have hperm : s.Inv (s.cq.take 128 ++ (s.executed ++ s.cq.drop (s.cq.take 128).length)) :=
      h.of_perm ((hsplit.map Cqe.share).append_left _) rfl h.length_recv rfl rfl
    obtain ⟨hu, hcq, hexecuted⟩ := hperm.handleAll hrun
    have hsub := hu.submit
    show Inv _ (u.executed ++ u.cq.drop _)
    rw [hcq, hexecuted]
    exact hsub.of_perm (List.Perm.refl _) rfl hsub.length_recv rfl rfl

/-! ## What the kernel does -/

/-- The shares but for that of an operation in flight. -/
def sharesBut (s : Server) (i : ℕ) : List (ℤ × ℕ) :=
  { s with flight := s.flight.eraseIdx i }.sharesWith (s.executed ++ s.cq)

theorem shares_eq_cons {i : ℕ} (h : s.flight[i]? = some sqe) :
    s.shares ~ sqe.share.toList ++ s.sharesBut i := by
  have herase : sqe :: s.flight.eraseIdx i ~ s.flight := by
    obtain ⟨hi, rfl⟩ := List.getElem?_eq_some_iff.mp h
    exact List.getElem_cons_eraseIdx_perm hi
  have hmove : s.sq ++ s.flight ~ sqe :: (s.sq ++ s.flight.eraseIdx i) :=
    (herase.symm.append_left s.sq).trans List.perm_middle
  have hshares := (hmove.filterMap Sqe.share).append_right ((s.executed ++ s.cq).map Cqe.share)
  rw [← List.singleton_append, List.filterMap_append (l := [sqe]), filterMap_singleton,
    List.append_assoc] at hshares
  exact hshares

theorem shares_finish (s : Server) (i : ℕ) (cqe : Cqe) :
    (s.finish i cqe).shares ~ cqe.share :: s.sharesBut i := by
  have hmove : (s.executed ++ [cqe]) ++ s.cq ~ cqe :: (s.executed ++ s.cq) := by
    rw [List.append_assoc]
    exact List.perm_middle
  exact ((hmove.map Cqe.share).append_left _).trans List.perm_middle

theorem length_finish {i : ℕ} (h : s.Inv cqes) (cqe : Cqe) :
    ∀ sqe ∈ (s.finish i cqe).sq ++ (s.finish i cqe).flight,
      sqe.info.event = .recv → sqe.len ≤ BUFFER_LENGTH := by
  intro sqe hsqe
  refine h.length_recv sqe ?_
  rcases List.mem_append.mp hsqe with hsqe | hsqe
  · exact List.mem_append_left _ hsqe
  · exact List.mem_append_right _ (List.mem_of_mem_eraseIdx hsqe)

/-- **A connection is accepted.** -/
theorem Inv.accept {i : ℕ} {res : ℤ} (h : s.Inv (s.executed ++ s.cq))
    (hsqe : s.flight[i]? = some ⟨⟨fd, .accept⟩, n⟩) (hres : 0 ≤ res)
    (hstep : (s.finish i ⟨⟨fd, .accept⟩, res⟩).accept res = some t) :
    t.Inv (t.executed ++ t.cq) := by
  have hold : s.shares ~ s.sharesBut i := shares_eq_cons hsqe
  unfold Server.accept at hstep
  split at hstep
  · cases hstep
  · next hclosed =>
    obtain rfl := Option.some.inj hstep
    exact h.opens hres hclosed ((shares_finish s i ⟨⟨fd, .accept⟩, res⟩).trans (hold.symm.cons _))
      rfl (length_finish h ⟨⟨fd, .accept⟩, res⟩) rfl rfl

/-- **The buffer is filled.** -/
theorem Inv.recv {i : ℕ} {res : ℤ} (h : s.Inv (s.executed ++ s.cq))
    (hsqe : s.flight[i]? = some ⟨⟨fd, .recv⟩, n⟩) (hspared : s.SparedBy ⟨⟨fd, .recv⟩, n⟩ res)
    (hstep : (s.finish i ⟨⟨fd, .recv⟩, res⟩).recv fd n res.toNat = some t) :
    t.Inv (t.executed ++ t.cq) := by
  have hold : s.shares ~ (fd, 0) :: s.sharesBut i := shares_eq_cons hsqe
  unfold Server.recv at hstep
  dsimp only at hstep
  split at hstep
  · next hguard =>
    obtain ⟨hopen, hlen, hunread⟩ : s.opened fd ∧ res.toNat ≤ n
      ∧ res.toNat ≤ (s.socket fd).unread.length := hguard
    obtain rfl := Option.some.inj hstep
    have hn : n ≤ BUFFER_LENGTH := h.length_recv _
      (List.mem_append_right _ (List.mem_of_getElem? hsqe)) rfl
    have htake : ((s.socket fd).unread.take res.toNat).length = res.toNat := by
      rw [List.length_take, Nat.min_eq_left hunread]
    refine h.change (h.nonneg fd hopen) hold (shares_finish s i ⟨⟨fd, .recv⟩, res⟩) ?_
      (length_finish h ⟨⟨fd, .recv⟩, res⟩) rfl (fun fd' hne => Function.update_of_ne hne _ _)
      (fun p hp => hspared.1 rfl p (hold.mem_iff.mpr (List.mem_cons_of_mem _ hp)))
      (le_trans hlen hn) ?_
    · show ((s.socket fd).unread.take res.toNat ++ s.buffer.drop res.toNat).length = _
      rw [List.length_append, htake, List.length_drop, h.length_buffer]
      omega
    · have hread := (h.held (fd, 0) (hold.mem_iff.mpr List.mem_cons_self)).2
      rw [List.take_zero, List.append_nil] at hread
      show (Function.update s.socket fd _ fd).read = (Function.update s.socket fd _ fd).received
        ++ ((s.socket fd).unread.take res.toNat ++ s.buffer.drop res.toNat).take res.toNat
      rw [Function.update_self, List.take_left' htake]
      exact congrArg (· ++ (s.socket fd).unread.take res.toNat) hread
  · cases hstep

/-- **What is in the buffer is transmitted.** -/
theorem Inv.send {i : ℕ} {res : ℤ} (h : s.Inv (s.executed ++ s.cq))
    (hsqe : s.flight[i]? = some ⟨⟨fd, .send⟩, n⟩) (hspared : s.SparedBy ⟨⟨fd, .send⟩, n⟩ res)
    (hstep : (s.finish i ⟨⟨fd, .send⟩, res⟩).send fd n res.toNat = some t) :
    t.Inv (t.executed ++ t.cq) := by
  have hold : s.shares ~ (fd, n) :: s.sharesBut i := shares_eq_cons hsqe
  have hres : res.toNat = n := by
    rw [hspared.2 rfl]
    exact Int.toNat_natCast n
  unfold Server.send at hstep
  dsimp only at hstep
  split at hstep
  · next hguard =>
    have hopen : s.opened fd := hguard.1
    obtain rfl := Option.some.inj hstep
    refine h.change (h.nonneg fd hopen) hold (shares_finish s i ⟨⟨fd, .send⟩, res⟩)
      h.length_buffer (length_finish h ⟨⟨fd, .send⟩, res⟩) rfl
      (fun fd' hne => Function.update_of_ne hne _ _) (fun _ _ => rfl) (Nat.zero_le _) ?_
    have hread := (h.held (fd, n) (hold.mem_iff.mpr List.mem_cons_self)).2
    show (Function.update s.socket fd _ fd).read = (Function.update s.socket fd _ fd).received
      ++ s.buffer.take 0
    rw [Function.update_self, List.take_zero, List.append_nil, hres]
    exact hread
  · cases hstep

/-- **An operation executes.** -/
theorem Inv.execute {i : ℕ} {res : ℤ} (h : s.Inv (s.executed ++ s.cq))
    (hspared : s.Spared (.execute i res)) (hstep : s.execute i res = some t) :
    t.Inv (t.executed ++ t.cq) := by
  obtain ⟨⟨⟨fd, event⟩, n⟩, hsqe, hstep⟩ := Option.bind_eq_some_iff.mp hstep
  have hspared : s.SparedBy ⟨⟨fd, event⟩, n⟩ res := hspared _ hsqe
  have hold := shares_eq_cons hsqe
  have hnew := shares_finish s i ⟨⟨fd, event⟩, res⟩
  by_cases hneg : res < 0
  · rw [if_pos hneg] at hstep
    obtain rfl := Option.some.inj hstep
    have hlen := length_finish h ⟨⟨fd, event⟩, res⟩ (i := i)
    cases event with
    | accept => exact h.fails hneg (hnew.trans (hold.symm.cons _)) rfl hlen rfl rfl
    | recv =>
      have hzero : res.toNat = 0 := Int.toNat_of_nonpos (le_of_lt hneg)
      rw [show (⟨⟨fd, .recv⟩, res⟩ : Cqe).share = (fd, 0) from Prod.ext rfl hzero] at hnew
      exact h.of_perm (hnew.trans hold.symm) rfl hlen rfl rfl
    | send =>
      have hres := hspared.2 rfl
      omega
  · rw [if_neg hneg] at hstep
    cases event with
    | accept => exact h.accept hsqe (not_lt.mp hneg) hstep
    | recv => exact h.recv hsqe hspared hstep
    | send => exact h.send hsqe hspared hstep

/-- **A completion is posted.** -/
theorem Inv.complete {i : ℕ} (h : s.Inv (s.executed ++ s.cq)) (hstep : s.complete i = some t) :
    t.Inv (t.executed ++ t.cq) := by
  obtain ⟨cqe, hcqe, hret⟩ := Option.bind_eq_some_iff.mp hstep
  obtain rfl := Option.some.inj hret
  have herase : cqe :: s.executed.eraseIdx i ~ s.executed := by
    obtain ⟨hi, rfl⟩ := List.getElem?_eq_some_iff.mp hcqe
    exact List.getElem_cons_eraseIdx_perm hi
  have hmove : s.executed.eraseIdx i ++ (s.cq ++ [cqe]) ~ s.executed ++ s.cq := by
    rw [← List.append_assoc]
    exact (List.perm_append_singleton cqe _).trans (herase.append_right s.cq)
  exact h.of_perm ((hmove.map Cqe.share).append_left _) rfl h.length_recv rfl rfl

/-- **A client sends.** -/
theorem Inv.write (h : s.Inv cqes) (fd : ℤ) (bytes : List UInt8) :
    (s.write fd bytes).Inv cqes := by
  have hsocket : ∀ fd', ((s.write fd bytes).socket fd').read = (s.socket fd').read
      ∧ ((s.write fd bytes).socket fd').received = (s.socket fd').received := by
    intro fd'
    show (Function.update s.socket fd _ fd').read = _
      ∧ (Function.update s.socket fd _ fd').received = _
    by_cases he : fd' = fd
    · rw [he, Function.update_self]
      exact ⟨rfl, rfl⟩
    · rw [Function.update_of_ne he]
      exact ⟨rfl, rfl⟩
  refine ⟨h.length_buffer, h.length_recv, h.nonneg, h.single, fun p hp => ?_, fun fd' hfd' => ?_,
    fun fd' hfd' => ?_⟩
  · rw [(hsocket p.1).1, (hsocket p.1).2]
    exact h.held p hp
  · rw [(hsocket fd').1, (hsocket fd').2]
    exact h.settled fd' hfd'
  · rw [(hsocket fd').1, (hsocket fd').2]
    exact h.unused fd' hfd'

/-- **A step keeps the invariant**, if it spares the shares. -/
theorem Inv.step {out : List Cqe} (h : s.Inv (s.executed ++ s.cq)) (hspared : s.Spared i)
    (hstep : machine s i = some (out, t)) : t.Inv (t.executed ++ t.cq) := by
  cases i with
  | write fd bytes =>
    obtain ⟨-, rfl⟩ := Prod.mk.inj (Option.some.inj hstep)
    exact h.write fd bytes
  | execute i res =>
    obtain ⟨u, hu, he⟩ := Option.map_eq_some_iff.mp hstep
    obtain ⟨-, rfl⟩ := Prod.mk.inj he
    exact h.execute hspared hu
  | complete i =>
    obtain ⟨u, hu, he⟩ := Option.map_eq_some_iff.mp hstep
    obtain ⟨-, rfl⟩ := Prod.mk.inj he
    exact h.complete hu
  | turn => exact h.turn hstep

theorem Inv.start (sockfd : ℕ) : (start sockfd).Inv [] where
  length_buffer := List.length_replicate
  length_recv := by
    intro sqe hsqe he
    rw [List.mem_singleton.mp hsqe] at he
    cases he
  nonneg := by
    intro fd hfd
    have hfd : fd = sockfd := of_decide_eq_true hfd
    omega
  single := fun _ _ => Nat.zero_le _
  held := fun p hp => absurd hp List.not_mem_nil
  settled := fun _ _ => rfl
  unused := fun _ _ => ⟨rfl, rfl⟩

/-- What the invariant says of the clients. -/
theorem Inv.echoes (h : s.Inv (s.executed ++ s.cq)) : s.Echoes := by
  intro fd
  by_cases hshare : ∃ p ∈ s.shares, p.1 = fd
  · obtain ⟨⟨fd, n⟩, hp, rfl⟩ := hshare
    have hread := (h.held (fd, n) hp).2
    refine ⟨?_, fun hnone => ?_⟩
    · unfold Socket.sent
      rw [hread, List.append_assoc]
      exact List.prefix_append _ _
    · rw [hnone n hp, List.take_zero, List.append_nil] at hread
      exact hread.symm
  · have hsettled := h.settled fd (fun p hp he => hshare ⟨p, hp, he⟩)
    refine ⟨?_, fun _ => hsettled⟩
    unfold Socket.sent
    rw [hsettled]
    exact List.prefix_append _ _

/-! ## The submission queue -/

theorem exists_prepare (h : s.sq.length < ENTRIES_LENGTH) (sqe : Sqe) :
    ∃ t, s.prepare sqe = some t ∧ t.sq.length = s.sq.length + 1 :=
  ⟨_, if_pos h, List.length_append⟩

/-- A completion takes two entries of the submission queue at most. -/
theorem exists_handle (h : s.sq.length + 2 ≤ ENTRIES_LENGTH) (cqe : Cqe) :
    ∃ t, s.handle cqe = some t ∧ t.sq.length ≤ s.sq.length + 2 := by
  obtain ⟨⟨fd, event⟩, res⟩ := cqe
  cases event with
  | accept =>
    obtain ⟨s', haccept, hlen⟩ := s.exists_prepare (by omega) ⟨⟨fd, .accept⟩, 0⟩
    obtain ⟨t, hrecv, hlen'⟩ := s'.exists_prepare (by omega) ⟨⟨res, .recv⟩, BUFFER_LENGTH⟩
    exact ⟨t, Option.bind_eq_some_iff.mpr ⟨s', haccept, hrecv⟩, by omega⟩
  | recv =>
    show ∃ t, (if res = 0 then _ else if 0 < res then _ else _) = _ ∧ _
    split
    · exact ⟨_, rfl, Nat.le_add_right _ 2⟩
    · split
      · obtain ⟨t, ht, hlen⟩ := s.exists_prepare (by omega) ⟨⟨fd, .send⟩, res.toNat⟩
        exact ⟨t, ht, by omega⟩
      · exact ⟨s, rfl, Nat.le_add_right _ 2⟩
  | send =>
    obtain ⟨t, ht, hlen⟩ := s.exists_prepare (by omega) ⟨⟨fd, .recv⟩, BUFFER_LENGTH⟩
    exact ⟨t, ht, by omega⟩

theorem exists_handleAll (h : s.sq.length + 2 * cqes.length ≤ ENTRIES_LENGTH) :
    ∃ t, cqes.foldlM handle s = some t := by
  induction cqes generalizing s with
  | nil => exact ⟨s, rfl⟩
  | cons cqe cqes ih =>
    rw [List.length_cons] at h
    obtain ⟨u, hu, hlen⟩ := s.exists_handle (by omega) cqe
    obtain ⟨t, ht⟩ := ih (s := u) (by omega)
    exact ⟨t, by rw [List.foldlM_cons]; exact Option.bind_eq_some_iff.mpr ⟨u, hu, ht⟩⟩

theorem sq_of_execute {i : ℕ} {res : ℤ} (hstep : s.execute i res = some t) : t.sq = s.sq := by
  obtain ⟨⟨⟨fd, event⟩, n⟩, -, hstep⟩ := Option.bind_eq_some_iff.mp hstep
  by_cases hneg : res < 0
  · rw [if_pos hneg] at hstep
    exact Option.some.inj hstep ▸ rfl
  · rw [if_neg hneg] at hstep
    cases event with
    | accept =>
      change (if _ then none else some _) = some t at hstep
      split at hstep
      · cases hstep
      · exact Option.some.inj hstep ▸ rfl
    | recv =>
      change (if _ then some _ else none) = some t at hstep
      split at hstep
      · exact Option.some.inj hstep ▸ rfl
      · cases hstep
    | send =>
      change (if _ then some _ else none) = some t at hstep
      split at hstep
      · exact Option.some.inj hstep ▸ rfl
      · cases hstep

/-- What is prepared is submitted in the same turn. -/
theorem sq_of_step {out : List Cqe} (h : s.sq = []) (hstep : machine s i = some (out, t)) :
    t.sq = [] := by
  cases i with
  | write fd bytes =>
    obtain ⟨-, rfl⟩ := Prod.mk.inj (Option.some.inj hstep)
    exact h
  | execute i res =>
    obtain ⟨u, hu, he⟩ := Option.map_eq_some_iff.mp hstep
    obtain ⟨-, rfl⟩ := Prod.mk.inj he
    exact (sq_of_execute hu).trans h
  | complete i =>
    obtain ⟨u, hu, he⟩ := Option.map_eq_some_iff.mp hstep
    obtain ⟨-, rfl⟩ := Prod.mk.inj he
    obtain ⟨cqe, -, hret⟩ := Option.bind_eq_some_iff.mp hu
    obtain rfl := Option.some.inj hret
    exact h
  | turn =>
    change s.turn = _ at hstep
    unfold turn at hstep
    split at hstep
    · cases hstep
    · obtain ⟨u, -, hret⟩ := Option.bind_eq_some_iff.mp hstep
      obtain ⟨-, rfl⟩ := Prod.mk.inj (Option.some.inj hret)
      rfl

/-- **The submission queue is never full** when an entry is asked for: with a
completion to take, the loop of `main` comes round. -/
theorem exists_turn {sockfd : ℕ} {log : List Cqe} {P : Server → Input → Prop}
    (hreach : machine.Reach P (start sockfd) log s) (hcq : s.cq ≠ []) :
    ∃ r, s.turn = some r := by
  have hsq : s.sq = [] := Machine.Reach.invariant (I := fun _ s => s.sq = []) rfl
    (fun h _ hstep => sq_of_step h hstep) hreach
  have hlen : (s.cq.take 128).length ≤ 128 := by
    rw [List.length_take]
    exact Nat.min_le_left _ _
  have hroom : s.sq.length + 2 * (s.cq.take 128).length ≤ ENTRIES_LENGTH := by
    rw [hsq, List.length_nil, ENTRIES_LENGTH]
    omega
  obtain ⟨t, ht⟩ := exists_handleAll hroom
  unfold turn
  rw [if_neg hcq]
  exact ⟨_, Option.bind_eq_some_iff.mpr ⟨t, ht, rfl⟩⟩

/-! ## The clients -/

/-- **Clients get back what they sent**, in every state of a run whose steps spare
the shares of the buffer. -/
theorem echoes_of_spared {sockfd : ℕ} {log : List Cqe}
    (hreach : machine.Reach Spared (start sockfd) log s) : s.Echoes := by
  have hinv : s.Inv (s.executed ++ s.cq) := Machine.Reach.invariant
    (I := fun _ s => Inv s (s.executed ++ s.cq)) (Inv.start sockfd)
    (fun h hspared hstep => h.step hspared hstep) hreach
  exact hinv.echoes

/-- A client that connects, sends two bytes and gets them back. -/
def oneClient : List Input :=
  [.execute 0 4, .complete 0, .turn, .write 4 [104, 105], .execute 1 2, .complete 0, .turn,
    .execute 1 2]

theorem echoes_of_spared_one : ∃ log s, machine.Reach Spared (start 3) log s
    ∧ (s.socket 4).received = [104, 105] ∧ s.Echoes := by
  obtain ⟨outs, s, hrun, hreceived⟩ : ∃ outs s,
      (machine.guard Spared).run (start 3) oneClient = some (outs, s)
        ∧ (s.socket 4).received = [104, 105] := ⟨_, _, rfl, rfl⟩
  have hreach := Machine.Reach.of_run_guard hrun
  exact ⟨_, s, hreach, hreceived, echoes_of_spared hreach⟩

/-- Two clients that send a byte each, and the second `recv` executes before the
first `send` does. -/
def twoClients : List Input :=
  [.execute 0 4, .complete 0, .turn, .execute 0 5, .complete 0, .turn, .write 4 [97],
    .write 5 [98], .execute 0 1, .execute 1 1, .complete 0, .complete 0, .turn, .execute 1 1,
    .execute 1 1]

/-- **The first client gets the second client's byte.** -/
theorem not_echoes : ¬ ∀ (sockfd : ℕ) (log : List Cqe) (s : Server),
    machine.Reach (fun _ _ => True) (start sockfd) log s → s.Echoes := by
  intro hall
  obtain ⟨outs, s, hrun, hsocket⟩ : ∃ outs s,
      machine.run (start 3) twoClients = some (outs, s)
        ∧ s.socket 4 = ⟨[97], [], [98]⟩ := ⟨_, _, rfl, rfl⟩
  have hechoes := (hall 3 _ s (Machine.Reach.of_run hrun) 4).1
  rw [hsocket] at hechoes
  exact absurd hechoes (by decide)

end Server

end IoUring
