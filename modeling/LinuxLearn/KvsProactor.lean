import LinuxLearn.Exchange
import LinuxLearn.KvsGrammar
import Mathlib.Data.List.ReduceOption

/-!
# The proactor

`proactor.c`: requests are queued in the submission ring of an io_uring,
the kernel carries them out in its own time, and each comes back as a
completion that names the event object it was queued with. A connection
lives in a struct of its own that the event points to. Nothing but the
objects in flight tells the loop what it owns: an event is freed when its
completion has been handled, and a connection when its last request has
failed.

So what keeps the loop alive is a count. At any time there is one request
in flight to accept the next client, and one for every connection, to
receive or to send (`Owned`). The codes the `set_event_*` functions return
are ignored, and with this count they may be: no more than 129 entries
are queued between two submissions of a ring of 1024
(`one_request_each`).
-/

open Exchange

/-- `ENTRIES_LENGTH`. -/
def ENTRIES_LENGTH : ℕ := 1024

namespace Proactor

/-- The types of events. -/
inductive EventType where
  | accept
  | recv
  | send
deriving DecidableEq

/-- **`io_event_t`**, without `listen_fd`, which is never read. -/
structure IoEvent where
  type : EventType
  /-- The connection it is for; null for an accept. -/
  conn : Ptr
deriving DecidableEq

/-- **`io_conn_t`.** -/
structure IoConn where
  fd : ℕ
  /-- The request. -/
  rbuf : List UInt8
  /-- How many bytes of it were received. -/
  rlen : ℤ
  /-- The response. -/
  wbuf : List UInt8
  /-- How many bytes of it there are. -/
  wlen : ℤ

/-- What an entry of the submission ring asks the kernel for: to receive into
the buffer of a connection, or to send so many bytes of one. -/
inductive Op where
  | accept
  | recv (conn : Ptr)
  | send (conn : Ptr) (len : ℤ)
deriving DecidableEq

/-- **An entry of the submission ring.** -/
structure Sqe where
  /-- What is asked of the kernel. -/
  op : Op
  /-- The event attached, `user_data`. -/
  data : Ptr
deriving DecidableEq

/-- The event object that goes with what is asked for. -/
def Op.event : Op → IoEvent
  | accept => ⟨.accept, 0⟩
  | recv conn => ⟨.recv, conn⟩
  | send conn _ => ⟨.send, conn⟩

/-- **Whom a request is for**: a connection, or whoever connects next. -/
def Op.owner : Op → Option Ptr
  | accept => none
  | recv conn => some conn
  | send conn _ => some conn

/-- **A completion.** -/
structure Completion where
  /-- The entry it completes. -/
  sqe : Sqe
  /-- What the kernel and the library answer. -/
  answer : Answer
  /-- Which allocations made in handling it succeed. -/
  malloc : ℕ → Bool

end Proactor

/-- **The proactor.** -/
structure Proactor (E : Type) where
  /-- The engine behind the handler. -/
  engine : E
  /-- The event objects. -/
  events : Heap Proactor.IoEvent
  /-- The connection objects. -/
  conns : Heap Proactor.IoConn
  /-- What was taken from the ring since the last submission; `none` was not prepared. -/
  sq : List (Option Proactor.Sqe)
  /-- What is submitted and not yet handled. -/
  inflight : List Proactor.Sqe

namespace Proactor

variable {E : Type}

/-- **How the loop can go wrong.** -/
inductive ProactorFault where
  /-- An object is used that is not live, or freed twice. -/
  | dangling
  /-- A response goes past the write buffer. -/
  | outOfBounds
  /-- An entry that was not prepared is submitted. -/
  | blankEntry
  /-- `kvs_protocol` goes wrong. -/
  | protocol (f : Fault)
deriving DecidableEq

/-- **What the loop leaves behind**: an entry of the log of its connections, or
what a `set_event_*` function returned. -/
inductive Note where
  | act (a : Act Ptr (Request × Env) UInt8)
  | ret (code : ℤ)

/-- The log of the connections. -/
def acts (notes : List Note) : List (Act Ptr (Request × Env) UInt8) :=
  notes.filterMap (fun n => match n with
    | .act a => some a
    | .ret _ => none)

/-- An access through a pointer. -/
def deref {α : Type} : Option α → Except ProactorFault α
  | some a => .ok a
  | none => .error .dangling

/-- What the three `set_event_*` functions share: an entry is taken, an event
object allocated and attached to it. An entry taken when the allocation
fails stays in the ring. -/
def prepare (s : Proactor E) (op : Op) (ok : Bool) : ℤ × Proactor E :=
  if ENTRIES_LENGTH ≤ s.sq.length then (-1, s)
  else if ok then
    (0, { s with events := s.events.alloc op.event, sq := s.sq ++ [some ⟨op, s.events.next⟩] })
  else (-1, { s with sq := s.sq ++ [none] })

/-- **`set_event_accept`.** -/
def setEventAccept (s : Proactor E) (ok : Bool) : ℤ × Proactor E := prepare s .accept ok

/-- **`set_event_recv`**: the read buffer is cleared as soon as there is an
entry. -/
def setEventRecv (s : Proactor E) (conn : Ptr) (ok : Bool) :
    Except ProactorFault (ℤ × Proactor E) :=
  if ENTRIES_LENGTH ≤ s.sq.length then .ok (-1, s)
  else do
    let conns ← deref (s.conns.modify conn (fun c => { c with rbuf := zeros, rlen := 0 }))
    return prepare { s with conns := conns } (.recv conn) ok

/-- **`set_event_send`**: the length is read when the entry is prepared. -/
def setEventSend (s : Proactor E) (conn : Ptr) (ok : Bool) :
    Except ProactorFault (ℤ × Proactor E) :=
  if ENTRIES_LENGTH ≤ s.sq.length then .ok (-1, s)
  else do
    let c ← deref (s.conns.load conn)
    return prepare s (.send conn c.wlen) ok

/-- `free(event)`. -/
def freeEvent (s : Proactor E) (p : Ptr) : Except ProactorFault (Proactor E) := do
  let events ← deref (s.events.free p)
  return { s with events := events }

/-- A connection that is gone: `close`, `free(conn)`, `free(event)`. -/
def dropConn (s : Proactor E) (p conn : Ptr) : Except ProactorFault (List Note × Proactor E) := do
  let conns ← deref (s.conns.free conn)
  let s ← freeEvent { s with conns := conns } p
  return ([.act (.close conn)], s)

/-- `case EVENT_ACCEPT`. -/
def onAccept (s : Proactor E) (p : Ptr) (cqe : Completion) :
    Except ProactorFault (List Note × Proactor E) :=
  match cqe.answer.accept with
  | none => do
    let (ret, s) := setEventAccept s (cqe.malloc 0)
    let s ← freeEvent s p
    return ([.ret ret], s)
  | some fd =>
    if cqe.malloc 0 then do
      let conn := s.conns.next
      let events ← deref (s.events.modify p (fun e => { e with conn := conn }))
      let s := { s with events := events, conns := s.conns.alloc ⟨fd, zeros, 0, zeros, 0⟩ }
      let (ret, s) ← setEventRecv s conn (cqe.malloc 1)
      let (ret', s) := setEventAccept s (cqe.malloc 2)
      let s ← freeEvent s p
      return ([.act (.accept conn), .ret ret, .ret ret'], s)
    else do
      -- no room for a connection: it is closed, and the next one is waited for
      let (ret, s) := setEventAccept s (cqe.malloc 1)
      let s ← freeEvent s p
      return ([.ret ret], s)

/-- `case EVENT_RECV`. The kernel has put what it received over the front of the
read buffer; behind a full one lies the low byte of `rlen`, which is then a
NUL. -/
def onRecv (ops : KvsOps E) (s : Proactor E) (p conn : Ptr) (cqe : Completion) :
    Except ProactorFault (List Note × Proactor E) :=
  match cqe.answer.recv with
  | .failed => dropConn s p conn
  | .disconnected => dropConn s p conn
  | .data r => do
    let c ← deref (s.conns.load conn)
    let rbuf := r.bytes ++ c.rbuf.drop r.bytes.length
    match kvsProtocol ops s.engine (some (rbuf ++ [0])) r.bytes.length wbuffer cqe.answer.env with
    | .error f => .error (.protocol f)
    | .ok (a, engine) =>
      match a.printTo zeros with
      | none => .error .outOfBounds
      | some wbuf =>
        let c := { c with rbuf := rbuf, rlen := r.bytes.length, wbuf := wbuf, wlen := a.length }
        let s := { s with engine := engine, conns := s.conns.update conn (fun _ => c) }
        let (ret, s) ← setEventSend s conn (cqe.malloc 0)
        let s ← freeEvent s p
        return ([.act (.recv conn (r.request, cqe.answer.env) a.bytes), .ret ret], s)

/-- `case EVENT_SEND`. How much was sent is not looked at. A negative length went
to the kernel as a huge one; what it sent then is not the response, and the
log does not tell of it. -/
def onSend (s : Proactor E) (p conn : Ptr) (len : ℤ) (cqe : Completion) :
    Except ProactorFault (List Note × Proactor E) :=
  match cqe.answer.send with
  | none => dropConn s p conn
  | some n => do
    let c ← deref (s.conns.load conn)
    let asked := c.wbuf.take len.toNat
    let (ret, s) ← setEventRecv s conn (cqe.malloc 0)
    let s ← freeEvent s p
    return (if 0 ≤ len then [.act (.send conn asked (asked.take n)), .ret ret] else [.ret ret], s)

/-- **One completion**, told apart by the type of its event. -/
def complete (ops : KvsOps E) (s : Proactor E) (cqe : Completion) :
    Except ProactorFault (List Note × Proactor E) := do
  let event ← deref (s.events.load cqe.sqe.data)
  let s := { s with inflight := s.inflight.erase cqe.sqe }
  match event.type with
  | .accept => onAccept s cqe.sqe.data cqe
  | .recv => onRecv ops s cqe.sqe.data event.conn cqe
  | .send =>
    let len := match cqe.sqe.op with
      | .send _ len => len
      | _ => 0
    onSend s cqe.sqe.data event.conn len cqe

/-- The loop over a batch of completions. -/
def completeAll (ops : KvsOps E) :
    Proactor E → List Completion → Except ProactorFault (List Note × Proactor E)
  | s, [] => .ok ([], s)
  | s, cqe :: batch => do
    let (notes, s) ← complete ops s cqe
    let (notes', s) ← completeAll ops s batch
    return (notes ++ notes', s)

/-- `io_uring_submit`: everything queued goes to the kernel. -/
def submit (s : Proactor E) : Except ProactorFault (Proactor E) :=
  if none ∈ s.sq then .error .blankEntry
  else .ok { s with inflight := s.inflight ++ s.sq.reduceOption, sq := [] }

/-- **One iteration of `proactor_start`'s loop**: a submission, and a batch of
completions. -/
def iterate (ops : KvsOps E) (s : Proactor E) (batch : List Completion) :
    Except ProactorFault (List Note × Proactor E) := do
  let s ← submit s
  completeAll ops s batch

/-- **The proactor as it enters its loop**: one request to accept is queued. -/
def start (engine : E) : Proactor E :=
  (setEventAccept ⟨engine, Heap.empty, Heap.empty, [], []⟩ true).2

/-- The proactor as a machine. -/
def machine (ops : KvsOps E) : Machine (Proactor E) (List Completion) (List Note) := fun s batch =>
  (iterate ops s batch).toOption

/-! ## Who owns what -/

/-- The requests that have not been handled, queued or submitted. -/
def outstanding (s : Proactor E) : List Sqe := s.sq.reduceOption ++ s.inflight

/-- An event object is the one a request was queued with; only that of a
request to accept may have been pointed to a connection since. -/
def Op.Matches (op : Op) (e : IoEvent) : Prop :=
  e.type = op.event.type ∧ (op ≠ .accept → e.conn = op.event.conn)

/-- **One request each**: the live events are those of the requests `L`, each
request has its own, there is one request to accept, and one for every
live connection. -/
structure Owned (events : Heap IoEvent) (conns : Heap IoConn) (L : List Sqe) : Prop where
  data_nodup : (L.map Sqe.data).Nodup
  mem_data : ∀ p, p ∈ L.map Sqe.data ↔ (events.load p).isSome
  event : ∀ q ∈ L, ∃ e, events.load q.data = some e ∧ q.op.Matches e
  owner_nodup : (L.map (fun q => q.op.owner)).Nodup
  mem_owner : ∀ o, o ∈ L.map (fun q => q.op.owner)
    ↔ o = none ∨ ∃ c, o = some c ∧ (conns.load c).isSome

namespace Owned

variable {events : Heap IoEvent} {conns conns' : Heap IoConn} {q : Sqe} {L L' : List Sqe}

theorem perm (h : Owned events conns L) (hp : L.Perm L') : Owned events conns L' where
  data_nodup := (hp.map _).nodup_iff.mp h.data_nodup
  mem_data := fun p => (hp.map _).mem_iff.symm.trans (h.mem_data p)
  event := fun q hq => h.event q (hp.mem_iff.mpr hq)
  owner_nodup := (hp.map _).nodup_iff.mp h.owner_nodup
  mem_owner := fun o => (hp.map _).mem_iff.symm.trans (h.mem_owner o)

/-- What the connection objects hold does not matter. -/
theorem congr_conns (h : Owned events conns L)
    (hlive : ∀ c, (conns'.load c).isSome = (conns.load c).isSome) : Owned events conns' L :=
  ⟨h.data_nodup, h.mem_data, h.event, h.owner_nodup, fun o => by
    rw [h.mem_owner o]
    simp only [hlive]⟩

theorem next_notMem (h : Owned events conns L) : events.next ∉ L.map Sqe.data := by
  intro hm
  obtain ⟨e, he⟩ := Option.isSome_iff_exists.mp ((h.mem_data _).mp hm)
  exact Heap.ne_next_of_load he rfl

/-- The connection of a request is live. -/
theorem load_conn (h : Owned events conns L) (hq : q ∈ L) {c : Ptr} (hc : q.op.owner = some c) :
    ∃ x, conns.load c = some x := by
  have hm : some c ∈ L.map (fun q => q.op.owner) := List.mem_map.mpr ⟨q, hq, hc⟩
  obtain hnone | ⟨c', hc', hlive⟩ := (h.mem_owner _).mp hm
  · cases hnone
  · obtain rfl := Option.some.inj hc'
    exact Option.isSome_iff_exists.mp hlive

/-- A request dropped, as far as the events go. -/
theorem mem_data_of_cons (h : Owned events conns (q :: L)) (p : Ptr) :
    p ∈ L.map Sqe.data ↔ p ≠ q.data ∧ (events.load p).isSome := by
  rw [← h.mem_data p, List.map_cons, List.mem_cons]
  obtain ⟨hq, -⟩ := List.nodup_cons.mp h.data_nodup
  by_cases hp : p = q.data
  · exact iff_of_false (hp ▸ hq) (fun hne => hne.1 hp)
  · simp [hp]

/-- The other events are as they were in a heap that agrees on them. -/
theorem event_of_cons (h : Owned events conns (q :: L)) {events' : Heap IoEvent}
    (hagree : ∀ p, p ≠ q.data → (events.load p).isSome → events'.load p = events.load p) :
    ∀ q' ∈ L, ∃ e, events'.load q'.data = some e ∧ q'.op.Matches e := by
  intro q' hq'
  obtain ⟨e, he, hmatches⟩ := h.event q' (List.mem_cons_of_mem q hq')
  obtain ⟨hne, hlive⟩ := (h.mem_data_of_cons q'.data).mp (List.mem_map_of_mem hq')
  exact ⟨e, (hagree _ hne hlive).trans he, hmatches⟩

/-- **A request is handed on**: the next one for the same owner is queued, and
then its event is freed. -/
theorem rearm (h : Owned events conns (q :: L)) {op : Op} (howner : op.owner = q.op.owner) :
    Owned ((events.alloc op.event).erase q.data) conns (⟨op, events.next⟩ :: L) := by
  obtain ⟨hq, hnd⟩ := List.nodup_cons.mp h.data_nodup
  have hnext := h.next_notMem
  have hne : events.next ≠ q.data := fun he => hnext (he ▸ List.mem_cons_self)
  have hL : events.next ∉ L.map Sqe.data := fun hm => hnext (List.mem_cons_of_mem _ hm)
  have howners : (⟨op, events.next⟩ :: L).map (fun q => q.op.owner)
      = (q :: L).map (fun q => q.op.owner) := by
    rw [List.map_cons, List.map_cons, howner]
  refine ⟨List.nodup_cons.mpr ⟨hL, hnd⟩, ?_, ?_, howners ▸ h.owner_nodup, howners ▸ h.mem_owner⟩
  · intro p
    rw [List.map_cons, List.mem_cons, h.mem_data_of_cons, Heap.load_erase, Heap.load_alloc]
    by_cases hp : p = q.data
    · subst hp
      simp [hne.symm]
    · by_cases hpn : p = events.next
      · simp [hpn, hne]
      · simp [hp, hpn]
  · refine List.forall_mem_cons.mpr ⟨⟨op.event, ?_, rfl, fun _ => rfl⟩, h.event_of_cons ?_⟩
    · simp [hne]
    · intro p hp hlive
      have hpn : p ≠ events.next := fun he => by
        rw [he] at hlive
        exact hnext ((h.mem_data _).mpr hlive)
      simp [hp, hpn]

/-- **A connection is dropped**: it is freed, and then the event of its only
request. -/
theorem drop (h : Owned events conns (q :: L)) {c : Ptr} (hc : q.op.owner = some c) :
    Owned (events.erase q.data) (conns.erase c) L := by
  obtain ⟨-, hnd⟩ := List.nodup_cons.mp h.data_nodup
  obtain ⟨hhead, hond⟩ := List.nodup_cons.mp h.owner_nodup
  have hown : some c ∉ L.map (fun q => q.op.owner) := by
    rw [← hc]
    exact hhead
  refine ⟨hnd, ?_, h.event_of_cons (fun p hp _ => ?_), hond, ?_⟩
  · intro p
    rw [h.mem_data_of_cons, Heap.load_erase]
    by_cases hp : p = q.data <;> simp [hp]
  · rw [Heap.load_erase, if_neg hp]
  · intro o
    have hmem := h.mem_owner o
    rw [List.map_cons, List.mem_cons, hc] at hmem
    by_cases ho : o = some c
    · subst ho
      exact iff_of_false hown (by simp)
    · refine (or_iff_right ho).symm.trans (hmem.trans ?_)
      refine or_congr_right (exists_congr (fun c' => and_congr_right (fun hoc' => ?_)))
      have hne : c' ≠ c := fun he => ho (hoc'.trans (congrArg some he))
      rw [Heap.load_erase, if_neg hne]

/-- **A connection is made**, with its first request. -/
theorem spawn (h : Owned events conns L) (x : IoConn) :
    Owned (events.alloc (Op.recv conns.next).event) (conns.alloc x)
      (⟨.recv conns.next, events.next⟩ :: L) := by
  have hnext := h.next_notMem
  have hown : some conns.next ∉ L.map (fun q => q.op.owner) := by
    intro hm
    obtain hnone | ⟨c, hc, hlive⟩ := (h.mem_owner _).mp hm
    · cases hnone
    · obtain ⟨y, hy⟩ := Option.isSome_iff_exists.mp hlive
      exact Heap.ne_next_of_load hy (Option.some.inj hc).symm
  refine ⟨List.nodup_cons.mpr ⟨hnext, h.data_nodup⟩, ?_, ?_,
    List.nodup_cons.mpr ⟨hown, h.owner_nodup⟩, ?_⟩
  · intro p
    rw [List.map_cons, List.mem_cons, h.mem_data, Heap.load_alloc]
    by_cases hp : p = events.next <;> simp [hp]
  · refine List.forall_mem_cons.mpr ⟨⟨_, by simp, rfl, fun _ => rfl⟩, fun q hq => ?_⟩
    obtain ⟨e, he, hmatches⟩ := h.event q hq
    exact ⟨e, Heap.load_alloc_of_load _ he, hmatches⟩
  · intro o
    rw [List.map_cons, List.mem_cons, h.mem_owner]
    show o = some conns.next ∨ _ ↔ _
    constructor
    · rintro (rfl | rfl | ⟨c, rfl, hlive⟩)
      · exact Or.inr ⟨conns.next, rfl, by simp⟩
      · exact Or.inl rfl
      · obtain ⟨y, hy⟩ := Option.isSome_iff_exists.mp hlive
        exact Or.inr ⟨c, rfl, by rw [Heap.load_alloc_of_load x hy]; rfl⟩
    · rintro (rfl | ⟨c, rfl, hlive⟩)
      · exact Or.inr (Or.inl rfl)
      · rw [Heap.load_alloc] at hlive
        by_cases hc : c = conns.next
        · exact Or.inl (congrArg some hc)
        · rw [if_neg hc] at hlive
          exact Or.inr (Or.inr ⟨c, rfl, hlive⟩)

/-- The event of a request to accept may be pointed to a connection. -/
theorem setConn (h : Owned events conns (q :: L)) (hq : q.op = .accept) (c : Ptr) :
    Owned (events.update q.data (fun e => { e with conn := c })) conns (q :: L) := by
  refine ⟨h.data_nodup, ?_, ?_, h.owner_nodup, h.mem_owner⟩
  · intro p
    rw [h.mem_data, Heap.load_update]
    by_cases hp : p = q.data <;> simp [hp]
  · intro q' hq'
    obtain ⟨e, he, hmatches⟩ := h.event q' hq'
    rw [Heap.load_update]
    by_cases hp : q'.data = q.data
    · obtain rfl : q' = q := List.inj_on_of_nodup_map h.data_nodup hq' List.mem_cons_self hp
      rw [if_pos rfl, he]
      exact ⟨_, rfl, hmatches.1, fun hne => absurd hq hne⟩
    · rw [if_neg hp]
      exact ⟨e, he, hmatches⟩

end Owned

/-! ## What a completion does -/

/-- The state after a request was handed on. -/
def rearm (s : Proactor E) (q : Sqe) (op : Op) : Proactor E :=
  { s with
    events := (s.events.alloc op.event).erase q.data
    sq := s.sq ++ [some ⟨op, s.events.next⟩]
    inflight := s.inflight.erase q }

/-- The state after a connection was made. -/
def accepted (s : Proactor E) (q : Sqe) (fd : ℕ) : Proactor E :=
  { s with
    events := (((s.events.update q.data (fun e => { e with conn := s.conns.next })).alloc
      (Op.recv s.conns.next).event).alloc Op.accept.event).erase q.data
    conns := (s.conns.alloc ⟨fd, zeros, 0, zeros, 0⟩).update s.conns.next
      (fun c => { c with rbuf := zeros, rlen := 0 })
    sq := s.sq ++ [some ⟨.recv s.conns.next, s.events.next⟩] ++ [some ⟨.accept, s.events.next + 1⟩]
    inflight := s.inflight.erase q }

/-- The state after a connection was dropped. -/
def dropped (s : Proactor E) (q : Sqe) (c : Ptr) : Proactor E :=
  { s with
    events := s.events.erase q.data
    conns := s.conns.erase c
    inflight := s.inflight.erase q }

/-- **All that handling a completion can do**, allocations succeeding. -/
inductive Outcome (ops : KvsOps E) (s : Proactor E) (cqe : Completion) :
    List Note → Proactor E → Prop
  | waits (hop : cqe.sqe.op = .accept) : Outcome ops s cqe [.ret 0] (rearm s cqe.sqe .accept)
  | accepts (fd : ℕ) (hop : cqe.sqe.op = .accept) :
    Outcome ops s cqe [.act (.accept s.conns.next), .ret 0, .ret 0] (accepted s cqe.sqe fd)
  | drops {c : Ptr} (hc : cqe.sqe.op.owner = some c)
    (hsend : ∀ c len, cqe.sqe.op = .send c len → cqe.answer.send = none) :
    Outcome ops s cqe [.act (.close c)] (dropped s cqe.sqe c)
  | serves {c : Ptr} {x : IoConn} {r : Received} {a : Reply} {engine : E} {wbuf : List UInt8}
    (hop : cqe.sqe.op = .recv c) (hload : s.conns.load c = some x)
    (hrecv : cqe.answer.recv = .data r)
    (hserve : ops.server s.engine (r.request, cqe.answer.env) = some (a, engine))
    (hprint : a.printTo zeros = some wbuf) :
    Outcome ops s cqe [.act (.recv c (r.request, cqe.answer.env) a.bytes), .ret 0]
      { rearm s cqe.sqe (.send c a.length) with
        engine := engine
        conns := s.conns.update c (fun _ =>
          ⟨x.fd, r.rbuffer [], r.bytes.length, wbuf, a.length⟩) }
  | sends {c : Ptr} {len : ℤ} {n : ℕ} {x : IoConn} (hop : cqe.sqe.op = .send c len)
    (hload : s.conns.load c = some x) (hsend : cqe.answer.send = some n) :
    Outcome ops s cqe
      (if 0 ≤ len then
        [Note.act (.send c (x.wbuf.take len.toNat) ((x.wbuf.take len.toNat).take n)), .ret 0]
      else [Note.ret 0])
      { rearm s cqe.sqe (.recv c) with
        conns := s.conns.update c (fun x => { x with rbuf := zeros, rlen := 0 }) }

/-- **A property of the engine that serving keeps**, as long as completions
satisfy `A`; it includes that strings are short. -/
structure Keeps (ops : KvsOps E) (A : Completion → Prop) (I : E → Prop) : Prop where
  short : ∀ {engine}, I engine → (ops.strs engine).All Short
  serve : ∀ {engine engine' cqe r a}, I engine → A cqe → cqe.answer.recv = .data r →
    ops.server engine (r.request, cqe.answer.env) = some (a, engine') → I engine'

/-- **The proactor's invariant**, with a property of its engine. -/
structure Inv (I : E → Prop) (s : Proactor E) : Prop where
  owned : Owned s.events s.conns s.outstanding
  /-- A connection that waits for a request has a clear read buffer. -/
  clear : ∀ q ∈ s.outstanding, ∀ c x, q.op = .recv c → s.conns.load c = some x → x.rbuf = zeros
  prepared : none ∉ s.sq
  engine : I s.engine

section Complete

variable {s : Proactor E} {p : Ptr} {e : IoEvent}

theorem freeEvent_of_load (h : s.events.load p = some e) :
    freeEvent s p = .ok { s with events := s.events.erase p } := by
  unfold freeEvent
  rw [Heap.free_of_load h]
  rfl

theorem prepare_of_lt (h : s.sq.length < ENTRIES_LENGTH) (op : Op) :
    prepare s op true = (0, { s with
      events := s.events.alloc op.event
      sq := s.sq ++ [some ⟨op, s.events.next⟩] }) := by
  unfold prepare
  rw [if_neg h.not_ge]
  rfl

theorem setEventRecv_of_lt (h : s.sq.length < ENTRIES_LENGTH) {c : Ptr} {x : IoConn}
    (hc : s.conns.load c = some x) :
    setEventRecv s c true = .ok (0, { s with
      conns := s.conns.update c (fun x => { x with rbuf := zeros, rlen := 0 })
      events := s.events.alloc (Op.recv c).event
      sq := s.sq ++ [some ⟨.recv c, s.events.next⟩] }) := by
  unfold setEventRecv
  rw [if_neg h.not_ge, Heap.modify_of_load _ hc]
  exact congrArg Except.ok (prepare_of_lt
    (s := { s with conns := s.conns.update c (fun x => { x with rbuf := zeros, rlen := 0 }) }) h _)

theorem setEventSend_of_lt (h : s.sq.length < ENTRIES_LENGTH) {c : Ptr} {x : IoConn}
    (hc : s.conns.load c = some x) :
    setEventSend s c true = .ok (0, { s with
      events := s.events.alloc (Op.send c x.wlen).event
      sq := s.sq ++ [some ⟨.send c x.wlen, s.events.next⟩] }) := by
  unfold setEventSend
  rw [if_neg h.not_ge, hc]
  show Except.ok (prepare s (.send c x.wlen) true) = _
  rw [prepare_of_lt h]

theorem dropConn_of_load {c : Ptr} {x : IoConn} (h : s.events.load p = some e)
    (hc : s.conns.load c = some x) :
    dropConn s p c = .ok ([.act (.close c)], { s with
      events := s.events.erase p
      conns := s.conns.erase c }) := by
  unfold dropConn
  rw [Heap.free_of_load hc]
  show (freeEvent { s with conns := s.conns.erase c } p >>= _) = _
  rw [freeEvent_of_load (s := { s with conns := s.conns.erase c }) h]
  rfl

theorem onAccept_failed {cqe : Completion} (h : s.events.load p = some e)
    (hroom : s.sq.length < ENTRIES_LENGTH) (hmalloc : ∀ i, cqe.malloc i = true)
    (haccept : cqe.answer.accept = none) :
    onAccept s p cqe = .ok ([.ret 0], { s with
      events := (s.events.alloc Op.accept.event).erase p
      sq := s.sq ++ [some ⟨.accept, s.events.next⟩] }) := by
  unfold onAccept setEventAccept
  rw [haccept, hmalloc]
  simp only [prepare_of_lt hroom]
  rw [freeEvent_of_load (s := { s with
    events := s.events.alloc Op.accept.event
    sq := s.sq ++ [some ⟨.accept, s.events.next⟩] }) (Heap.load_alloc_of_load _ h)]
  rfl

theorem onAccept_made {cqe : Completion} (h : s.events.load p = some e)
    (hroom : s.sq.length + 1 < ENTRIES_LENGTH) (hmalloc : ∀ i, cqe.malloc i = true) {fd : ℕ}
    (haccept : cqe.answer.accept = some fd) :
    onAccept s p cqe = .ok ([.act (.accept s.conns.next), .ret 0, .ret 0], { s with
      events := (((s.events.update p (fun e => { e with conn := s.conns.next })).alloc
        (Op.recv s.conns.next).event).alloc Op.accept.event).erase p
      conns := (s.conns.alloc ⟨fd, zeros, 0, zeros, 0⟩).update s.conns.next
        (fun c => { c with rbuf := zeros, rlen := 0 })
      sq := s.sq ++ [some ⟨.recv s.conns.next, s.events.next⟩]
        ++ [some ⟨.accept, s.events.next + 1⟩] }) := by
  have hrecv := setEventRecv_of_lt
    (s := { s with
      events := s.events.update p (fun e => { e with conn := s.conns.next })
      conns := s.conns.alloc ⟨fd, zeros, 0, zeros, 0⟩ })
    (c := s.conns.next) (x := ⟨fd, zeros, 0, zeros, 0⟩) (Nat.lt_of_succ_lt hroom) (by simp)
  have hlength : (s.sq ++ [some (⟨.recv s.conns.next,
      (s.events.update p (fun e => { e with conn := s.conns.next })).next⟩ : Sqe)]).length
        < ENTRIES_LENGTH := by
    rw [List.length_append]
    exact hroom
  have hevent : (((s.events.update p (fun e => { e with conn := s.conns.next })).alloc
      (Op.recv s.conns.next).event).alloc Op.accept.event).load p
        = some { e with conn := s.conns.next } := by
    refine Heap.load_alloc_of_load _ (Heap.load_alloc_of_load _ ?_)
    rw [Heap.load_update, if_pos rfl, h]
    rfl
  unfold onAccept setEventAccept
  rw [haccept]
  simp only [hmalloc, if_true, Heap.modify_of_load _ h]
  refine bind_ok rfl (bind_ok hrecv ?_)
  simp only
  rw [prepare_of_lt hlength]
  exact bind_ok (freeEvent_of_load hevent) rfl

theorem onRecv_gone (ops : KvsOps E) {cqe : Completion} (h : s.events.load p = some e) {c : Ptr}
    {x : IoConn} (hc : s.conns.load c = some x)
    (hrecv : cqe.answer.recv = .failed ∨ cqe.answer.recv = .disconnected) :
    onRecv ops s p c cqe = .ok ([.act (.close c)], { s with
      events := s.events.erase p
      conns := s.conns.erase c }) := by
  unfold onRecv
  obtain hrecv | hrecv := hrecv
  · rw [hrecv]
    exact dropConn_of_load h hc
  · rw [hrecv]
    exact dropConn_of_load h hc

/-- **Serving a request** whose read buffer was clear. -/
theorem onRecv_data {ops : KvsOps E} (hcopies : Copies ops) (cqe : Completion)
    (h : s.events.load p = some e) {c : Ptr} {x : IoConn} (hc : s.conns.load c = some x)
    (hclear : x.rbuf = zeros) (hshort : (ops.strs s.engine).All Short)
    (hroom : s.sq.length < ENTRIES_LENGTH) (hmalloc : ∀ i, cqe.malloc i = true) {r : Received}
    (hrecv : cqe.answer.recv = .data r) :
    (∃ f, onRecv ops s p c cqe = .error (.protocol f) ∧ ProtocolFails ops s.engine cqe.answer f)
      ∨ ∃ a engine wbuf, ops.server s.engine (r.request, cqe.answer.env) = some (a, engine)
        ∧ a.printTo zeros = some wbuf
        ∧ onRecv ops s p c cqe = .ok ([.act (.recv c (r.request, cqe.answer.env) a.bytes), .ret 0],
          { s with
            engine := engine
            events := (s.events.alloc (Op.send c a.length).event).erase p
            conns := s.conns.update c (fun _ => ⟨x.fd, r.rbuffer [], r.bytes.length, wbuf, a.length⟩)
            sq := s.sq ++ [some ⟨.send c a.length, s.events.next⟩] }) := by
  have hbuf : r.bytes ++ x.rbuf.drop r.bytes.length = r.rbuffer [] := by
    rw [hclear, zeros, List.drop_replicate, Received.rbuffer, List.append_nil]
  have hmem : r.rbuffer [] ++ [0] = r.request.mem := (r.rbuffer_eq_append [0]).symm
  have hproto : kvsProtocol ops s.engine (some (r.rbuffer [] ++ [0])) r.bytes.length wbuffer
      cqe.answer.env
        = kvsProtocol ops s.engine (some r.request.mem) r.request.length wbuffer cqe.answer.env := by
    rw [hmem]
    rfl
  cases hok : kvsProtocol ops s.engine (some r.request.mem) r.request.length wbuffer
    cqe.answer.env with
  | error f =>
    refine Or.inl ⟨f, ?_, r, hrecv, hok⟩
    unfold onRecv
    rw [hrecv, hc]
    refine bind_ok rfl ?_
    simp only [hbuf, hproto, hok]
  | ok o =>
    have hserve : ops.server s.engine (r.request, cqe.answer.env) = some (o.1, o.2) :=
      congrArg Except.toOption hok
    obtain ⟨wbuf, hprint⟩ := printTo_of_fits (server_fits hcopies r _ hshort _ hserve).2
    have hload : (s.conns.update c (fun _ =>
        ⟨x.fd, r.rbuffer [], r.bytes.length, wbuf, o.1.length⟩)).load c
          = some ⟨x.fd, r.rbuffer [], r.bytes.length, wbuf, o.1.length⟩ := by
      rw [Heap.load_update, if_pos rfl, hc]
      rfl
    refine Or.inr ⟨o.1, o.2, wbuf, hserve, hprint, ?_⟩
    unfold onRecv
    rw [hrecv, hc]
    refine bind_ok rfl ?_
    simp only [hbuf, hproto, hok, hprint, hmalloc]
    refine bind_ok (setEventSend_of_lt (s := { s with
      engine := o.2
      conns := s.conns.update c (fun _ =>
        ⟨x.fd, r.rbuffer [], r.bytes.length, wbuf, o.1.length⟩) }) hroom hload) ?_
    exact bind_ok (freeEvent_of_load (Heap.load_alloc_of_load _ h)) rfl

theorem onSend_gone {cqe : Completion} (h : s.events.load p = some e) {c : Ptr} {x : IoConn}
    (hc : s.conns.load c = some x) (len : ℤ) (hsend : cqe.answer.send = none) :
    onSend s p c len cqe = .ok ([.act (.close c)], { s with
      events := s.events.erase p
      conns := s.conns.erase c }) := by
  unfold onSend
  rw [hsend]
  exact dropConn_of_load h hc

theorem onSend_sent {cqe : Completion} (h : s.events.load p = some e) {c : Ptr} {x : IoConn}
    (hc : s.conns.load c = some x) (len : ℤ) (hroom : s.sq.length < ENTRIES_LENGTH)
    (hmalloc : ∀ i, cqe.malloc i = true) {n : ℕ} (hsend : cqe.answer.send = some n) :
    onSend s p c len cqe
      = .ok (if 0 ≤ len then
          [.act (.send c (x.wbuf.take len.toNat) ((x.wbuf.take len.toNat).take n)), .ret 0]
        else [.ret 0],
        { s with
          events := (s.events.alloc (Op.recv c).event).erase p
          conns := s.conns.update c (fun x => { x with rbuf := zeros, rlen := 0 })
          sq := s.sq ++ [some ⟨.recv c, s.events.next⟩] }) := by
  unfold onSend
  rw [hsend, hc, hmalloc]
  refine bind_ok rfl (bind_ok (setEventRecv_of_lt hroom hc) ?_)
  exact bind_ok (freeEvent_of_load (Heap.load_alloc_of_load _ h)) rfl

/-- A completion is told apart by what its request asked for. -/
theorem complete_eq (ops : KvsOps E) (cqe : Completion) (h : s.events.load cqe.sqe.data = some e)
    (hmatches : cqe.sqe.op.Matches e) :
    complete ops s cqe = match cqe.sqe.op with
      | .accept => onAccept { s with inflight := s.inflight.erase cqe.sqe } cqe.sqe.data cqe
      | .recv c => onRecv ops { s with inflight := s.inflight.erase cqe.sqe } cqe.sqe.data c cqe
      | .send c len =>
        onSend { s with inflight := s.inflight.erase cqe.sqe } cqe.sqe.data c len cqe := by
  obtain ⟨htype, hconn⟩ := hmatches
  unfold complete
  rw [h]
  refine bind_ok rfl ?_
  cases hop : cqe.sqe.op with
  | accept =>
    rw [hop] at htype
    simp only [htype, Op.event]
  | recv c =>
    rw [hop] at htype hconn
    simp only [htype, hconn Op.noConfusion, Op.event]
  | send c len =>
    rw [hop] at htype hconn
    simp only [htype, hconn Op.noConfusion, Op.event]

/-- **Handling a completion** does one of five things, unless `kvs_protocol` goes
wrong in it. -/
theorem complete_outcome {ops : KvsOps E} (hcopies : Copies ops) {I : E → Prop} (h : Inv I s)
    (hshort : (ops.strs s.engine).All Short) {cqe : Completion} (hq : cqe.sqe ∈ s.inflight)
    (hmalloc : ∀ i, cqe.malloc i = true)
    (hroom : s.sq.length + 1 < ENTRIES_LENGTH) :
    (∃ f, complete ops s cqe = .error (.protocol f) ∧ ProtocolFails ops s.engine cqe.answer f)
      ∨ ∃ notes s', complete ops s cqe = .ok (notes, s') ∧ Outcome ops s cqe notes s' := by
  have hmem : cqe.sqe ∈ s.outstanding := List.mem_append_right _ hq
  obtain ⟨e, hload, hmatches⟩ := h.owned.event cqe.sqe hmem
  have hlt : s.sq.length < ENTRIES_LENGTH := Nat.lt_of_succ_lt hroom
  rw [complete_eq ops cqe hload hmatches]
  cases hop : cqe.sqe.op with
  | accept =>
    cases haccept : cqe.answer.accept with
    | none =>
      exact Or.inr ⟨_, _, onAccept_failed (s := { s with inflight := s.inflight.erase cqe.sqe }) hload
        hlt hmalloc haccept, .waits hop⟩
    | some fd =>
      exact Or.inr ⟨_, _, onAccept_made (s := { s with inflight := s.inflight.erase cqe.sqe }) hload
        hroom hmalloc haccept, .accepts fd hop⟩
  | recv c =>
    have howner : cqe.sqe.op.owner = some c := by
      rw [hop]
      rfl
    obtain ⟨x, hx⟩ := h.owned.load_conn hmem howner
    have hnosend : ∀ c len, cqe.sqe.op = .send c len → cqe.answer.send = none := by
      intro c' len he
      cases hop.symm.trans he
    cases hrecv : cqe.answer.recv with
    | failed =>
      exact Or.inr ⟨_, _, onRecv_gone ops (s := { s with inflight := s.inflight.erase cqe.sqe }) hload
        hx (Or.inl hrecv), .drops howner hnosend⟩
    | disconnected =>
      exact Or.inr ⟨_, _, onRecv_gone ops (s := { s with inflight := s.inflight.erase cqe.sqe }) hload
        hx (Or.inr hrecv), .drops howner hnosend⟩
    | data r =>
      obtain hfail | ⟨a, engine, wbuf, hserve, hprint, hok⟩ :=
        onRecv_data (s := { s with inflight := s.inflight.erase cqe.sqe }) hcopies cqe hload hx
          (h.clear _ hmem c x hop hx) hshort hlt hmalloc hrecv
      · exact Or.inl hfail
      · exact Or.inr ⟨_, _, hok, .serves hop hx hrecv hserve hprint⟩
  | send c len =>
    have howner : cqe.sqe.op.owner = some c := by
      rw [hop]
      rfl
    obtain ⟨x, hx⟩ := h.owned.load_conn hmem howner
    cases hsend : cqe.answer.send with
    | none =>
      exact Or.inr ⟨_, _, onSend_gone (s := { s with inflight := s.inflight.erase cqe.sqe }) hload hx
        len hsend, .drops howner (fun _ _ _ => hsend)⟩
    | some n =>
      exact Or.inr ⟨_, _, onSend_sent (s := { s with inflight := s.inflight.erase cqe.sqe }) hload hx
        len hlt hmalloc hsend, .sends hop hx hsend⟩

end Complete

/-! ## The invariant is kept -/

section Keep

variable {s s' : Proactor E} {q : Sqe}

/-- The requests but one that is in flight. -/
def others (s : Proactor E) (q : Sqe) : List Sqe := s.sq.reduceOption ++ s.inflight.erase q

theorem outstanding_perm (hq : q ∈ s.inflight) : s.outstanding.Perm (q :: s.others q) := by
  have hperm : (s.sq.reduceOption ++ s.inflight).Perm
      (s.sq.reduceOption ++ q :: s.inflight.erase q) := (List.perm_cons_erase hq).append_left _
  exact hperm.trans List.perm_middle

/-- What is outstanding after one more entry was queued. -/
theorem perm_outstanding_concat {sq : List (Option Sqe)} {inflight : List Sqe} (q' : Sqe) :
    (q' :: (sq.reduceOption ++ inflight)).Perm
      ((sq ++ [some q']).reduceOption ++ inflight) := by
  rw [List.reduceOption_append, List.append_assoc]
  exact List.perm_middle.symm

variable {ops : KvsOps E} {I : E → Prop} {A : Completion → Prop} {cqe : Completion} {notes : List Note}

/-- Nobody else's request is for the same owner. -/
theorem Inv.owner_ne (h : Inv I s) (hq : q ∈ s.inflight) {q' : Sqe} (hq' : q' ∈ s.others q) :
    q'.op.owner ≠ q.op.owner := by
  obtain ⟨hnot, -⟩ := List.nodup_cons.mp (h.owned.perm (outstanding_perm hq)).owner_nodup
  exact fun he => hnot (List.mem_map.mpr ⟨q', hq', he⟩)

/-- The connection of another request, where only one connection changes. -/
theorem Inv.clear_others (h : Inv I s) (hq : q ∈ s.inflight) {conns : Heap IoConn}
    (hagree : ∀ c, some c ≠ q.op.owner → (s.conns.load c).isSome → conns.load c = s.conns.load c) :
    ∀ q' ∈ s.others q, ∀ c x, q'.op = .recv c → conns.load c = some x → x.rbuf = zeros := by
  intro q' hq' c x hop hx
  have hmem : q' ∈ s.outstanding := (outstanding_perm hq).mem_iff.mpr (List.mem_cons_of_mem _ hq')
  have howner : q'.op.owner = some c := by
    rw [hop]
    rfl
  obtain ⟨y, hy⟩ := h.owned.load_conn hmem howner
  have hne := h.owner_ne hq hq'
  rw [howner] at hne
  rw [hagree c hne (by rw [hy]; rfl)] at hx
  exact h.clear q' hmem c x hop hx

/-- **A request is handed on**, and only its own connection changes. -/
theorem Inv.rearm (h : Inv I s) (hq : q ∈ s.inflight) {op : Op} (howner : op.owner = q.op.owner)
    {engine : E} (hengine : I engine) {conns : Heap IoConn}
    (hlive : ∀ c, (conns.load c).isSome = (s.conns.load c).isSome)
    (hagree : ∀ c, some c ≠ q.op.owner → (s.conns.load c).isSome → conns.load c = s.conns.load c)
    (hclear : ∀ c x, op = .recv c → conns.load c = some x → x.rbuf = zeros) :
    Inv I { s.rearm q op with engine := engine, conns := conns } where
  owned := ((((h.owned.perm (outstanding_perm hq)).rearm howner).congr_conns hlive).perm
    (perm_outstanding_concat _))
  clear := by
    intro q' hq'
    have hcons := (perm_outstanding_concat (⟨op, s.events.next⟩ : Sqe)).mem_iff.mpr hq'
    rcases List.mem_cons.mp hcons with rfl | hothers
    · exact hclear
    · exact h.clear_others hq hagree q' hothers
  prepared := by
    intro hm
    rcases List.mem_append.mp hm with hm | hm
    · exact h.prepared hm
    · cases List.mem_singleton.mp hm
  engine := hengine

/-- A connection object that is written to stays live. -/
theorem isSome_load_update (conns : Heap IoConn) (c c' : Ptr) (f : IoConn → IoConn) :
    ((conns.update c f).load c').isSome = (conns.load c').isSome := by
  rw [Heap.load_update]
  split
  · exact Option.isSome_map
  · rfl

/-- **A connection is dropped.** -/
theorem Inv.dropped (h : Inv I s) (hq : q ∈ s.inflight) {c : Ptr} (hc : q.op.owner = some c) :
    Inv I (s.dropped q c) where
  owned := (h.owned.perm (outstanding_perm hq)).drop hc
  clear := by
    refine h.clear_others hq (fun c' hne _ => ?_)
    have hcc : c' ≠ c := fun he => hne (by rw [hc, he])
    exact (Heap.load_erase _ _ _).trans (if_neg hcc)
  prepared := h.prepared
  engine := h.engine

/-- **A connection is made**, and the next one waited for. -/
theorem Inv.accepted (h : Inv I s) (hq : q ∈ s.inflight) (hop : q.op = .accept) (fd : ℕ) :
    Inv I (s.accepted q fd) where
  owned := by
    have hspawn := (((h.owned.perm (outstanding_perm hq)).setConn hop s.conns.next).spawn
      ⟨fd, zeros, 0, zeros, 0⟩).perm (List.Perm.swap _ _ _)
    have howner : Op.accept.owner = q.op.owner := by rw [hop]
    have hrearm := (hspawn.rearm howner).congr_conns
      (isSome_load_update (s.conns.alloc ⟨fd, zeros, 0, zeros, 0⟩) s.conns.next ·
        (fun c => { c with rbuf := zeros, rlen := 0 }))
    exact hrearm.perm (((perm_outstanding_concat _).cons _).trans (perm_outstanding_concat _))
  clear := by
    intro q' hq' c x hop' hx
    have hcons := (((perm_outstanding_concat _).cons _).trans (perm_outstanding_concat _)).mem_iff.mpr
      hq'
    rcases List.mem_cons.mp hcons with rfl | hcons
    · cases hop'
    rcases List.mem_cons.mp hcons with rfl | hothers
    · cases hop'
      have hload : (s.accepted q fd).conns.load s.conns.next
          = some ⟨fd, zeros, 0, zeros, 0⟩ := by simp [Proactor.accepted]
      rw [← Option.some.inj (hload.symm.trans hx)]
    · refine h.clear_others hq (fun c' _ hlive => ?_) q' hothers c x hop' hx
      obtain ⟨y, hy⟩ := Option.isSome_iff_exists.mp hlive
      have hne := Heap.ne_next_of_load hy
      simp [Proactor.accepted, hne]
  prepared := by
    intro hm
    rcases List.mem_append.mp hm with hm | hm
    · rcases List.mem_append.mp hm with hm | hm
      · exact h.prepared hm
      · cases List.mem_singleton.mp hm
    · cases List.mem_singleton.mp hm
  engine := h.engine

/-- **Whatever a completion does keeps the invariant.** -/
theorem Outcome.inv (hkeeps : Keeps ops A I) (h : Inv I s) (hq : cqe.sqe ∈ s.inflight)
    (hA : A cqe) (hout : Outcome ops s cqe notes s') : Inv I s' := by
  cases hout with
  | waits hop =>
    have howner : Op.accept.owner = cqe.sqe.op.owner := by rw [hop]
    exact h.rearm hq howner h.engine (fun _ => rfl) (fun _ _ _ => rfl) (fun c x he _ => by cases he)
  | accepts fd hop => exact h.accepted hq hop fd
  | drops hc hsend => exact h.dropped hq hc
  | @serves c x r a engine wbuf hop hload hrecv hserve hprint =>
    have howner : (Op.send c a.length).owner = cqe.sqe.op.owner := by
      rw [hop]
      rfl
    refine h.rearm hq howner (hkeeps.serve h.engine hA hrecv hserve)
      (isSome_load_update s.conns c · _) ?_ (fun c x he _ => by cases he)
    intro c' hne _
    have hcc : c' ≠ c := fun he => hne (by rw [← howner, he]; rfl)
    rw [Heap.load_update, if_neg hcc]
  | @sends c len n x hop hload hsend =>
    have howner : (Op.recv c).owner = cqe.sqe.op.owner := by
      rw [hop]
      rfl
    refine h.rearm hq howner h.engine (isSome_load_update s.conns c · _) ?_ ?_
    · intro c' hne _
      have hcc : c' ≠ c := fun he => hne (by rw [← howner, he]; rfl)
      rw [Heap.load_update, if_neg hcc]
    · rintro c' y ⟨⟩ hy
      rw [Heap.load_update, if_pos rfl, hload] at hy
      rw [← Option.some.inj hy]

theorem Outcome.inflight_eq (hout : Outcome ops s cqe notes s') :
    s'.inflight = s.inflight.erase cqe.sqe := by
  cases hout <;> rfl

/-- **At most so many entries are queued**, or one more if the next connection is
waited for already. -/
def Bounded (n : ℕ) (s : Proactor E) : Prop :=
  s.sq.length ≤ n ∨ (s.sq.length ≤ n + 1 ∧ ∃ q ∈ s.sq.reduceOption, q.op = .accept)

/-- The next connection is not waited for twice. -/
theorem Inv.length_le_of_accept (h : Inv I s) (hq : q ∈ s.inflight) (hop : q.op = .accept) {n : ℕ}
    (hn : Bounded n s) : s.sq.length ≤ n := by
  rcases hn with hn | ⟨-, q', hq', hop'⟩
  · exact hn
  · have hne := h.owner_ne hq (List.mem_append_left (s.inflight.erase q) hq')
    rw [hop, hop'] at hne
    exact absurd rfl hne

/-- **A completion queues one entry**, or two where it makes a connection. -/
theorem Outcome.bounded (h : Inv I s) (hq : cqe.sqe ∈ s.inflight) {n : ℕ} (hn : Bounded n s)
    (hout : Outcome ops s cqe notes s') : Bounded (n + 1) s' := by
  have hmore : ∀ op : Op, Bounded (n + 1) (s.rearm cqe.sqe op) := by
    intro op
    have hlength : (s.rearm cqe.sqe op).sq.length = s.sq.length + 1 := List.length_append
    rcases hn with hn | ⟨hn, q', hq', hop'⟩
    · exact Or.inl (hlength.trans_le (Nat.succ_le_succ hn))
    · refine Or.inr ⟨hlength.trans_le (Nat.succ_le_succ hn), q', ?_, hop'⟩
      show q' ∈ (s.sq ++ [_]).reduceOption
      rw [List.reduceOption_append]
      exact List.mem_append_left _ hq'
  cases hout with
  | waits hop => exact hmore .accept
  | accepts fd hop =>
    have hle := h.length_le_of_accept hq hop hn
    refine Or.inr ⟨?_, ⟨.accept, s.events.next + 1⟩, ?_, rfl⟩
    · show (s.sq ++ [_] ++ [_]).length ≤ n + 1 + 1
      rw [List.length_append, List.length_append]
      exact Nat.succ_le_succ (Nat.succ_le_succ hle)
    · show _ ∈ (s.sq ++ [_] ++ [_]).reduceOption
      rw [List.reduceOption_append]
      exact List.mem_append_right _ List.mem_cons_self
  | drops hc hsend =>
    exact hn.imp Nat.le_succ_of_le (fun h => ⟨Nat.le_succ_of_le h.1, h.2⟩)
  | serves hop hload hrecv hserve hprint => exact hmore _
  | sends hop hload hsend => exact hmore _

/-- **No `set_event_*` fails.** -/
theorem Outcome.ret_eq_zero (hout : Outcome ops s cqe notes s') : ∀ code, .ret code ∈ notes →
    code = 0 := by
  cases hout with
  | waits hop => simp
  | accepts fd hop => simp
  | drops hc hsend => simp
  | serves hop hload hrecv hserve hprint => simp
  | sends hop hload hsend => split <;> simp

/-! ## The loop -/

/-- **What is assumed of the kernel**: a batch completes at most 128 requests
that were submitted, each once; and allocations succeed, and `A` holds of
every completion. -/
def Kernel (A : Completion → Prop) (s : Proactor E) (batch : List Completion) : Prop :=
  batch.length ≤ 128 ∧ (batch.map Completion.sqe).Nodup
    ∧ ∀ cqe ∈ batch, cqe.sqe ∈ s.inflight ++ s.sq.reduceOption
      ∧ (∀ i, cqe.malloc i = true) ∧ A cqe

/-- **A relation between log and state that completions keep.** -/
def KeptBy (ops : KvsOps E) (A : Completion → Prop) (I : E → Prop)
    (J : List Note → Proactor E → Prop) : Prop :=
  ∀ log s cqe notes s', J log s → Inv I s → cqe.sqe ∈ s.inflight → A cqe →
    Outcome ops s cqe notes s' → J (log ++ notes) s'

/-- **A batch of completions**, of which the first `n` are done. -/
theorem completeAll_good (hcopies : Copies ops) (hkeeps : Keeps ops A I)
    {J : List Note → Proactor E → Prop} (hJ : KeptBy ops A I J) {batch : List Completion} :
    ∀ {s : Proactor E} {log : List Note} {n : ℕ}, Inv I s → J log s → Bounded n s →
      n + batch.length ≤ 128 → (batch.map Completion.sqe).Nodup →
      (∀ cqe ∈ batch, cqe.sqe ∈ s.inflight ∧ (∀ i, cqe.malloc i = true) ∧ A cqe) →
      (∃ f, completeAll ops s batch = .error (.protocol f)
          ∧ ∃ engine, I engine ∧ ∃ cqe ∈ batch, ProtocolFails ops engine cqe.answer f)
        ∨ ∃ notes s', completeAll ops s batch = .ok (notes, s') ∧ Inv I s' ∧ J (log ++ notes) s'
          ∧ Bounded (n + batch.length) s' := by
  induction batch with
  | nil =>
    intro s log n h hlog hn _ _ _
    exact Or.inr ⟨[], s, rfl, h, by rwa [List.append_nil], hn⟩
  | cons cqe batch ih =>
    intro s log n h hlog hn hle hnd hbatch
    rw [List.length_cons] at hle
    obtain ⟨hq, hmalloc, hA⟩ := hbatch cqe List.mem_cons_self
    obtain ⟨hhead, hnd'⟩ := List.nodup_cons.mp hnd
    have hroom : s.sq.length + 1 < ENTRIES_LENGTH := by
      have hlength : s.sq.length ≤ n + 1 := hn.elim Nat.le_succ_of_le (fun h => h.1)
      show s.sq.length + 1 < 1024
      omega
    obtain ⟨f, hf, hfails⟩ | ⟨notes, s', hok, hout⟩ :=
      complete_outcome hcopies h (hkeeps.short h.engine) hq hmalloc hroom
    · refine Or.inl ⟨f, ?_, s.engine, h.engine, cqe, List.mem_cons_self, hfails⟩
      show (complete ops s cqe >>= _) = _
      rw [hf]
      rfl
    · have hbatch' : ∀ x ∈ batch, x.sqe ∈ s'.inflight ∧ (∀ i, x.malloc i = true) ∧ A x := by
        intro x hx
        obtain ⟨hmem, hrest⟩ := hbatch x (List.mem_cons_of_mem cqe hx)
        have hne : x.sqe ≠ cqe.sqe := fun he => hhead (List.mem_map.mpr ⟨x, hx, he⟩)
        rw [hout.inflight_eq]
        exact ⟨(List.mem_erase_of_ne hne).mpr hmem, hrest⟩
      obtain ⟨f, hf, engine, hengine, x, hx, hfails⟩ | ⟨notes', s'', hok', h', hlog', hn'⟩ :=
        ih (hout.inv hkeeps h hq hA) (hJ log s cqe notes s' hlog h hq hA hout) (hout.bounded h hq hn)
          (by omega) hnd' hbatch'
      · refine Or.inl ⟨f, ?_, engine, hengine, x, List.mem_cons_of_mem cqe hx, hfails⟩
        refine bind_ok hok ?_
        simp only [hf]
        rfl
      · refine Or.inr ⟨notes ++ notes', s'', ?_, h', ?_, ?_⟩
        · refine bind_ok hok ?_
          simp only [hok']
          rfl
        · rw [← List.append_assoc]
          exact hlog'
        · rw [List.length_cons, Nat.add_comm batch.length 1, ← Nat.add_assoc]
          exact hn'

/-- The state after everything queued was submitted. -/
def submitted (s : Proactor E) : Proactor E :=
  { s with inflight := s.inflight ++ s.sq.reduceOption, sq := [] }

theorem submit_of_prepared (h : none ∉ s.sq) : submit s = .ok s.submitted := if_neg h

theorem outstanding_submitted (s : Proactor E) : s.outstanding.Perm s.submitted.outstanding :=
  List.perm_append_comm

theorem Inv.submitted (h : Inv I s) : Inv I s.submitted where
  owned := h.owned.perm (outstanding_submitted s)
  clear := fun q hq => h.clear q ((outstanding_submitted s).mem_iff.mpr hq)
  prepared := List.not_mem_nil
  engine := h.engine

/-- **One iteration** keeps the invariant and queues at most 129 entries, unless
`kvs_protocol` goes wrong. -/
theorem iterate_good (hcopies : Copies ops) (hkeeps : Keeps ops A I)
    {J : List Note → Proactor E → Prop} (hJ : KeptBy ops A I J) {log : List Note} (h : Inv I s)
    (hlog : J log s.submitted) {batch : List Completion} (hbatch : Kernel A s batch) :
    (∃ f, iterate ops s batch = .error (.protocol f)
        ∧ ∃ engine, I engine ∧ ∃ cqe ∈ batch, ProtocolFails ops engine cqe.answer f)
      ∨ ∃ notes s', iterate ops s batch = .ok (notes, s') ∧ Inv I s' ∧ J (log ++ notes) s'
        ∧ s'.sq.length ≤ 129 := by
  obtain ⟨hle, hnd, hmem⟩ := hbatch
  have hsubmit : iterate ops s batch = completeAll ops s.submitted batch :=
    bind_ok (submit_of_prepared h.prepared) rfl
  rw [hsubmit]
  have hzero : Bounded 0 s.submitted := Or.inl (Nat.le_refl 0)
  obtain hfails | ⟨notes, s', hok, h', hlog', hn⟩ := completeAll_good hcopies hkeeps hJ h.submitted
    hlog hzero (by rwa [Nat.zero_add]) hnd hmem
  · exact Or.inl hfails
  · refine Or.inr ⟨notes, s', hok, h', hlog', ?_⟩
    rcases hn with hn | ⟨hn, -⟩ <;> omega

/-- **The loop is entered with the invariant.** -/
theorem start_inv {engine : E} (hengine : I engine) : Inv I (start engine) := by
  have houtstanding : (start engine).outstanding = [⟨.accept, (Heap.empty : Heap IoEvent).next⟩] := rfl
  refine ⟨?_, ?_, ?_, hengine⟩
  · rw [houtstanding]
    refine ⟨List.nodup_singleton _, ?_, ?_, List.nodup_singleton _, ?_⟩
    · intro p
      show _ ↔ (((Heap.empty : Heap IoEvent).alloc Op.accept.event).load p).isSome
      rw [Heap.load_alloc, List.map_singleton, List.mem_singleton]
      by_cases hp : p = (Heap.empty : Heap IoEvent).next
      · simp [hp]
      · simp only [hp, if_false, false_iff]
        exact Bool.false_ne_true
    · refine List.forall_mem_singleton.mpr ⟨Op.accept.event, ?_, rfl, fun _ => rfl⟩
      rfl
    · intro o
      rw [List.map_singleton, List.mem_singleton]
      refine (or_iff_left ?_).symm
      rintro ⟨c, -, hlive⟩
      cases hlive
  · rw [houtstanding]
    intro q hq c x hop
    rw [List.mem_singleton.mp hq] at hop
    cases hop
  · show none ∉ [some _]
    simp

/-- **The invariant of every reachable state.** -/
theorem reach_inv (hcopies : Copies ops) (hkeeps : Keeps ops A I)
    {J : List Note → Proactor E → Prop} (hJ : KeptBy ops A I J)
    (hsubmit : ∀ log s, Inv I s → J log s → J log s.submitted) {s₀ : E} (hs₀ : I s₀)
    (hstart : J [] (start s₀)) {log : List Note}
    (h : (machine ops).Reach (Kernel A) (start s₀) log s) :
    Inv I s ∧ J log s ∧ s.sq.length ≤ 129 := by
  refine Machine.Reach.invariant
    (I := fun log s => Inv I s ∧ J log s ∧ s.sq.length ≤ 129) ?_ ?_ h
  · refine ⟨start_inv hs₀, hstart, ?_⟩
    show [_].length ≤ 129
    exact Nat.le_of_ble_eq_true rfl
  · rintro log t batch out u ⟨hinv, hlog, -⟩ hbatch hstep
    have hreturns := eq_ok_of_toOption hstep
    obtain ⟨f, hf, -⟩ | ⟨notes, s', hok, hgood⟩ :=
      iterate_good hcopies hkeeps hJ hinv (hsubmit log t hinv hlog) hbatch
    · cases hf.symm.trans hreturns
    · obtain ⟨rfl, rfl⟩ := Prod.mk.inj (Except.ok.inj (hok.symm.trans hreturns))
      exact hgood

end Keep

/-- Short strings are kept whatever happens. -/
theorem keeps_short (e : Engine) :
    Keeps e.ops (fun _ => True) (fun engine => (e.ops.strs engine).All Short) :=
  ⟨id, fun hengine _ _ hserve => (server_fits e.copies _ _ hengine _ hserve).1⟩

/-- A completion in which allocations of the engine succeed, too, and a request
has at most 128 tokens. -/
def Completion.Healthy (cqe : Completion) : Prop :=
  (∃ rand, cqe.answer.env = Env.healthy rand)
    ∧ ∀ r, cqe.answer.recv = .data r → (tokensOf blanks r.request.mem).length ≤ KVS_MAX_TOKENS

/-- A map is kept where allocations succeed. -/
theorem keeps_represents (e : Engine) : Keeps e.ops Completion.Healthy
    (fun engine => (e.ops.strs engine).All Short ∧ ∃ m, Represents e.Inv engine m) := by
  refine ⟨fun h => h.1, ?_⟩
  rintro engine engine' cqe r a ⟨hshort, m, hm⟩ ⟨⟨rand, hrand⟩, htokens⟩ hrecv hserve
  refine ⟨(server_fits e.copies _ _ hshort _ hserve).1, ?_⟩
  obtain ⟨s', hserve', hm'⟩ := e.implements.serves engine m (r.request, rand) hm
    ⟨r.terminated, htokens r hrecv⟩
  rw [hrand] at hserve
  obtain ⟨-, rfl⟩ := Prod.mk.inj (Option.some.inj (hserve'.symm.trans hserve))
  exact ⟨_, hm'⟩

/-- Then `kvs_protocol` does not go wrong. -/
theorem not_protocolFails {e : Engine} {engine : e.State} {m : Store}
    (hm : Represents e.Inv engine m) {cqe : Completion} (hhealthy : cqe.Healthy) (f : Fault) :
    ¬ ProtocolFails e.ops engine cqe.answer f := by
  rintro ⟨r, hrecv, hfault⟩
  obtain ⟨⟨rand, hrand⟩, htokens⟩ := hhealthy
  obtain ⟨s', hserve, -⟩ := e.implements.serves engine m (r.request, rand) hm
    ⟨r.terminated, htokens r hrecv⟩
  rw [hrand] at hfault
  cases hfault.symm.trans (kvsProtocol_of_server hserve)

/-- No `set_event_*` has failed. -/
def NoneFailed (log : List Note) : Prop := ∀ code, .ret code ∈ log → code = 0

theorem noneFailed_keptBy {ops : KvsOps E} {A : Completion → Prop} {I : E → Prop} :
    KeptBy ops A I (fun log _ => NoneFailed log) := by
  intro log s cqe notes s' hlog _ _ _ hout code hmem
  exact (List.mem_append.mp hmem).elim (hlog code) (hout.ret_eq_zero code)

/-- The number of requests for an owner. -/
theorem Owned.countP_eq {events : Heap IoEvent} {conns : Heap IoConn} {L : List Sqe}
    (h : Owned events conns L) {o : Option Ptr}
    (ho : o = none ∨ ∃ c, o = some c ∧ (conns.load c).isSome) :
    L.countP (fun q => q.op.owner = o) = 1 := by
  have hcount := List.count_eq_one_of_mem h.owner_nodup ((h.mem_owner o).mpr ho)
  rw [List.count_eq_countP, List.countP_map] at hcount
  refine Eq.trans (List.countP_congr (fun q _ => ?_)) hcount
  simp

/-- **One request each.** After every iteration of the proactor's loop, with any
engine, whatever the kernel completes in whatever order: one request to
accept is outstanding, and one for each live connection, none refers to a
freed connection, and the live events are those of the outstanding
requests, so that every other one has been freed, and freed once. At most
129 entries are queued between two submissions, and no `set_event_*` has
failed. The next iteration does not go wrong but in `kvs_protocol`, and not
at all if allocations of the engine succeed, too. -/
theorem one_request_each (e : Engine) {garbage : Vector KvsArrayItem KVS_ARRAY_SIZE} {env₀ : Env}
    {s₀ : e.State} (hinit : e.initKvengine garbage env₀ = some s₀) {log : List Note}
    {s : Proactor e.State}
    (h : (machine e.ops).Reach (Kernel (fun _ => True)) (start s₀) log s) :
    s.outstanding.countP (fun q => q.op.owner = none) = 1
    ∧ (∀ c x, s.conns.load c = some x → s.outstanding.countP (fun q => q.op.owner = some c) = 1)
    ∧ (∀ q ∈ s.outstanding, ∀ c, q.op.owner = some c → (s.conns.load c).isSome)
    ∧ (s.outstanding.map Sqe.data).Nodup
    ∧ (∀ p, p ∈ s.outstanding.map Sqe.data ↔ (s.events.load p).isSome)
    ∧ s.sq.length ≤ 129
    ∧ NoneFailed log
    ∧ (∀ batch, Kernel (fun _ => True) s batch → (∃ o, iterate e.ops s batch = .ok o)
      ∨ ∃ f, iterate e.ops s batch = .error (.protocol f)
        ∧ ∃ engine, ∃ cqe ∈ batch, ProtocolFails e.ops engine cqe.answer f)
    ∧ (e.Started s₀ → (machine e.ops).Reach (Kernel Completion.Healthy) (start s₀) log s →
      ∀ batch, Kernel Completion.Healthy s batch → ∃ o, iterate e.ops s batch = .ok o) := by
  have hnone : NoneFailed [] := fun _ hmem => absurd hmem List.not_mem_nil
  obtain ⟨hinv, hlog, hlength⟩ := reach_inv e.copies (keeps_short e) noneFailed_keptBy
    (fun _ _ _ => id) (e.init_all Short garbage env₀ s₀ hinit) hnone h
  refine ⟨hinv.owned.countP_eq (Or.inl rfl), ?_, ?_, hinv.owned.data_nodup, hinv.owned.mem_data,
    hlength, hlog, ?_, ?_⟩
  · intro c x hx
    exact hinv.owned.countP_eq (Or.inr ⟨c, rfl, by rw [hx]; rfl⟩)
  · intro q hq c hc
    obtain ⟨x, hx⟩ := hinv.owned.load_conn hq hc
    rw [hx]
    rfl
  · intro batch hbatch
    obtain ⟨f, hf, engine, -, hfails⟩ | ⟨notes, s', hok, -⟩ :=
      iterate_good e.copies (keeps_short e) noneFailed_keptBy hinv hlog hbatch
    · exact Or.inr ⟨f, hf, engine, hfails⟩
    · exact Or.inl ⟨_, hok⟩
  · rintro ⟨garbage', rand, hinit'⟩ hreach batch hbatch
    obtain ⟨s₁, hs₁, hI⟩ := e.exists_init garbage' rand
    obtain rfl : s₁ = s₀ := Option.some.inj (hs₁.symm.trans hinit')
    obtain ⟨hinv', hlog', -⟩ := reach_inv e.copies (keeps_represents e) noneFailed_keptBy
      (fun _ _ _ => id) ⟨e.init_all Short garbage env₀ s₁ hinit, ∅, [], hI, rfl⟩ hnone hreach
    obtain ⟨f, -, engine, ⟨-, m, hm⟩, cqe, hcqe, hfails⟩ | ⟨notes, s', hok, -⟩ :=
      iterate_good e.copies (keeps_represents e) noneFailed_keptBy hinv' hlog' hbatch
    · exact absurd hfails (not_protocolFails hm (hbatch.2.2 cqe hcqe).2.2 f)
    · exact ⟨_, hok⟩

/-- A completion of the only request of a proactor that has just started: a
client connects. -/
def firstAccept : Completion where
  sqe := ⟨.accept, 1⟩
  answer := ⟨some 5, .disconnected, none, Env.healthy (fun _ => false)⟩
  malloc := fun _ => true

theorem kernel_firstAccept (A : Completion → Prop) (hA : A firstAccept) (engine : E) :
    Kernel A (start engine) [firstAccept] := by
  refine ⟨by decide, List.nodup_singleton _, List.forall_mem_singleton.mpr ⟨?_, fun _ => rfl, hA⟩⟩
  exact List.mem_singleton.mpr rfl

/-- A client connects to the skip list; then one request to accept is
outstanding, and one for the client. -/
theorem one_request_each_accept :
    ∃ (s₀ : Engine.skiptable.State) (s : Proactor Engine.skiptable.State),
      (machine Engine.skiptable.ops).Reach (Kernel (fun _ => True)) (start s₀)
        [.act (.accept 1), .ret 0, .ret 0] s
      ∧ s.outstanding.countP (fun q => q.op.owner = none) = 1
      ∧ s.outstanding.countP (fun q => q.op.owner = some 1) = 1 := by
  obtain ⟨s₀, hinit, -⟩ := Engine.exists_init (Vector.replicate KVS_ARRAY_SIZE ⟨0, 0⟩)
    (fun _ => false) .skiptable
  have hreach : (machine Engine.skiptable.ops).Reach (Kernel (fun _ => True)) (start s₀)
      [.act (.accept 1), .ret 0, .ret 0] ((start s₀).submitted.accepted ⟨.accept, 1⟩ 5) :=
    (Machine.Reach.refl (M := machine Engine.skiptable.ops)).step
      (kernel_firstAccept _ trivial s₀) rfl
  obtain ⟨haccept, hconn, -⟩ := one_request_each .skiptable hinit hreach
  exact ⟨s₀, _, hreach, haccept, hconn 1 ⟨5, zeros, 0, zeros, 0⟩ rfl⟩

/-! ## Short sends -/

/-- A completion of the kind the responses are counted in: a request holds a
token, and `send` reports a count that `Sends` allows. -/
def Completion.Sending (Sends : ℤ → Option ℕ → Prop) (cqe : Completion) : Prop :=
  (∀ r, cqe.answer.recv = .data r → r.HasToken)
    ∧ ∀ c len, cqe.sqe.op = .send c len → Sends len cqe.answer.send

/-- **A connection's request agrees with what its log says.** -/
def Op.Agrees (conns : Heap IoConn) (log : List (Act Ptr (Request × Env) UInt8)) : Op → Prop
  | accept => True
  | recv c => phase c log = some .idle
  | send c len => ∃ r x, phase c log = some (.pending r) ∧ conns.load c = some x
    ∧ r ≠ [] ∧ len = r.length ∧ x.wbuf.take r.length = r

/-- **Every connection takes turns**, and sends send what `Sends` allows. -/
structure Talks (Sends : ℤ → Option ℕ → Prop) (notes : List Note) (s : Proactor E) : Prop where
  closed : ∀ c, s.conns.load c = none → phase c (acts notes) = some .closed
  agrees : ∀ q ∈ s.outstanding, q.op.Agrees s.conns (acts notes)
  sends : ∀ a ∈ acts notes, a.SentAs Sends

theorem acts_append (notes notes' : List Note) : acts (notes ++ notes') = acts notes ++ acts notes' :=
  List.filterMap_append

/-- A request agrees with a longer log that tells nothing more of its
connection, if its connection has not changed. -/
theorem Op.Agrees.append {conns conns' : Heap IoConn} {log log' : List (Act Ptr (Request × Env) UInt8)}
    {op : Op} (h : op.Agrees conns log) (hlog : ∀ c, op.owner = some c → ∀ a ∈ log', a.conn ≠ c)
    (hconns : ∀ c, op.owner = some c → conns'.load c = conns.load c) :
    op.Agrees conns' (log ++ log') := by
  cases op with
  | accept => trivial
  | recv c => exact (phase_append_of_ne (hlog c rfl)).trans h
  | send c len =>
    obtain ⟨r, x, hphase, hload, hr⟩ := h
    exact ⟨r, x, (phase_append_of_ne (hlog c rfl)).trans hphase, (hconns c rfl).trans hload, hr⟩

section Talk

variable {s s' : Proactor E} {q : Sqe} {ops : KvsOps E} {I : E → Prop} {cqe : Completion}
  {log notes : List Note} {Sends : ℤ → Option ℕ → Prop}

/-- **Only one connection has its turn**, and no other request is for it. -/
theorem Talks.update (h : Talks Sends log s) {c : Ptr} (hconn : ∀ a ∈ acts notes, a.conn = c)
    (hsent : ∀ a ∈ acts notes, a.SentAs Sends)
    (hagree : ∀ c', c' ≠ c → s'.conns.load c' = s.conns.load c')
    (hclosed : s'.conns.load c = none → phase c (acts log ++ acts notes) = some .closed)
    (hagrees : ∀ q ∈ s'.outstanding, (q ∈ s.outstanding ∧ q.op.owner ≠ some c)
      ∨ q.op.Agrees s'.conns (acts log ++ acts notes)) :
    Talks Sends (log ++ notes) s' := by
  have hother : ∀ c', c' ≠ c → ∀ a ∈ acts notes, a.conn ≠ c' := by
    intro c' hne a ha he
    exact hne (he.symm.trans (hconn a ha))
  refine ⟨?_, ?_, ?_⟩
  · intro c' hload
    rw [acts_append]
    by_cases hc : c' = c
    · subst hc
      exact hclosed hload
    · rw [phase_append_of_ne (hother c' hc)]
      exact h.closed c' ((hagree c' hc).symm.trans hload)
  · intro q hq
    rw [acts_append]
    rcases hagrees q hq with ⟨hold, howner⟩ | hnew
    · have hne : ∀ c', q.op.owner = some c' → c' ≠ c := fun c' hc' he => howner (he ▸ hc')
      exact (h.agrees q hold).append (fun c' hc' => hother c' (hne c' hc'))
        (fun c' hc' => hagree c' (hne c' hc'))
    · exact hnew
  · intro a ha
    rw [acts_append] at ha
    exact (List.mem_append.mp ha).elim (h.sends a) (hsent a)

/-- What is outstanding after a request was handed on: the new one, and the
others. -/
theorem mem_outstanding_rearm (hq : q ∈ s.inflight) {op : Op} {q' : Sqe}
    (h : q' ∈ (s.rearm q op).outstanding) :
    q' = ⟨op, s.events.next⟩ ∨ (q' ∈ s.outstanding ∧ q' ∈ s.others q) := by
  have hcons := (perm_outstanding_concat (⟨op, s.events.next⟩ : Sqe)).mem_iff.mpr h
  rcases List.mem_cons.mp hcons with rfl | hothers
  · exact Or.inl rfl
  · exact Or.inr ⟨(outstanding_perm hq).mem_iff.mpr (List.mem_cons_of_mem _ hothers), hothers⟩

/-- Nobody has a request for a connection that is yet to be made. -/
theorem Inv.owner_ne_next (h : Inv I s) {q' : Sqe} (hq' : q' ∈ s.outstanding) :
    q'.op.owner ≠ some s.conns.next := by
  intro he
  obtain ⟨x, hx⟩ := h.owned.load_conn hq' he
  exact Heap.ne_next_of_load hx rfl

/-- A connection that is yet to be made is not live. -/
theorem load_next (conns : Heap IoConn) : conns.load conns.next = none := by
  cases hload : conns.load conns.next with
  | none => rfl
  | some x => exact absurd rfl (Heap.ne_next_of_load hload)

/-- A connection that is dropped had nothing pending, unless a send failed. -/
theorem Talks.idle_of_drops (hsome : ∀ len, 0 < len → ¬ Sends len none) (h : Talks Sends log s)
    (hq : cqe.sqe ∈ s.inflight) (hA : cqe.Sending Sends) {c : Ptr}
    (hc : cqe.sqe.op.owner = some c)
    (hsend : ∀ c len, cqe.sqe.op = .send c len → cqe.answer.send = none) :
    phase c (acts log) = some .idle := by
  have hagrees := h.agrees cqe.sqe (List.mem_append_right _ hq)
  cases hop : cqe.sqe.op with
  | accept =>
    rw [hop] at hc
    cases hc
  | recv c' =>
    rw [hop] at hc hagrees
    obtain rfl := Option.some.inj hc
    exact hagrees
  | send c' len =>
    have hsends := hA.2 c' len hop
    rw [hsend c' len hop] at hsends
    rw [hop] at hagrees
    obtain ⟨r, x, -, -, hr, rfl, -⟩ := hagrees
    have hpos : (0 : ℤ) < r.length := Int.natCast_pos.mpr (List.length_pos_iff.mpr hr)
    exact absurd hsends (hsome _ hpos)

/-- **A request is answered.** -/
theorem Talks.serves (hcopies : Copies ops) (hshort : (ops.strs s.engine).All Short)
    (h : Talks Sends log s) (hinv : Inv I s) (hq : cqe.sqe ∈ s.inflight) {c : Ptr} {x : IoConn}
    {r : Received} {a : Reply} {engine : E} {wbuf : List UInt8} (hop : cqe.sqe.op = .recv c)
    (hload : s.conns.load c = some x) (htoken : r.HasToken)
    (hserve : ops.server s.engine (r.request, cqe.answer.env) = some (a, engine))
    (hprint : a.printTo zeros = some wbuf) :
    Talks Sends (log ++ [Note.act (.recv c (r.request, cqe.answer.env) a.bytes), .ret 0])
      { rearm s cqe.sqe (.send c a.length) with
        engine := engine
        conns := s.conns.update c (fun _ =>
          ⟨x.fd, r.rbuffer [], r.bytes.length, wbuf, a.length⟩) } := by
  obtain ⟨-, text, hne, hlt, rfl⟩ := server_text hcopies hshort htoken hserve
  obtain ⟨buf, hbuf, -, htake⟩ := printTo_sprintf zeros
    (hlt.trans_eq List.length_replicate.symm)
  obtain rfl : buf = wbuf := Option.some.inj (hbuf.symm.trans hprint)
  have hidle : phase c (acts log) = some .idle := by
    have hagrees := h.agrees cqe.sqe (List.mem_append_right _ hq)
    rw [hop] at hagrees
    exact hagrees
  have hpending : phase c (acts log
      ++ [Act.recv c (r.request, cqe.answer.env) text]) = some (.pending text) :=
    phase_concat_of_turn hidle rfl rfl
  have hnew : (s.conns.update c (fun _ =>
      ⟨x.fd, r.rbuffer [], r.bytes.length, buf, (sprintf text).length⟩)).load c
        = some ⟨x.fd, r.rbuffer [], r.bytes.length, buf, (sprintf text).length⟩ := by
    rw [Heap.load_update, if_pos rfl, hload]
    rfl
  refine h.update (c := c) ?_ ?_ ?_ ?_ ?_
  · exact List.forall_mem_singleton.mpr rfl
  · exact List.forall_mem_singleton.mpr trivial
  · intro c' hc'
    exact Heap.load_update_of_ne _ _ hc'
  · intro hnone
    cases hnone.symm.trans hnew
  · intro q' hq'
    rcases mem_outstanding_rearm hq hq' with rfl | ⟨hold, hothers⟩
    · exact Or.inr ⟨text, _, hpending, hnew, hne, rfl, htake⟩
    · refine Or.inl ⟨hold, ?_⟩
      have howner := hinv.owner_ne hq hothers
      rw [hop] at howner
      exact howner

/-- **A response is sent**, or some of it. -/
theorem Talks.sends_some (h : Talks Sends log s) (hinv : Inv I s) (hq : cqe.sqe ∈ s.inflight)
    (hA : cqe.Sending Sends) {c : Ptr} {len : ℤ} {n : ℕ} {x : IoConn}
    (hop : cqe.sqe.op = .send c len) (hload : s.conns.load c = some x)
    (hsend : cqe.answer.send = some n) :
    Talks Sends (log ++ if 0 ≤ len then
        [Note.act (.send c (x.wbuf.take len.toNat) ((x.wbuf.take len.toNat).take n)), .ret 0]
      else [Note.ret 0])
      { rearm s cqe.sqe (.recv c) with
        conns := s.conns.update c (fun x => { x with rbuf := zeros, rlen := 0 }) } := by
  have hagrees := h.agrees cqe.sqe (List.mem_append_right _ hq)
  have hsends := hA.2 c len hop
  rw [hop] at hagrees
  obtain ⟨r, y, hphase, hy, -, rfl, htake⟩ := hagrees
  obtain rfl : y = x := Option.some.inj (hy.symm.trans hload)
  rw [if_pos (Int.natCast_nonneg _), Int.toNat_natCast, htake]
  have hidle : phase c (acts log ++ [Act.send c r (r.take n)]) = some .idle :=
    phase_concat_of_turn hphase rfl (if_pos rfl)
  refine h.update (c := c) ?_ ?_ ?_ ?_ ?_
  · exact List.forall_mem_singleton.mpr rfl
  · refine List.forall_mem_singleton.mpr ⟨some n, ?_, rfl⟩
    rw [← hsend]
    exact hsends
  · intro c' hc'
    exact Heap.load_update_of_ne _ _ hc'
  · intro hnone
    have hlive := isSome_load_update s.conns c c (fun x => { x with rbuf := zeros, rlen := 0 })
    rw [hnone, hload] at hlive
    cases hlive
  · intro q' hq'
    rcases mem_outstanding_rearm hq hq' with rfl | ⟨hold, hothers⟩
    · exact Or.inr hidle
    · refine Or.inl ⟨hold, ?_⟩
      have howner := hinv.owner_ne hq hothers
      rw [hop] at howner
      exact howner

/-- **A connection is made.** -/
theorem Talks.accepted (h : Talks Sends log s) (hinv : Inv I s) (hq : q ∈ s.inflight) (fd : ℕ) :
    Talks Sends (log ++ [Note.act (.accept s.conns.next), .ret 0, .ret 0]) (s.accepted q fd) := by
  have hidle : phase s.conns.next (acts log ++ [Act.accept s.conns.next]) = some .idle :=
    phase_concat_of_turn (h.closed _ (load_next s.conns)) rfl rfl
  refine h.update (c := s.conns.next) ?_ ?_ ?_ ?_ ?_
  · exact List.forall_mem_singleton.mpr rfl
  · exact List.forall_mem_singleton.mpr trivial
  · intro c' hc'
    simp [Proactor.accepted, hc']
  · intro hnone
    simp [Proactor.accepted] at hnone
  · intro q' hq'
    have hcons := (((perm_outstanding_concat _).cons _).trans (perm_outstanding_concat _)).mem_iff.mpr
      hq'
    rcases List.mem_cons.mp hcons with rfl | hcons
    · exact Or.inr trivial
    rcases List.mem_cons.mp hcons with rfl | hothers
    · exact Or.inr hidle
    · have hold : q' ∈ s.outstanding :=
        (outstanding_perm hq).mem_iff.mpr (List.mem_cons_of_mem _ hothers)
      exact Or.inl ⟨hold, hinv.owner_ne_next hold⟩

/-- **Completions keep every connection to its turns**, if a send of something
does not fail. -/
theorem talks_keptBy (hcopies : Copies ops) (hshort : ∀ {engine}, I engine → (ops.strs engine).All Short)
    (hsome : ∀ len, 0 < len → ¬ Sends len none) :
    KeptBy ops (Completion.Sending Sends) I (Talks Sends) := by
  intro log s cqe notes s' h hinv hq hA hout
  cases hout with
  | waits hop =>
    refine h.update (c := s.conns.next) ?_ ?_ (fun _ _ => rfl) (fun hnone => ?_) ?_
    · exact fun a ha => absurd ha List.not_mem_nil
    · exact fun a ha => absurd ha List.not_mem_nil
    · show phase _ (acts log ++ []) = _
      rw [List.append_nil]
      exact h.closed _ hnone
    · intro q' hq'
      rcases mem_outstanding_rearm hq hq' with rfl | ⟨hold, -⟩
      · exact Or.inr trivial
      · exact Or.inl ⟨hold, hinv.owner_ne_next hold⟩
  | accepts fd hop => exact h.accepted hinv hq fd
  | @drops c hc hsend =>
    have hidle := h.idle_of_drops hsome hq hA hc hsend
    refine h.update (c := c) ?_ ?_ ?_ ?_ ?_
    · exact List.forall_mem_singleton.mpr rfl
    · exact List.forall_mem_singleton.mpr trivial
    · intro c' hc'
      exact (Heap.load_erase _ _ _).trans (if_neg hc')
    · exact fun _ => phase_concat_of_turn hidle rfl rfl
    · intro q' hq'
      have howner := hinv.owner_ne hq hq'
      rw [hc] at howner
      exact Or.inl ⟨(outstanding_perm hq).mem_iff.mpr (List.mem_cons_of_mem _ hq'), howner⟩
  | serves hop hload hrecv hserve hprint =>
    exact h.serves hcopies (hshort hinv.engine) hinv hq hop hload (hA.1 _ hrecv) hserve hprint
  | sends hop hload hsend => exact h.sends_some hinv hq hA hop hload hsend

/-- **The loop is entered with every connection closed.** -/
theorem start_talks (engine : E) : Talks Sends [] (start engine) where
  closed := fun _ _ => rfl
  agrees := by
    intro q hq
    rw [List.mem_singleton.mp hq]
    trivial
  sends := fun a ha => absurd ha List.not_mem_nil

theorem Talks.submitted (h : Talks Sends log s) : Talks Sends log s.submitted :=
  ⟨h.closed, fun q hq => h.agrees q ((outstanding_submitted s).mem_iff.mpr hq), h.sends⟩

/-- **Every connection takes turns** in every reachable state. -/
theorem reach_talks (e : Engine) (hsome : ∀ len, 0 < len → ¬ Sends len none)
    {garbage : Vector KvsArrayItem KVS_ARRAY_SIZE} {env₀ : Env} {s₀ : e.State}
    (hinit : e.initKvengine garbage env₀ = some s₀) {s : Proactor e.State}
    (h : (machine e.ops).Reach (Kernel (Completion.Sending Sends)) (start s₀) log s) :
    Inv (fun engine => (e.ops.strs engine).All Short) s ∧ Talks Sends log s := by
  have hkeeps : Keeps e.ops (Completion.Sending Sends)
      (fun engine => (e.ops.strs engine).All Short) :=
    ⟨id, fun hengine _ hrecv hserve => (keeps_short e).serve hengine trivial hrecv hserve⟩
  obtain ⟨hinv, htalks, -⟩ := reach_inv e.copies hkeeps (talks_keptBy e.copies id hsome)
    (fun _ _ _ ht => ht.submitted) (e.init_all Short garbage env₀ s₀ hinit) (start_talks s₀) h
  exact ⟨hinv, htalks⟩

/-- A connection of the proactor has a phase. -/
theorem Talks.exists_phase (h : Talks Sends log s) (hinv : Inv I s) (c : Ptr) :
    ∃ ph, phase c (acts log) = some ph := by
  cases hload : s.conns.load c with
  | none => exact ⟨_, h.closed c hload⟩
  | some x =>
    have hmem := (hinv.owned.mem_owner (some c)).mpr (Or.inr ⟨c, rfl, by rw [hload]; rfl⟩)
    obtain ⟨q, hq, howner⟩ := List.mem_map.mp hmem
    have hagrees := h.agrees q hq
    cases hop : q.op with
    | accept =>
      rw [hop] at howner
      cases howner
    | recv c' =>
      rw [hop] at howner hagrees
      obtain rfl := Option.some.inj howner
      exact ⟨_, hagrees⟩
    | send c' len =>
      rw [hop] at howner hagrees
      obtain rfl := Option.some.inj howner
      obtain ⟨r, -, hphase, -⟩ := hagrees
      exact ⟨_, hphase⟩

end Talk

end Proactor
