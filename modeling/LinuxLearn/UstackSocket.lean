import LinuxLearn.Simulation
import LinuxLearn.UstackStack

/-!
# What a descriptor names

Three kinds of objects of the user-space stack have descriptors: the UDP
hosts, the TCP streams that were made by `nsocket` or accepted, and the
epoll object. The bits of `fd_table` should be the descriptors of these
objects, no two of them should share one, and a descriptor should name
what it was given out for last, until it is closed.

Closing is where this fails. `nclose` on a stream gives the descriptor
back while the stream keeps it until its last ACK, on a listener it does
the opposite, and on an epoll object it does nothing at all. The other
calls fail only where descriptors run out, or for a second epoll object
or a type of socket that is unknown. These are all (`names_last_given`).
-/

namespace Ustack

/-- **An object**, by its kind and its address. -/
inductive Ref where
  | udp (p : Ptr)
  | tcp (p : Ptr)
  | epoll (p : Ptr)
deriving DecidableEq

/-- Which object was found. -/
def Host.ref : Host → Ref
  | udp p _ => .udp p
  | tcp p _ => .tcp p
  | epoll p _ => .epoll p

namespace Stack

/-- **An object has a descriptor.** A stream that was not accepted has none. -/
def Names (s : Stack) : Ref → ℤ → Prop
  | .udp p, fd => ∃ host, (p, host) ∈ s.lhost ∧ host.fd = fd
  | .tcp p, fd => ∃ stream, (p, stream) ∈ s.tcbSet ∧ stream.fd = fd ∧ 0 ≤ fd
  | .epoll p, fd => ∃ ep, s.ep = some (p, ep) ∧ ep.fd = fd

/-- What the application is told: it is given a descriptor for an object, or it
has closed one. -/
inductive Note where
  | gave (fd : ℤ) (ref : Ref)
  | closed (fd : ℤ)

/-- The effect of an entry of the log on what a descriptor was given for last. -/
def Note.owner (fd : ℤ) (o : Option Ref) : Note → Option Ref
  | gave fd' ref => if fd' = fd then some ref else o
  | closed fd' => if fd' = fd then none else o

/-- **What a descriptor was last given for**, and not closed since. -/
def owner (fd : ℤ) (log : List Note) : Option Ref := log.foldl (Note.owner fd) none

/-- The calls of the application, and a segment. -/
inductive Call where
  | nsocket (type : SockType)
  | nbind (sockfd : ℤ) (addr : SockaddrIn)
  | nlisten (sockfd : ℤ)
  | naccept (sockfd : ℤ)
  | nepollCreate (size : ℤ)
  | nclose (fd : ℤ) (garbage : TcpFragment)
  | segment (seg : TcpSegment) (iss garbage : UInt32)

/-- The stream `naccept` would accept. -/
def acceptTarget (s : Stack) (sockfd : ℤ) : Option Ptr :=
  match s.getHostinfoFromfd sockfd with
  | some (.tcp _ stream) => (s.getAcceptTcb stream.dport).map Prod.fst
  | _ => none

/-- **One call**, allocations succeeding, and what the application is told. -/
def step (s : Stack) : Call → Except Stop (List Note × Stack)
  | .nsocket type =>
    let (fd, s') := s.nsocket type (fun _ => true)
    let notes := match type with
      | .dgram => [.gave fd (.udp s.next)]
      | .stream => [.gave fd (.tcp s.next)]
      | .other => []
    .ok (notes, s')
  | .nbind sockfd addr => do
    let (_, s) ← s.nbind sockfd addr
    return ([], s)
  | .nlisten sockfd => do
    let (_, s) ← s.nlisten sockfd
    return ([], s)
  | .naccept sockfd => do
    let (fd, _, s') ← s.naccept sockfd
    return ((s.acceptTarget sockfd).toList.map (fun p => .gave fd (.tcp p)), s')
  | .nepollCreate size => do
    let (epfd, s') ← s.nepollCreate size true
    return (if size ≤ 0 then [] else [.gave epfd (.epoll s.next)], s')
  | .nclose fd garbage => do
    let (_, s) ← s.nclose fd true garbage
    return ([.closed fd], s)
  | .segment seg iss garbage => do
    let (_, s) ← s.ngTcpProcess seg ⟨fun _ => true, iss, garbage⟩
    return ([], s)

/-- The stack as a machine. -/
def machine : Machine Stack Call (List Note) := fun s call => (step s call).toOption

/-- A descriptor is left to be given out. -/
def HasFree (s : Stack) : Prop :=
  ∃ fd : ℕ, DEFAULT_FD_NUM ≤ fd ∧ fd < MAX_FD_COUNT ∧ ¬ s.fdTable.Taken fd

/-- **A call that keeps descriptors apart**: it closes nothing but a UDP host,
makes no second epoll object and no socket of an unknown type, and finds a
descriptor for a UDP host or an epoll object. -/
def Call.Safe (s : Stack) : Call → Prop
  | .nsocket .dgram => s.HasFree
  | .nsocket .stream => True
  | .nsocket .other => ¬ s.HasFree
  | .nepollCreate size => size ≤ 0 ∨ (s.ep = none ∧ s.HasFree)
  | .nclose fd _ =>
    match s.getHostinfoFromfd fd with
    | some (.tcp _ _) => fd < 0
    | some (.epoll _ _) => False
    | _ => True
  | _ => True

/-- **A descriptor names one object**, the bits set are the descriptors there
are, and what is looked up is what was given out last and not closed. -/
structure Sound (log : List Note) (s : Stack) : Prop where
  unique : ∀ {r r' fd}, s.Names r fd → s.Names r' fd → r = r'
  nonneg : ∀ {r fd}, s.Names r fd → 0 ≤ fd
  taken_iff : ∀ fd : ℕ, s.fdTable.Taken fd ↔ ∃ r, s.Names r fd
  last : ∀ fd, 0 ≤ fd → (s.getHostinfoFromfd fd).map Host.ref = owner fd log

/-! ## The invariant -/

/-- **Objects have addresses of their own.** -/
structure Formed (s : Stack) : Prop where
  lhost_distinct : s.lhost.Distinct
  tcbSet_distinct : s.tcbSet.Distinct
  lhost_below : s.lhost.Below s.next
  tcbSet_below : s.tcbSet.Below s.next

/-- **The invariant**: what has a descriptor is what it was given for last. No
stream waits for its last ACK. -/
structure Inv (log : List Note) (s : Stack) : Prop where
  names_iff : ∀ r fd, s.Names r fd ↔ 0 ≤ fd ∧ owner fd log = some r
  taken_iff : ∀ fd : ℕ, s.fdTable.Taken fd ↔ ∃ r, s.Names r fd
  lt : ∀ {r fd}, s.Names r fd → fd < MAX_FD_COUNT
  formed : s.Formed
  noLastAck : ∀ x ∈ s.tcbSet, x.2.status ≠ .lastAck

section Inv

variable {s s' : Stack} {log out : List Note} {fd : ℤ} {r : Ref}

theorem owner_append (fd : ℤ) (log out : List Note) :
    owner fd (log ++ out) = out.foldl (Note.owner fd) (owner fd log) := List.foldl_append

/-- What is found has the descriptor, and what has it is found. -/
theorem names_of_getHostinfo {host : Host} (h : s.getHostinfoFromfd fd = some host) (hfd : 0 ≤ fd) :
    s.Names host.ref fd := by
  have hholds := holds_of_getHostinfo h
  cases host with
  | udp p x => exact ⟨x, hholds⟩
  | tcp p x => exact ⟨x, hholds.1, hholds.2, hfd⟩
  | epoll p x => exact ⟨x, hholds⟩

theorem getHostinfo_of_names (h : s.Names r fd) :
    ∃ host, s.getHostinfoFromfd fd = some host := by
  refine Option.ne_none_iff_exists'.mp ?_
  cases r with
  | udp p =>
    obtain ⟨x, hx⟩ := h
    exact getHostinfo_ne_none (.udp p x) hx
  | tcp p =>
    obtain ⟨x, hx, hfd, -⟩ := h
    exact getHostinfo_ne_none (.tcp p x) ⟨hx, hfd⟩
  | epoll p =>
    obtain ⟨x, hx⟩ := h
    exact getHostinfo_ne_none (.epoll p x) hx

/-- **The invariant gives what is claimed.** -/
theorem Inv.sound (h : Inv log s) : Sound log s where
  unique := by
    intro r r' fd hr hr'
    exact Option.some.inj (((h.names_iff r fd).mp hr).2.symm.trans ((h.names_iff r' fd).mp hr').2)
  nonneg := fun hr => ((h.names_iff _ _).mp hr).1
  taken_iff := h.taken_iff
  last := by
    intro fd hfd
    cases hhost : s.getHostinfoFromfd fd with
    | some host => exact (((h.names_iff host.ref fd).mp (names_of_getHostinfo hhost hfd)).2).symm
    | none =>
      cases howner : owner fd log with
      | none => rfl
      | some r =>
        obtain ⟨host, hhost'⟩ := getHostinfo_of_names ((h.names_iff r fd).mpr ⟨hfd, howner⟩)
        cases hhost.symm.trans hhost'

/-- What is given out under another descriptor. -/
theorem owner_gave_of_ne {fd' : ℤ} (hne : fd' ≠ fd) (log : List Note) (ref : Ref) :
    owner fd (log ++ [Note.gave fd' ref]) = owner fd log := by
  rw [owner_append]
  exact if_neg hne

theorem owner_gave_self (fd : ℤ) (log : List Note) (ref : Ref) :
    owner fd (log ++ [Note.gave fd ref]) = some ref := by
  rw [owner_append]
  exact if_pos rfl

theorem owner_closed_of_ne {fd' : ℤ} (hne : fd' ≠ fd) (log : List Note) :
    owner fd (log ++ [Note.closed fd']) = owner fd log := by
  rw [owner_append]
  exact if_neg hne

theorem owner_closed_self (fd : ℤ) (log : List Note) : owner fd (log ++ [Note.closed fd]) = none := by
  rw [owner_append]
  exact if_pos rfl

/-- A bit that is free is nobody's. -/
theorem Inv.owner_of_free (h : Inv log s) {n : ℕ} (hfree : ¬ s.fdTable.Taken n) :
    owner (n : ℤ) log = none := by
  cases howner : owner (n : ℤ) log with
  | none => rfl
  | some r =>
    exact absurd ((h.taken_iff n).mpr ⟨r, (h.names_iff r n).mpr ⟨Int.natCast_nonneg n, howner⟩⟩) hfree

/-- **Nothing is given out or closed.** -/
theorem Inv.quiet (h : Inv log s) (hnames : ∀ r fd, s'.Names r fd ↔ s.Names r fd)
    (hfdTable : s'.fdTable = s.fdTable) (hformed : s'.Formed)
    (hlast : ∀ x ∈ s'.tcbSet, x.2.status ≠ .lastAck)
    (howner : ∀ fd, 0 ≤ fd → owner fd (log ++ out) = owner fd log) : Inv (log ++ out) s' where
  names_iff := by
    intro r fd
    rw [hnames, h.names_iff]
    exact and_congr_right (fun hfd => by rw [howner fd hfd])
  taken_iff := by
    intro fd
    rw [hfdTable, h.taken_iff]
    exact exists_congr (fun r => (hnames r fd).symm)
  lt := fun hr => h.lt ((hnames _ _).mp hr)
  formed := hformed
  noLastAck := hlast

/-- Nor is anything told. -/
theorem Inv.silent (h : Inv log s) (hnames : ∀ r fd, s'.Names r fd ↔ s.Names r fd)
    (hfdTable : s'.fdTable = s.fdTable) (hformed : s'.Formed)
    (hlast : ∀ x ∈ s'.tcbSet, x.2.status ≠ .lastAck) : Inv log s' := by
  rw [← List.append_nil log]
  exact h.quiet hnames hfdTable hformed hlast (fun _ _ => by rw [List.append_nil])

/-- **A descriptor is given out** for an object that had none. -/
theorem Inv.give (h : Inv log s) {ref : Ref} {n : ℕ} (hlt : n < MAX_FD_COUNT)
    (hfree : ¬ s.fdTable.Taken n)
    (htaken : ∀ m, s'.fdTable.Taken m ↔ m = n ∨ s.fdTable.Taken m)
    (hnames : ∀ r fd, s'.Names r fd ↔ (r = ref ∧ fd = n) ∨ s.Names r fd) (hformed : s'.Formed)
    (hlast : ∀ x ∈ s'.tcbSet, x.2.status ≠ .lastAck) : Inv (log ++ [Note.gave n ref]) s' where
  names_iff := by
    intro r fd
    rw [hnames]
    by_cases hfd : fd = n
    · subst hfd
      rw [owner_gave_self, Option.some_inj]
      have hnone : ¬ s.Names r n := by
        rw [h.names_iff, h.owner_of_free hfree]
        exact fun hr => nomatch hr.2
      simp [hnone, eq_comm]
    · rw [owner_gave_of_ne (Ne.symm hfd), ← h.names_iff]
      simp [hfd]
  taken_iff := by
    intro m
    rw [htaken, h.taken_iff]
    simp only [hnames, exists_or, Nat.cast_inj]
    simp
  lt := by
    intro r fd hr
    rcases (hnames r fd).mp hr with ⟨-, rfl⟩ | hr
    · exact Int.ofNat_lt.mpr hlt
    · exact h.lt hr
  formed := hformed
  noLastAck := hlast

/-- **A descriptor is closed**, and its object gone. -/
theorem Inv.take (h : Inv log s) {n : ℕ}
    (htaken : ∀ m, s'.fdTable.Taken m ↔ m ≠ n ∧ s.fdTable.Taken m)
    (hnames : ∀ r fd, s'.Names r fd ↔ fd ≠ n ∧ s.Names r fd) (hformed : s'.Formed)
    (hlast : ∀ x ∈ s'.tcbSet, x.2.status ≠ .lastAck) : Inv (log ++ [Note.closed n]) s' where
  names_iff := by
    intro r fd
    rw [hnames, h.names_iff]
    by_cases hfd : fd = n
    · subst hfd
      rw [owner_closed_self]
      simp
    · rw [owner_closed_of_ne (Ne.symm hfd)]
      simp [hfd]
  taken_iff := by
    intro m
    rw [htaken, h.taken_iff]
    simp only [hnames, exists_and_left, Ne, Nat.cast_inj]
  lt := fun hr => h.lt ((hnames _ _).mp hr).2
  formed := hformed
  noLastAck := hlast

/-! ## Who has a descriptor after a change -/

variable {p : Ptr} {stream stream' : TcpStream}

/-- A stream is written to. -/
theorem names_setStream (hmem : (p, stream) ∈ s.tcbSet) (r : Ref) (fd : ℤ) :
    (s.setStream p stream').Names r fd
      ↔ (r = .tcp p ∧ stream'.fd = fd ∧ 0 ≤ fd) ∨ (r ≠ .tcp p ∧ s.Names r fd) := by
  cases r with
  | udp q => simp [Names, setStream]
  | epoll q => simp [Names, setStream]
  | tcp q =>
    show (∃ x, (q, x) ∈ NodeList.update s.tcbSet p (fun _ => stream') ∧ x.fd = fd ∧ 0 ≤ fd) ↔ _
    simp only [NodeList.mem_update, Prod.mk.injEq, Ne, Ref.tcp.injEq]
    constructor
    · rintro ⟨x, ⟨hq, hx⟩ | ⟨a, -, rfl, rfl⟩, hfd⟩
      · exact Or.inr ⟨hq, x, hx, hfd⟩
      · exact Or.inl ⟨rfl, hfd⟩
    · rintro (⟨rfl, hfd⟩ | ⟨hq, x, hx, hfd⟩)
      · exact ⟨stream', Or.inr ⟨stream, hmem, rfl, rfl⟩, hfd⟩
      · exact ⟨x, Or.inl ⟨hq, hx⟩, hfd⟩

theorem names_tcp_iff (hformed : s.Formed) (hmem : (p, stream) ∈ s.tcbSet) :
    s.Names (.tcp p) fd ↔ stream.fd = fd ∧ 0 ≤ fd := by
  constructor
  · rintro ⟨x, hx, hfd⟩
    obtain rfl := hformed.tcbSet_distinct.eq hmem hx
    exact hfd
  · exact fun hfd => ⟨stream, hmem, hfd⟩

/-- A stream is written to, but its descriptor. -/
theorem names_setStream_of_eq (hformed : s.Formed) (hmem : (p, stream) ∈ s.tcbSet)
    (hfd : stream'.fd = stream.fd) (r : Ref) (fd : ℤ) :
    (s.setStream p stream').Names r fd ↔ s.Names r fd := by
  rw [names_setStream hmem]
  by_cases hr : r = .tcp p
  · subst hr
    rw [names_tcp_iff hformed hmem, hfd]
    simp
  · simp [hr]

/-- A stream is added. -/
theorem names_cons_tcb (stream : TcpStream) (q : Ptr) (r : Ref) (fd : ℤ) :
    ({ s with tcbSet := (q, stream) :: s.tcbSet, next := s.next + 1 } : Stack).Names r fd
      ↔ (r = .tcp q ∧ stream.fd = fd ∧ 0 ≤ fd) ∨ s.Names r fd := by
  cases r with
  | udp q' => simp [Names]
  | epoll q' => simp [Names]
  | tcp q' =>
    simp only [Names, List.mem_cons, Prod.mk.injEq, Ref.tcp.injEq]
    constructor
    · rintro ⟨x, ⟨rfl, rfl⟩ | hx, hfd⟩
      · exact Or.inl ⟨rfl, hfd⟩
      · exact Or.inr ⟨x, hx, hfd⟩
    · rintro (⟨rfl, hfd⟩ | ⟨x, hx, hfd⟩)
      · exact ⟨stream, Or.inl ⟨rfl, rfl⟩, hfd⟩
      · exact ⟨x, Or.inr hx, hfd⟩

theorem Formed.setStream (h : s.Formed) (p : Ptr) (stream : TcpStream) :
    (s.setStream p stream).Formed :=
  ⟨h.lhost_distinct, h.tcbSet_distinct.update (p := p) (f := fun _ => stream), h.lhost_below,
    h.tcbSet_below.update (p := p) (f := fun _ => stream)⟩

theorem Formed.cons_tcb (h : s.Formed) (stream : TcpStream) :
    ({ s with tcbSet := (s.next, stream) :: s.tcbSet, next := s.next + 1 } : Stack).Formed :=
  ⟨h.lhost_distinct, h.tcbSet_distinct.cons h.tcbSet_below stream,
    h.lhost_below.mono s.next.le_succ, h.tcbSet_below.cons stream⟩

theorem Formed.setFdTable (h : s.Formed) (t : FdTable) : ({ s with fdTable := t } : Stack).Formed :=
  ⟨h.lhost_distinct, h.tcbSet_distinct, h.lhost_below, h.tcbSet_below⟩

/-- A UDP host is added. -/
theorem names_cons_udp (q : Ptr) (host : Localhost) (r : Ref) (fd : ℤ) :
    ({ s with lhost := (q, host) :: s.lhost, next := s.next + 1 } : Stack).Names r fd
      ↔ (r = .udp q ∧ host.fd = fd) ∨ s.Names r fd := by
  cases r with
  | tcp q' => simp [Names]
  | epoll q' => simp [Names]
  | udp q' =>
    simp only [Names, List.mem_cons, Prod.mk.injEq, Ref.udp.injEq]
    constructor
    · rintro ⟨x, ⟨rfl, rfl⟩ | hx, hfd⟩
      · exact Or.inl ⟨rfl, hfd⟩
      · exact Or.inr ⟨x, hx, hfd⟩
    · rintro (⟨rfl, hfd⟩ | ⟨x, hx, hfd⟩)
      · exact ⟨host, Or.inl ⟨rfl, rfl⟩, hfd⟩
      · exact ⟨x, Or.inr hx, hfd⟩

theorem Formed.cons_udp (h : s.Formed) (host : Localhost) :
    ({ s with lhost := (s.next, host) :: s.lhost, next := s.next + 1 } : Stack).Formed :=
  ⟨h.lhost_distinct.cons h.lhost_below host, h.tcbSet_distinct, h.lhost_below.cons host,
    h.tcbSet_below.mono s.next.le_succ⟩

/-- A UDP host is written to, but its descriptor. -/
theorem names_update_udp {f : Localhost → Localhost} (hf : ∀ host, (f host).fd = host.fd) (q : Ptr)
    (r : Ref) (fd : ℤ) :
    ({ s with lhost := s.lhost.update q f } : Stack).Names r fd ↔ s.Names r fd := by
  cases r with
  | tcp q' => exact Iff.rfl
  | epoll q' => exact Iff.rfl
  | udp q' =>
    simp only [Names, NodeList.mem_update, Prod.mk.injEq]
    constructor
    · rintro ⟨x, ⟨-, hx⟩ | ⟨a, ha, rfl, rfl⟩, hfd⟩
      · exact ⟨x, hx, hfd⟩
      · exact ⟨a, ha, (hf a).symm.trans hfd⟩
    · rintro ⟨x, hx, hfd⟩
      by_cases hq : q' = q
      · subst hq
        exact ⟨f x, Or.inr ⟨x, hx, rfl, rfl⟩, (hf x).trans hfd⟩
      · exact ⟨x, Or.inl ⟨hq, hx⟩, hfd⟩

theorem Formed.update_udp (h : s.Formed) (q : Ptr) (f : Localhost → Localhost) :
    ({ s with lhost := s.lhost.update q f } : Stack).Formed :=
  ⟨h.lhost_distinct.update, h.tcbSet_distinct, h.lhost_below.update, h.tcbSet_below⟩

/-- A UDP host is taken out. -/
theorem names_remove_udp (q : Ptr) (r : Ref) (fd : ℤ) :
    ({ s with lhost := s.lhost.remove q } : Stack).Names r fd ↔ r ≠ .udp q ∧ s.Names r fd := by
  cases r with
  | tcp q' => simp [Names]
  | epoll q' => simp [Names]
  | udp q' =>
    simp only [Names, NodeList.mem_remove, Ne, Ref.udp.injEq]
    constructor
    · rintro ⟨x, ⟨hx, hq⟩, hfd⟩
      exact ⟨hq, x, hx, hfd⟩
    · rintro ⟨hq, x, hx, hfd⟩
      exact ⟨x, ⟨hx, hq⟩, hfd⟩

/-- A stream is taken out. -/
theorem names_remove_tcb (q : Ptr) (r : Ref) (fd : ℤ) :
    ({ s with tcbSet := s.tcbSet.remove q } : Stack).Names r fd ↔ r ≠ .tcp q ∧ s.Names r fd := by
  cases r with
  | udp q' => simp [Names]
  | epoll q' => simp [Names]
  | tcp q' =>
    simp only [Names, NodeList.mem_remove, Ne, Ref.tcp.injEq]
    constructor
    · rintro ⟨x, ⟨hx, hq⟩, hfd⟩
      exact ⟨hq, x, hx, hfd⟩
    · rintro ⟨hq, x, hx, hfd⟩
      exact ⟨x, ⟨hx, hq⟩, hfd⟩

/-- The epoll object is written to, but its descriptor. -/
theorem names_setEp {q : Ptr} {ep ep' : Eventpoll} (hep : s.ep = some (q, ep)) (hfd : ep'.fd = ep.fd)
    (r : Ref) (fd : ℤ) :
    ({ s with ep := some (q, ep') } : Stack).Names r fd ↔ s.Names r fd := by
  cases r with
  | udp q' => exact Iff.rfl
  | tcp q' => exact Iff.rfl
  | epoll q' => simp [Names, hep, hfd]

/-- A property of all streams after one was written to. -/
theorem forall_setStream {Q : TcpStream → Prop} (h : ∀ x ∈ s.tcbSet, Q x.2) (hstream : Q stream) :
    ∀ x ∈ (s.setStream p stream).tcbSet, Q x.2 := by
  intro x hx
  rcases mem_setStream.mp hx with ⟨-, hx⟩ | ⟨a, -, rfl⟩
  · exact h x hx
  · exact hstream

/-! ## Segments -/

/-- The epoll object is told of something, and nothing else is. -/
theorem Inv.setEp (h : Inv log s) {q : Ptr} {ep ep' : Eventpoll} (hep : s.ep = some (q, ep))
    (hfd : ep'.fd = ep.fd) : Inv log { s with ep := some (q, ep') } :=
  h.silent (names_setEp hep hfd) rfl
    ⟨h.formed.lhost_distinct, h.formed.tcbSet_distinct, h.formed.lhost_below, h.formed.tcbSet_below⟩
    h.noLastAck

/-- A stream that keeps its descriptor is written to. -/
theorem Inv.setStream (h : Inv log s) (hmem : (p, stream) ∈ s.tcbSet)
    (hfd : stream'.fd = stream.fd) (hstatus : stream'.status ≠ .lastAck) :
    Inv log (s.setStream p stream') :=
  h.silent (names_setStream_of_eq h.formed hmem hfd) rfl (h.formed.setStream p stream')
    (forall_setStream (Q := fun stream => stream.status ≠ .lastAck) h.noLastAck hstatus)

/-- A PSH or a FIN is received. -/
theorem Inv.receive (h : Inv log s) (hmem : (p, stream) ∈ s.tcbSet) {stream₀ : TcpStream}
    (hfd : stream₀.fd = stream.fd) (hstatus : stream₀.status ≠ .lastAck) {seg : TcpSegment}
    {tcplen : ℤ} {advance : UInt32} {malloc : ℕ → Bool}
    (hreceive : Stack.receive s p stream₀ seg tcplen advance malloc = .ok (stream', s')) :
    Inv log s' ∧ (p, stream') ∈ s'.tcbSet ∧ stream'.fd = stream.fd := by
  obtain ⟨hreceived, q, ep, ret, ep', hep, hcallback, rfl⟩ := receive_eq_ok hreceive
  have hfd' : stream'.fd = stream.fd := hreceived.fd_eq.trans hfd
  have hset := h.setStream hmem hfd' (by rw [hreceived.status_eq]; exact hstatus)
  refine ⟨hset.setEp hep (Eventpoll.callback_frame hcallback).1, ?_, hfd'⟩
  exact mem_setStream.mpr (Or.inr ⟨stream, hmem, rfl⟩)

/-- **A segment** gives out nothing and closes nothing. -/
theorem Inv.segment (h : Inv log s) {seg : TcpSegment} (hprocessed : Processed s seg s') :
    Inv log s' := by
  cases hprocessed with
  | nothing => exact h
  | opened syn hfd hrcvbuf hstatus =>
    refine h.silent (fun r fd => ?_) rfl (h.formed.cons_tcb syn) ?_
    · rw [names_cons_tcb, hfd]
      refine or_iff_right ?_
      rintro ⟨-, rfl, hneg⟩
      exact absurd hneg (by decide)
    · refine List.forall_mem_cons.mpr ⟨?_, h.noLastAck⟩
      rcases hstatus with hstatus | hstatus
      · show syn.status ≠ _
        rw [hstatus]
        decide
      · show syn.status ≠ _
        rw [hstatus]
        decide
  | @handshake p q stream listener s' hsearch hstatus hack hlistener hcallback =>
    obtain ⟨q, ep, ret, ep', hep, hret, rfl⟩ := callback_eq_ok hcallback
    have hne : TcpStatus.established ≠ .lastAck := by decide
    have hset : Inv log (s.setStream p { stream with status := .established }) :=
      h.setStream (mem_of_search hsearch) rfl hne
    exact hset.setEp hep (Eventpoll.callback_frame hret).1
  | pushed hsearch hstatus hpsh hfin hreceive =>
    refine (h.receive (mem_of_search hsearch) rfl ?_ hreceive).1
    rw [hstatus]
    decide
  | finished hsearch hstatus hpsh hfin hreceive =>
    refine (h.receive (mem_of_search hsearch) ?_ ?_ hreceive).1
    · rfl
    · show TcpStatus.closeWait ≠ .lastAck
      decide
  | both hsearch hstatus hpsh hfin hreceive hreceive' =>
    obtain ⟨h₁, hmem₁, -⟩ := h.receive (mem_of_search hsearch) rfl (by rw [hstatus]; decide) hreceive
    refine (h₁.receive hmem₁ ?_ ?_ hreceive').1
    · rfl
    · show TcpStatus.closeWait ≠ .lastAck
      decide
  | removed hsearch hstatus => exact absurd hstatus (h.noLastAck _ (mem_of_search hsearch))

/-! ## Calls -/

/-- Which fields matter for who has a descriptor. -/
theorem names_congr_fdTable (t : FdTable) (r : Ref) (fd : ℤ) :
    ({ s with fdTable := t } : Stack).Names r fd ↔ s.Names r fd := by
  cases r <;> exact Iff.rfl

/-- A descriptor below zero is not looked at. -/
theorem owner_gave_neg (log : List Note) (ref : Ref) {fd : ℤ} (hfd : 0 ≤ fd) :
    owner fd (log ++ [Note.gave (-1) ref]) = owner fd log :=
  owner_gave_of_ne (by omega) log ref

/-- **`nsocket` for UDP**, with a descriptor left. -/
theorem Inv.nsocket_dgram (h : Inv log s) (hfree : s.HasFree) :
    Inv (log ++ [Note.gave (s.nsocket .dgram (fun _ => true)).1 (.udp s.next)])
      (s.nsocket .dgram (fun _ => true)).2 := by
  obtain ⟨n, -, hlt, hn, hfst, htaken⟩ | ⟨-, hfull⟩ := s.fdTable.getFdFrombitmap_cases
  · have hfd : (s.nsocket .dgram (fun _ => true)).1 = n := hfst
    have hs : (s.nsocket .dgram (fun _ => true)).2
        = { s with
          fdTable := s.fdTable.getFdFrombitmap.2
          lhost := (s.next, ⟨s.fdTable.getFdFrombitmap.1, 0, 0⟩) :: s.lhost
          next := s.next + 1 } := rfl
    rw [hfd, hs, hfst]
    refine h.give hlt hn htaken (fun r fd => ?_) ((h.formed.setFdTable _).cons_udp _) h.noLastAck
    refine (names_cons_udp (s := s) s.next ⟨n, 0, 0⟩ r fd).trans (or_congr_left ?_)
    exact and_congr_right (fun _ => eq_comm)
  · obtain ⟨fd, hge, hlt, hnot⟩ := hfree
    exact absurd (hfull fd hge hlt) hnot

/-- **`nsocket` for TCP.** Without a descriptor left, it makes a stream that has
none. -/
theorem Inv.nsocket_stream (h : Inv log s) :
    Inv (log ++ [Note.gave (s.nsocket .stream (fun _ => true)).1 (.tcp s.next)])
      (s.nsocket .stream (fun _ => true)).2 := by
  have hs : s.nsocket .stream (fun _ => true) = (s.fdTable.getFdFrombitmap.1,
      { s with
        fdTable := s.fdTable.getFdFrombitmap.2
        tcbSet := (s.next, newStream s.fdTable.getFdFrombitmap.1) :: s.tcbSet
        next := s.next + 1 }) := rfl
  have hlast : ∀ fd, ∀ x ∈ (s.next, newStream fd) :: s.tcbSet, x.2.status ≠ .lastAck := by
    intro fd
    refine List.forall_mem_cons.mpr ⟨?_, h.noLastAck⟩
    show TcpStatus.closed ≠ .lastAck
    decide
  rw [hs]
  obtain ⟨n, -, hlt, hn, hfst, htaken⟩ | ⟨hnone, -⟩ := s.fdTable.getFdFrombitmap_cases
  · rw [hfst]
    refine h.give hlt hn htaken (fun r fd => ?_) ((h.formed.setFdTable _).cons_tcb _) (hlast n)
    refine (names_cons_tcb (s := s) (newStream n) s.next r fd).trans (or_congr_left ?_)
    refine and_congr_right (fun _ => ?_)
    constructor
    · exact fun hfd => hfd.1.symm
    · rintro rfl
      exact ⟨rfl, Int.natCast_nonneg n⟩
  · rw [hnone]
    refine h.quiet (fun r fd => ?_) rfl ((h.formed.setFdTable _).cons_tcb _) (hlast (-1))
      (fun fd hfd => owner_gave_neg log _ hfd)
    refine (names_cons_tcb (s := s) (newStream (-1)) s.next r fd).trans (or_iff_right ?_)
    rintro ⟨-, rfl, hneg⟩
    exact absurd hneg (by decide)

/-- **`nsocket` for another type**, with no descriptor left. -/
theorem nsocket_other_of_full (hfull : ¬ s.HasFree) : s.nsocket .other (fun _ => true) = (-1, s) := by
  obtain ⟨n, hge, hlt, hn, -⟩ | ⟨hnone, -⟩ := s.fdTable.getFdFrombitmap_cases
  · exact absurd ⟨n, hge, hlt, hn⟩ hfull
  · show (s.fdTable.getFdFrombitmap.1, { s with fdTable := s.fdTable.getFdFrombitmap.2 }) = _
    rw [hnone]

/-- **`nbind`.** -/
theorem Inv.nbind (h : Inv log s) {sockfd : ℤ} {addr : SockaddrIn} {ret : ℤ}
    (hok : s.nbind sockfd addr = .ok (ret, s')) : Inv log s' := by
  unfold Stack.nbind at hok
  split at hok
  · obtain ⟨-, rfl⟩ := Prod.mk.inj (Except.ok.inj hok)
    exact h
  · obtain ⟨-, rfl⟩ := Prod.mk.inj (Except.ok.inj hok)
    refine h.silent (fun r fd => ?_) rfl (h.formed.update_udp _ _) h.noLastAck
    exact names_update_udp (f := fun host => ⟨host.fd, addr.sinAddr, addr.sinPort⟩) (fun _ => rfl) _ r
      fd
  · next p stream hhost =>
    obtain ⟨-, rfl⟩ := Prod.mk.inj (Except.ok.inj hok)
    refine h.setStream (holds_of_getHostinfo hhost).1 ?_ ?_
    · rfl
    · show TcpStatus.closed ≠ .lastAck
      decide
  · split at hok
    · cases hok
    · obtain ⟨-, rfl⟩ := Prod.mk.inj (Except.ok.inj hok)
      exact h

/-- **`nlisten`.** -/
theorem Inv.nlisten (h : Inv log s) {sockfd : ℤ} {ret : ℤ}
    (hok : s.nlisten sockfd = .ok (ret, s')) : Inv log s' := by
  unfold Stack.nlisten at hok
  split at hok
  · obtain ⟨-, rfl⟩ := Prod.mk.inj (Except.ok.inj hok)
    exact h
  · obtain ⟨-, rfl⟩ := Prod.mk.inj (Except.ok.inj hok)
    exact h
  · next p stream hhost =>
    obtain ⟨-, rfl⟩ := Prod.mk.inj (Except.ok.inj hok)
    refine h.setStream (holds_of_getHostinfo hhost).1 ?_ ?_
    · rfl
    · show TcpStatus.listen ≠ .lastAck
      decide
  · split at hok
    · cases hok
    · obtain ⟨-, rfl⟩ := Prod.mk.inj (Except.ok.inj hok)
      exact h

/-- **A stream is accepted.** -/
theorem Inv.accept (h : Inv log s) {apt : TcpStream} (hmem : (p, apt) ∈ s.tcbSet)
    (hfd : apt.fd = -1) :
    Inv (log ++ [Note.gave s.fdTable.getFdFrombitmap.1 (.tcp p)])
      ({ s with fdTable := s.fdTable.getFdFrombitmap.2 }.setStream p
        { apt with fd := s.fdTable.getFdFrombitmap.1 }) := by
  have hlast : ∀ fd, ∀ x ∈ (s.setStream p { apt with fd := fd }).tcbSet, x.2.status ≠ .lastAck :=
    fun fd => forall_setStream (Q := fun stream => stream.status ≠ .lastAck) h.noLastAck
      (h.noLastAck _ hmem)
  obtain ⟨n, -, hlt, hn, hfst, htaken⟩ | ⟨hnone, -⟩ := s.fdTable.getFdFrombitmap_cases
  · rw [hfst]
    refine h.give hlt hn htaken (fun r fd => ?_) ((h.formed.setFdTable _).setStream p _) (hlast n)
    refine (names_setStream (s := { s with fdTable := s.fdTable.getFdFrombitmap.2 }) hmem r fd).trans ?_
    by_cases hr : r = .tcp p
    · subst hr
      have hnot : ¬ s.Names (.tcp p) fd := by
        rw [names_tcp_iff h.formed hmem, hfd]
        omega
      simp only [true_and, ne_eq, not_true, false_and, or_false, hnot]
      constructor
      · exact fun hx => hx.1.symm
      · rintro rfl
        exact ⟨rfl, Int.natCast_nonneg n⟩
    · simp only [hr, false_and, false_or, ne_eq, not_false_eq_true, true_and]
      exact names_congr_fdTable _ r fd
  · rw [hnone]
    refine h.quiet (fun r fd => ?_) rfl ((h.formed.setFdTable _).setStream p _) (hlast (-1))
      (fun fd hfd => owner_gave_neg log _ hfd)
    exact names_setStream_of_eq h.formed hmem hfd.symm r fd

/-- **`naccept`.** -/
theorem Inv.naccept (h : Inv log s) {sockfd fd : ℤ} {addr : Option SockaddrIn}
    (hok : s.naccept sockfd = .ok (fd, addr, s')) :
    Inv (log ++ (s.acceptTarget sockfd).toList.map (fun p => .gave fd (.tcp p))) s' := by
  unfold Stack.naccept at hok
  unfold acceptTarget
  cases hhost : s.getHostinfoFromfd sockfd with
  | none =>
    rw [hhost] at hok
    cases hok
    simpa using h
  | some host =>
    rw [hhost] at hok
    cases host with
    | udp q host =>
      cases hok
      simpa using h
    | epoll q ep =>
      simp only at hok
      split at hok
      · cases hok
      · cases hok
        simpa using h
    | tcp q stream =>
      cases happ : s.getAcceptTcb stream.dport with
      | none =>
        simp only [happ] at hok
        cases hok
      | some x =>
        obtain ⟨p, apt⟩ := x
        simp only [happ] at hok ⊢
        obtain ⟨rfl, -, rfl⟩ := hok
        exact h.accept (NodeList.mem_of_first happ) (NodeList.holds_of_first happ).2

theorem nepollCreate_eq {size : ℤ} (hsize : ¬ size ≤ 0) :
    s.nepollCreate size true = .ok (s.fdTable.getFdFrombitmap.1,
      { s with
        fdTable := s.fdTable.getFdFrombitmap.2
        ep := some (s.next, Eventpoll.create s.fdTable.getFdFrombitmap.1)
        next := s.next + 1 }) := if_neg hsize

/-- **`nepoll_create`**, for the first object. -/
theorem Inv.nepollCreate (h : Inv log s) {size epfd : ℤ} (hsize : ¬ size ≤ 0) (hep : s.ep = none)
    (hfree : s.HasFree) (hok : s.nepollCreate size true = .ok (epfd, s')) :
    Inv (log ++ [Note.gave epfd (.epoll s.next)]) s' := by
  rw [nepollCreate_eq hsize] at hok
  obtain ⟨rfl, rfl⟩ := Prod.mk.inj (Except.ok.inj hok)
  obtain ⟨n, -, hlt, hn, hfst, htaken⟩ | ⟨-, hfull⟩ := s.fdTable.getFdFrombitmap_cases
  · rw [hfst]
    refine h.give hlt hn htaken (fun r fd => ?_) ?_ h.noLastAck
    · cases r with
      | udp q => simp [Names]
      | tcp q => simp [Names]
      | epoll q =>
        simp only [Names, hep, Option.some.injEq, Prod.mk.injEq, Ref.epoll.injEq, reduceCtorEq,
          false_and, exists_false, or_false]
        constructor
        · rintro ⟨ep, ⟨rfl, rfl⟩, rfl⟩
          exact ⟨rfl, rfl⟩
        · rintro ⟨rfl, rfl⟩
          exact ⟨_, ⟨rfl, rfl⟩, rfl⟩
    · exact ⟨h.formed.lhost_distinct, h.formed.tcbSet_distinct,
        h.formed.lhost_below.mono s.next.le_succ, h.formed.tcbSet_below.mono s.next.le_succ⟩
  · obtain ⟨fd, hge, hlt, hnot⟩ := hfree
    exact absurd (hfull fd hge hlt) hnot

/-- Closing what names nothing. -/
theorem Inv.owner_closed (h : Inv log s) {fd : ℤ} (hnone : ∀ r, ¬ s.Names r fd) {fd' : ℤ}
    (hfd' : 0 ≤ fd') : owner fd' (log ++ [Note.closed fd]) = owner fd' log := by
  by_cases hfd : fd = fd'
  · subst hfd
    rw [owner_closed_self]
    refine (Option.eq_none_iff_forall_ne_some.mpr (fun r hr => ?_)).symm
    exact hnone r ((h.names_iff r fd).mpr ⟨hfd', hr⟩)
  · exact owner_closed_of_ne hfd log

/-- **`nclose` on a UDP host**: the host and its bit are gone. -/
theorem Inv.nclose_udp (h : Inv log s) {fd ret : ℤ} {garbage : TcpFragment} {host : Localhost}
    (hhost : s.getHostinfoFromfd fd = some (.udp p host))
    (hok : s.nclose fd true garbage = .ok (ret, s')) : Inv (log ++ [Note.closed fd]) s' := by
  obtain ⟨hmem, hfd⟩ := holds_of_getHostinfo hhost
  have hnamed : s.Names (.udp p) fd := ⟨host, hmem, hfd⟩
  obtain ⟨n, rfl⟩ := Int.eq_ofNat_of_zero_le ((h.names_iff _ _).mp hnamed).1
  obtain ⟨t, ht, htaken⟩ := s.fdTable.setFdFrombitmap_of_lt (Int.ofNat_lt.mp (h.lt hnamed))
  unfold Stack.nclose at hok
  rw [hhost] at hok
  simp only at hok
  rw [ht] at hok
  obtain ⟨-, rfl⟩ := Prod.mk.inj (Except.ok.inj hok)
  refine h.take htaken (fun r fd' => ?_) ?_ h.noLastAck
  · refine (names_remove_udp (s := s) p r fd').trans (and_congr_left (fun hr => not_congr ?_))
    constructor
    · rintro rfl
      obtain ⟨host', hmem', rfl⟩ := hr
      obtain rfl := h.formed.lhost_distinct.eq hmem hmem'
      exact hfd
    · rintro rfl
      exact h.sound.unique hr hnamed
  · exact ⟨h.formed.lhost_distinct.remove, h.formed.tcbSet_distinct, h.formed.lhost_below.remove,
      h.formed.tcbSet_below⟩

/-- **`nclose` on a stream without a descriptor** takes it out if it listens. -/
theorem Inv.nclose_neg (h : Inv log s) {fd ret : ℤ} {garbage : TcpFragment}
    (hhost : s.getHostinfoFromfd fd = some (.tcp p stream)) (hneg : fd < 0)
    (hok : s.nclose fd true garbage = .ok (ret, s')) : Inv (log ++ [Note.closed fd]) s' := by
  obtain ⟨hmem, hfd⟩ := holds_of_getHostinfo hhost
  unfold Stack.nclose at hok
  rw [hhost] at hok
  simp only at hok
  split at hok
  · -- the index would be negative
    simp only [not_true, if_false] at hok
    obtain ⟨⟨ret', t⟩, ht, -⟩ := exists_of_bind_eq_ok hok
    exact absurd (FdTable.taken_of_setFdFrombitmap ht).1 hneg.not_ge
  · obtain ⟨-, rfl⟩ := Prod.mk.inj (Except.ok.inj hok)
    refine h.quiet (fun r fd' => ?_) rfl ?_ ?_ (fun fd' hfd' => owner_closed_of_ne (by omega) log)
    · refine (names_remove_tcb (s := s) p r fd').trans (and_iff_right_of_imp ?_)
      rintro hr rfl
      rw [names_tcp_iff h.formed hmem] at hr
      omega
    · exact ⟨h.formed.lhost_distinct, h.formed.tcbSet_distinct.remove, h.formed.lhost_below,
        h.formed.tcbSet_below.remove⟩
    · exact fun x hx => h.noLastAck x (NodeList.mem_remove.mp hx).1

/-- **`nclose`** of what is neither a stream with a descriptor nor an epoll
object. -/
theorem Inv.nclose (h : Inv log s) {fd ret : ℤ} {garbage : TcpFragment}
    (hsafe : (Call.nclose fd garbage).Safe s) (hok : s.nclose fd true garbage = .ok (ret, s')) :
    Inv (log ++ [Note.closed fd]) s' := by
  unfold Call.Safe at hsafe
  cases hhost : s.getHostinfoFromfd fd with
  | none =>
    unfold Stack.nclose at hok
    rw [hhost] at hok
    obtain ⟨-, rfl⟩ := Prod.mk.inj (Except.ok.inj hok)
    refine h.quiet (fun _ _ => Iff.rfl) rfl h.formed h.noLastAck (fun fd' hfd' => ?_)
    refine h.owner_closed (fun r hr => ?_) hfd'
    obtain ⟨host, hhost'⟩ := getHostinfo_of_names hr
    cases hhost.symm.trans hhost'
  | some host =>
    cases host with
    | udp p host => exact h.nclose_udp hhost hok
    | tcp p stream =>
      simp only [hhost] at hsafe
      exact h.nclose_neg hhost hsafe hok
    | epoll p ep => simp only [hhost] at hsafe

/-! ## Runs -/

theorem init_inv : Inv [] init where
  names_iff := by
    intro r fd
    cases r <;> simp [Names, init, owner]
  taken_iff := by
    intro fd
    refine iff_of_false FdTable.not_taken_zero ?_
    rintro ⟨r, hr⟩
    cases r <;> simp [Names, init] at hr
  lt := by
    intro r fd hr
    cases r <;> simp [Names, init] at hr
  formed := ⟨List.nodup_nil, List.nodup_nil, List.forall_mem_nil _, List.forall_mem_nil _⟩
  noLastAck := List.forall_mem_nil _

/-- **A call that is safe keeps the invariant.** -/
theorem Inv.step (h : Inv log s) {call : Call} (hsafe : call.Safe s)
    (hok : Stack.step s call = .ok (out, s')) : Inv (log ++ out) s' := by
  cases call with
  | nsocket type =>
    cases type with
    | dgram =>
      obtain ⟨rfl, rfl⟩ := Prod.mk.inj (Except.ok.inj hok)
      exact h.nsocket_dgram hsafe
    | stream =>
      obtain ⟨rfl, rfl⟩ := Prod.mk.inj (Except.ok.inj hok)
      exact h.nsocket_stream
    | other =>
      obtain ⟨rfl, hs'⟩ := Prod.mk.inj (Except.ok.inj hok)
      obtain rfl : s = s' := (congrArg Prod.snd (nsocket_other_of_full hsafe)).symm.trans hs'
      rw [List.append_nil]
      exact h
  | nbind sockfd addr =>
    obtain ⟨⟨ret, s₁⟩, hbind, hok⟩ := exists_of_bind_eq_ok hok
    obtain ⟨rfl, rfl⟩ := Prod.mk.inj (Except.ok.inj hok)
    rw [List.append_nil]
    exact h.nbind hbind
  | nlisten sockfd =>
    obtain ⟨⟨ret, s₁⟩, hlisten, hok⟩ := exists_of_bind_eq_ok hok
    obtain ⟨rfl, rfl⟩ := Prod.mk.inj (Except.ok.inj hok)
    rw [List.append_nil]
    exact h.nlisten hlisten
  | naccept sockfd =>
    obtain ⟨⟨fd, addr, s₁⟩, haccept, hok⟩ := exists_of_bind_eq_ok hok
    obtain ⟨rfl, rfl⟩ := Prod.mk.inj (Except.ok.inj hok)
    exact h.naccept haccept
  | nepollCreate size =>
    obtain ⟨⟨epfd, s₁⟩, hcreate, hok⟩ := exists_of_bind_eq_ok hok
    obtain ⟨rfl, rfl⟩ := Prod.mk.inj (Except.ok.inj hok)
    by_cases hsize : size ≤ 0
    · unfold Stack.nepollCreate at hcreate
      rw [if_pos hsize] at hcreate
      obtain ⟨-, rfl⟩ := Prod.mk.inj (Except.ok.inj hcreate)
      rw [if_pos hsize, List.append_nil]
      exact h
    · rw [if_neg hsize]
      obtain ⟨hep, hfree⟩ := hsafe.resolve_left hsize
      exact h.nepollCreate hsize hep hfree hcreate
  | nclose fd garbage =>
    obtain ⟨⟨ret, s₁⟩, hclose, hok⟩ := exists_of_bind_eq_ok hok
    obtain ⟨rfl, rfl⟩ := Prod.mk.inj (Except.ok.inj hok)
    exact h.nclose hsafe hclose
  | segment seg iss garbage =>
    obtain ⟨⟨ret, s₁⟩, hprocess, hok⟩ := exists_of_bind_eq_ok hok
    obtain ⟨rfl, rfl⟩ := Prod.mk.inj (Except.ok.inj hok)
    rw [List.append_nil]
    exact h.segment (ngTcpProcess_processed hprocess)

/-- **After a close nobody has the descriptor.** -/
theorem Sound.closed (h : Sound (log ++ [Note.closed fd]) s) (hfd : 0 ≤ fd) (r : Ref) :
    ¬ s.Names r fd := by
  intro hr
  obtain ⟨host, hhost⟩ := getHostinfo_of_names hr
  have hlast := h.last fd hfd
  rw [owner_closed_self, hhost] at hlast
  cases hlast

/-- `nclose` on a stream that has a descriptor. -/
theorem Inv.not_sound_nclose_tcp (h : Inv log s) {ret : ℤ} {garbage : TcpFragment}
    (hhost : s.getHostinfoFromfd fd = some (.tcp p stream)) (hfd : 0 ≤ fd)
    (hok : s.nclose fd true garbage = .ok (ret, s')) : ¬ Sound (log ++ [Note.closed fd]) s' := by
  intro hsound
  obtain ⟨hmem, hstream⟩ := holds_of_getHostinfo hhost
  unfold Stack.nclose at hok
  rw [hhost] at hok
  simp only at hok
  split at hok
  · -- the stream stays, with its descriptor
    simp only [not_true, if_false] at hok
    obtain ⟨⟨ret', t⟩, -, hok⟩ := exists_of_bind_eq_ok hok
    obtain ⟨-, rfl⟩ := Prod.mk.inj (Except.ok.inj hok)
    refine hsound.closed hfd (.tcp p) ((names_congr_fdTable t _ _).mpr ?_)
    exact (names_setStream hmem _ _).mpr (Or.inl ⟨rfl, hstream, hfd⟩)
  · -- the listener is gone, and its bit is left
    obtain ⟨-, rfl⟩ := Prod.mk.inj (Except.ok.inj hok)
    obtain ⟨n, rfl⟩ := Int.eq_ofNat_of_zero_le hfd
    have htaken := (h.taken_iff n).mpr ⟨.tcp p, stream, hmem, hstream, hfd⟩
    obtain ⟨r, hr⟩ := (hsound.taken_iff n).mp htaken
    exact hsound.closed hfd r hr

/-- A second epoll object, or one without a descriptor. -/
theorem Inv.not_sound_nepollCreate (h : Inv log s) {size epfd : ℤ} (hsize : ¬ size ≤ 0)
    (hok : s.nepollCreate size true = .ok (epfd, s'))
    (hsound : Sound (log ++ [Note.gave epfd (.epoll s.next)]) s') : s.ep = none ∧ s.HasFree := by
  rw [nepollCreate_eq hsize] at hok
  obtain ⟨rfl, rfl⟩ := Prod.mk.inj (Except.ok.inj hok)
  obtain ⟨n, hge, hlt, hn, hfst, htaken⟩ | ⟨hnone, -⟩ := s.fdTable.getFdFrombitmap_cases
  · refine ⟨?_, n, hge, hlt, hn⟩
    cases hep : s.ep with
    | none => rfl
    | some x =>
      obtain ⟨q, ep⟩ := x
      -- the descriptor of the object that was there is still taken
      have hold : s.Names (.epoll q) ep.fd := ⟨ep, hep, rfl⟩
      obtain ⟨m, hm⟩ := Int.eq_ofNat_of_zero_le ((h.names_iff _ _).mp hold).1
      rw [hm] at hold
      have hm' : s.fdTable.Taken m := (h.taken_iff m).mpr ⟨_, hold⟩
      obtain ⟨r, hr⟩ := (hsound.taken_iff m).mp ((htaken m).mpr (Or.inr hm'))
      cases r with
      | udp q' => cases h.sound.unique (r := .udp q') hr hold
      | tcp q' => cases h.sound.unique (r := .tcp q') hr hold
      | epoll q' =>
        obtain ⟨ep', hep', hfd⟩ := hr
        obtain ⟨-, rfl⟩ := Prod.mk.inj (Option.some.inj hep')
        have hnm : (n : ℤ) = m := hfst.symm.trans hfd
        obtain rfl := Int.ofNat.inj hnm
        exact absurd hm' hn
  · rw [hnone] at hsound
    have hnamed : (0 : ℤ) ≤ -1 := hsound.nonneg (r := .epoll s.next) ⟨_, rfl, rfl⟩
    exact absurd hnamed (by decide)

/-- **A call that is not safe breaks it.** -/
theorem Inv.safe_of_step (h : Inv log s) {call : Call} (hok : Stack.step s call = .ok (out, s'))
    (hsound : Sound (log ++ out) s') : call.Safe s := by
  cases call with
  | nsocket type =>
    cases type with
    | dgram =>
      obtain ⟨rfl, rfl⟩ := Prod.mk.inj (Except.ok.inj hok)
      obtain ⟨n, hge, hlt, hn, -⟩ | ⟨hnone, -⟩ := s.fdTable.getFdFrombitmap_cases
      · exact ⟨n, hge, hlt, hn⟩
      · have hnamed : (0 : ℤ) ≤ -1 := hsound.nonneg (r := .udp s.next)
          ⟨_, List.mem_cons_self, congrArg Prod.fst hnone⟩
        exact absurd hnamed (by decide)
    | stream => trivial
    | other =>
      obtain ⟨rfl, rfl⟩ := Prod.mk.inj (Except.ok.inj hok)
      rintro ⟨fd, hge, hlt, hfree⟩
      obtain ⟨n, -, -, hn, -, htaken⟩ | ⟨-, hfull⟩ := s.fdTable.getFdFrombitmap_cases
      · -- a bit is set that is nobody's
        obtain ⟨r, hr⟩ := (hsound.taken_iff n).mp ((htaken n).mpr (Or.inl rfl))
        exact hn ((h.taken_iff n).mpr ⟨r, (names_congr_fdTable _ _ _).mp hr⟩)
      · exact hfree (hfull fd hge hlt)
  | nepollCreate size =>
    obtain ⟨⟨epfd, s₁⟩, hcreate, hok⟩ := exists_of_bind_eq_ok hok
    obtain ⟨rfl, rfl⟩ := Prod.mk.inj (Except.ok.inj hok)
    by_cases hsize : size ≤ 0
    · exact Or.inl hsize
    · rw [if_neg hsize] at hsound
      exact Or.inr (h.not_sound_nepollCreate hsize hcreate hsound)
  | nclose fd garbage =>
    obtain ⟨⟨ret, s₁⟩, hclose, hok⟩ := exists_of_bind_eq_ok hok
    obtain ⟨rfl, rfl⟩ := Prod.mk.inj (Except.ok.inj hok)
    simp only [Call.Safe]
    split
    · next p stream hhost =>
      refine not_le.mp (fun hfd => ?_)
      exact h.not_sound_nclose_tcp hhost hfd hclose hsound
    · next p ep hhost =>
      have hnamed : s.Names (.epoll p) fd := ⟨ep, holds_of_getHostinfo hhost⟩
      have hfd := ((h.names_iff _ _).mp hnamed).1
      unfold Stack.nclose at hclose
      rw [hhost] at hclose
      simp only at hclose
      split at hclose
      · cases hclose
      · obtain ⟨-, rfl⟩ := Prod.mk.inj (Except.ok.inj hclose)
        exact hsound.closed hfd _ hnamed
    · trivial
  | nbind => trivial
  | nlisten => trivial
  | naccept => trivial
  | segment => trivial

/-- **A descriptor names what it was given out for last** in every run of calls
that are safe; and a further call that returns keeps it so exactly if it is
safe. -/
theorem names_last_given (h : machine.Reach Call.Safe init log s) :
    Sound log s
    ∧ ∀ call out s', Stack.step s call = .ok (out, s') →
      (Sound (log ++ out) s' ↔ call.Safe s) := by
  have hinv : Inv log s := by
    refine Machine.Reach.invariant init_inv ?_ h
    intro log s call out s' hinv hsafe hstep
    exact hinv.step hsafe (eq_ok_of_toOption hstep)
  refine ⟨hinv.sound, fun call out s' hok => ?_⟩
  constructor
  · exact hinv.safe_of_step hok
  · exact fun hsafe => (hinv.step hsafe hok).sound

/-- A UDP host is found under its descriptor. -/
theorem names_last_given_udp :
    ∃ s, machine.Reach Call.Safe init [.gave 3 (.udp 1)] s
      ∧ (s.getHostinfoFromfd 3).map Host.ref = some (.udp 1) := by
  have hsafe : (Call.nsocket .dgram).Safe init := ⟨3, by decide, by decide, FdTable.not_taken_zero⟩
  have hreach := (Machine.Reach.refl (M := machine)).step hsafe rfl
  refine ⟨_, hreach, ?_⟩
  exact (names_last_given hreach).1.last 3 (by decide)

/-- A stream is closed and still found, its descriptor being given back. -/
theorem not_names_last_given :
    ¬ ∀ (log : List Note) (s : Stack),
      machine.Reach (fun _ _ => True) init log s → Sound log s := by
  intro h
  have hopen := (Machine.Reach.refl (M := machine) (P := fun _ _ => True) (s := init)).step
    (i := .nsocket .stream) trivial rfl
  have hclose := hopen.step (i := .nclose 3 TcpFragment.zero) trivial rfl
  have hsound : Sound ([Note.gave 3 (.tcp 1)] ++ [Note.closed 3]) _ := h _ _ hclose
  exact hsound.closed (by decide) (.tcp 1)
    ⟨_, List.mem_cons_self, rfl, by decide⟩

end Inv

end Stack

end Ustack
