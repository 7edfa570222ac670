import LinuxLearn.DList
import LinuxLearn.UstackHistory

/-!
# The table of streams in memory

`tcb_set` is the head of a doubly linked list of `struct ng_tcp_stream`. It
is walked by `ng_tcp_stream_search`, a new stream is allocated and put in
front of it with `LL_ADD`, and one that is done is taken out with
`LL_REMOVE` and freed. Whatever else is done to a stream is a write to its
fields.

Here the list is in memory, and `TcbSet.machine` is the stack with it: what
the stack does to its table (`Stack.handle`) is done to the list, through
its pointers. `TcbSet.Repr` says that the list is well formed and holds what
the table holds; no event ever breaks it, or goes through a pointer to
nothing.
-/

namespace NodeList

variable {α : Type}

/-- One of distinct objects is taken out. -/
theorem remove_append_cons {a b : NodeList α} {p : ℕ} {v : α}
    (h : Distinct (a ++ (p, v) :: b)) : remove (a ++ (p, v) :: b) p = a ++ b := by
  unfold Distinct at h
  rw [List.map_append, List.map_cons] at h
  obtain ⟨-, hpb, hab⟩ := List.nodup_append.mp h
  unfold remove
  rw [List.filter_append, List.filter_cons_of_neg (by simp)]
  congr 1
  · refine List.filter_eq_self.mpr (fun x hx => decide_eq_true ?_)
    exact hab x.1 (List.mem_map_of_mem hx) p List.mem_cons_self
  · refine List.filter_eq_self.mpr (fun x hx => decide_eq_true (fun heq => ?_))
    exact (List.nodup_cons.mp hpb).1 (List.mem_map.mpr ⟨x, hx, heq⟩)

end NodeList

namespace Ustack

/-- **`table->tcb_set`.** -/
structure TcbSet where
  /-- The memory of the streams. -/
  heap : Heap (DList.Node TcpStream)
  /-- The first stream, or null. -/
  tcbSet : Ptr

namespace TcbSet

/-! ## What is done to the list -/

/-- **`ng_tcp_stream_search`**, along the links; `NULL` where there is no stream. -/
def ngTcpStreamSearch (t : TcbSet) (sip dip : UInt32) (sport dport : UInt16) : Option Ptr := do
  let iter ← DList.find t.heap t.tcbSet (fun iter => iter.sip = sip ∧ iter.dip = dip
    ∧ iter.sport = sport ∧ iter.dport = dport)
  if iter ≠ 0 then
    return iter
  else
    DList.find t.heap t.tcbSet (fun iter => iter.dport = dport ∧ iter.status = .listen)

/-- **A stream is allocated, and put in front** with `LL_ADD`. -/
def add (t : TcbSet) (stream : TcpStream) : Option TcbSet := do
  let (item, heap) := t.heap.malloc true ⟨stream, 0, 0⟩
  let (tcbSet, heap) ← DList.insertHead heap item t.tcbSet
  return ⟨heap, tcbSet⟩

/-- **A stream is taken out** with `LL_REMOVE`, and freed. -/
def remove (t : TcbSet) (stream : Ptr) : Option TcbSet := do
  let (tcbSet, heap) ← DList.remove t.heap stream t.tcbSet
  let heap ← heap.free stream
  return ⟨heap, tcbSet⟩

/-- **What `nclose` does to the links**, where a descriptor names an object: a listener
is removed. -/
def nclose (t : TcbSet) : Option Host → Option TcbSet
  | some (.tcp p stream) => if stream.status = .listen then t.remove p else some t
  | _ => some t

/-- What is done to the links for a segment and its stream: a SYN to a listener adds
a stream, as `ng_tcp_stream_create` returns it, and the last ACK removes one. -/
def dispatch (t : TcbSet) (p : Ptr) (seg : TcpSegment) (env : SegmentEnv) : Option TcbSet := do
  let stream ← t.heap.load p
  if stream.val.status = .listen ∧ seg.Has RTE_TCP_SYN_FLAG then
    t.add (Stack.halfOpenedStream seg env.iss env.garbage)
  else if stream.val.status = .lastAck ∧ seg.Has RTE_TCP_ACK_FLAG then
    t.remove p
  else
    return t

/-- **What `ng_tcp_process` does to the links.** -/
def ngTcpProcess (t : TcbSet) (seg : TcpSegment) (env : SegmentEnv) : Option TcbSet :=
  if ¬ seg.cksumOk then some t
  else do
    let p ← t.ngTcpStreamSearch seg.srcAddr seg.dstAddr seg.srcPort seg.dstPort
    if p = 0 then
      return t
    else
      t.dispatch p seg env

/-- **What an event does to the links.** -/
def relink (t : TcbSet) (s : Stack) : Stack.Event → Option TcbSet
  | .nsocket .stream malloc =>
    if malloc 0 ∧ malloc 1 ∧ malloc 2 then t.add (Stack.newStream s.fdTable.getFdFrombitmap.1)
    else some t
  | .nclose fd _ _ => t.nclose (s.getHostinfoFromfd fd)
  | .segment seg env => t.ngTcpProcess seg env
  | _ => some t

/-- **The fields of the streams are written**, and what else was allocated has its
address. -/
def store (t : TcbSet) (s' : Stack) : Option TcbSet := do
  let heap ← DList.writeAll t.heap s'.tcbSet
  return ⟨heap.reserve s'.next, t.tcbSet⟩

/-- **What an event does to the list in memory**, where the stack goes from one state
to another. -/
def handle (t : TcbSet) (s : Stack) (e : Stack.Event) (s' : Stack) : Option TcbSet := do
  let t ← t.relink s e
  t.store s'

/-- **The stack with its table in memory.** -/
def machine : Machine (Stack × TcbSet) Stack.Event (List TcpNote) := fun st e => do
  let (notes, s') ← Stack.tcpMachine st.1 e
  let t' ← st.2.handle st.1 e s'
  return (notes, s', t')

/-! ## What the list holds -/

/-- **The list is well formed**, and holds what the table holds. -/
structure Repr (t : TcbSet) (s : Stack) : Prop where
  list : DList.Repr t.heap t.tcbSet s.tcbSet
  next : t.heap.next = s.next

variable {t t' : TcbSet} {s s' : Stack} {e : Stack.Event} {p : Ptr} {x : TcpStream}

/-- Streams in memory have addresses of their own. -/
theorem Repr.allotted (h : t.Repr s) : s.Allotted := by
  refine ⟨h.list.distinct, fun x hx => ?_⟩
  obtain ⟨node, hload, -⟩ := h.list.load hx
  rw [← h.next]
  exact Heap.lt_next_of_load hload

/-- **The walk along the links finds what the search of the table finds.** -/
theorem Repr.search (h : t.Repr s) (sip dip : UInt32) (sport dport : UInt16) :
    t.ngTcpStreamSearch sip dip sport dport
      = some ((s.ngTcpStreamSearch sip dip sport dport).elim 0 Prod.fst) := by
  unfold ngTcpStreamSearch Stack.ngTcpStreamSearch
  refine bind_of_eq (h.list.find _) ?_
  rw [h.list.find]
  cases hfirst : s.tcbSet.first (fun iter => iter.sip = sip ∧ iter.dip = dip
    ∧ iter.sport = sport ∧ iter.dport = dport) with
  | none => rfl
  | some y =>
    obtain ⟨node, hload, -⟩ := h.list.load (NodeList.mem_of_first hfirst)
    exact if_pos (Heap.ne_null_of_load hload)

theorem Repr.add (h : t.Repr s) (x : TcpStream) :
    ∃ t', t.add x = some t' ∧ DList.Repr t'.heap t'.tcbSet ((s.next, x) :: s.tcbSet)
      ∧ t'.heap.next = s.next + 1 := by
  have hkeep : ∀ y ∈ s.tcbSet, (t.heap.alloc ⟨x, 0, 0⟩).load y.1 = t.heap.load y.1 := by
    intro y hy
    obtain ⟨node, hload, -⟩ := h.list.load hy
    rw [hload]
    exact Heap.load_alloc_of_load _ hload
  have hload : (t.heap.alloc ⟨x, 0, 0⟩).load t.heap.next = some ⟨x, 0, 0⟩ := by
    rw [Heap.load_alloc, if_pos rfl]
  have hnew : t.heap.next ∉ s.tcbSet.map Prod.fst := by
    intro hmem
    obtain ⟨y, hy, hnext⟩ := List.mem_map.mp hmem
    exact (h.allotted.below y hy).ne (hnext.trans h.next)
  obtain ⟨heap, hinsert, hrepr, -, hnext⟩ := (h.list.congr hkeep).insertHead hload hnew
  rw [← h.next]
  exact ⟨⟨heap, t.heap.next⟩, bind_of_eq hinsert rfl, hrepr, hnext⟩

theorem Repr.remove (h : t.Repr s) (hmem : (p, x) ∈ s.tcbSet) :
    ∃ t', t.remove p = some t' ∧ DList.Repr t'.heap t'.tcbSet (s.tcbSet.remove p)
      ∧ t'.heap.next = s.next := by
  obtain ⟨a, b, hab⟩ := List.append_of_mem hmem
  have hlist := h.list
  rw [hab] at hlist
  obtain ⟨heap, hremove, hrepr, hload, -, hnext⟩ := hlist.remove
  refine ⟨⟨heap.erase p, _⟩, bind_of_eq hremove (bind_of_eq (Heap.free_of_load hload) rfl), ?_,
    hnext.trans h.next⟩
  rw [hab, NodeList.remove_append_cons hlist.distinct]
  refine hrepr.congr (fun y hy => ?_)
  rw [Heap.load_erase, if_neg]
  rintro rfl
  rw [← NodeList.remove_append_cons hlist.distinct] at hy
  exact (NodeList.mem_remove.mp hy).2 rfl

/-! ## One event -/

/-- The list has the streams of a table, whatever is in their fields. -/
def Links (t : TcbSet) (s' : Stack) : Prop :=
  ∃ u, DList.Repr t.heap t.tcbSet u ∧ s'.tcbSet.map Prod.fst = u.map Prod.fst
    ∧ t.heap.next ≤ s'.next

/-- The fields are written, and it is the table. -/
theorem Links.store (h : t.Links s') : ∃ t', t.store s' = some t' ∧ t'.Repr s' := by
  obtain ⟨u, hrepr, hfst, hnext⟩ := h
  obtain ⟨heap, hwrite, hrepr', hnext'⟩ := hrepr.writeAll hfst
  refine ⟨_, bind_of_eq hwrite rfl, hrepr'.congr (fun y _ => rfl), ?_⟩
  rw [Heap.next_reserve, hnext']
  exact max_eq_right hnext

/-- An event that neither adds a stream nor removes one. -/
theorem Repr.links (h : t.Repr s) (hfst : s'.tcbSet.map Prod.fst = s.tcbSet.map Prod.fst)
    (hnext : s.next ≤ s'.next) : t.Links s' := ⟨s.tcbSet, h.list, hfst, h.next.le.trans hnext⟩

/-- What neither adds a stream nor removes one leaves the addresses as they are. -/
theorem map_fst_of_changes (hchanges : Stack.Changes s e s') (hborn : ∀ x, ¬ Stack.Born s e x)
    (hdies : ∀ p x, ¬ Stack.Dies s p x e) :
    s'.tcbSet.map Prod.fst = s.tcbSet.map Prod.fst := by
  cases hchanges with
  | quiet htouched htcbSet hnext => rw [htcbSet]
  | @written p x x' notes hmem hevolves htouched htcbSet hnext =>
    rw [htcbSet]
    exact NodeList.map_fst_update (f := fun _ => x')
  | added hborn' htouched htcbSet hnext => exact absurd hborn' (hborn _)
  | removed hmem hdies' htouched htcbSet hnext => exact absurd hdies' (hdies _ _)
  | out he hs' =>
    subst hs'
    exact Stack.map_fst_ngTcpOut s _

theorem Repr.links_of_changes (h : t.Repr s) (hchanges : Stack.Changes s e s')
    (hborn : ∀ x, ¬ Stack.Born s e x) (hdies : ∀ p x, ¬ Stack.Dies s p x e) : t.Links s' :=
  h.links (map_fst_of_changes hchanges hborn hdies) hchanges.next_le

/-- `nsocket` adds what it has allocated. -/
theorem Repr.nsocket (h : t.Repr s) (type : SockType) (malloc : ℕ → Bool) :
    ∃ t', t.relink s (.nsocket type malloc) = some t' ∧ t'.Links (s.nsocket type malloc).2 := by
  cases type with
  | stream =>
    unfold relink Stack.nsocket
    by_cases hmalloc : malloc 0 = true ∧ malloc 1 = true ∧ malloc 2 = true
    · obtain ⟨t', hadd, hrepr, hnext⟩ := h.add (Stack.newStream s.fdTable.getFdFrombitmap.1)
      simp only [if_pos hmalloc]
      exact ⟨t', hadd, _, hrepr, rfl, hnext.le⟩
    · simp only [if_neg hmalloc]
      exact ⟨t, rfl, h.links rfl le_rfl⟩
  | _ =>
    refine ⟨t, rfl, h.links_of_changes (Stack.nsocket_changes _ malloc) ?_ ?_⟩
    · exact fun x hborn => nomatch hborn
    · exact fun p x hdies => nomatch hdies

/-- `nclose` removes a listener. -/
theorem Repr.nclose (h : t.Repr s) {fd ret : ℤ} {ok : Bool} {garbage : TcpFragment}
    (hok : s.nclose fd ok garbage = .ok (ret, s')) :
    ∃ t', t.nclose (s.getHostinfoFromfd fd) = some t' ∧ t'.Links s' := by
  have hquiet : (∀ p x, s.getHostinfoFromfd fd = some (.tcp p x) → x.status ≠ .listen) →
      t.Links s' := by
    intro hnot
    refine h.links_of_changes (Stack.nclose_changes hok) (fun x hborn => nomatch hborn) ?_
    intro p x hdies
    cases hdies with
    | closed hhost hstatus => exact hnot p x hhost hstatus
  cases hhost : s.getHostinfoFromfd fd with
  | none => exact ⟨t, rfl, hquiet (fun p x he => by cases hhost.symm.trans he)⟩
  | some host =>
    cases host with
    | udp q host => exact ⟨t, rfl, hquiet (fun p x he => by cases hhost.symm.trans he)⟩
    | epoll q ep => exact ⟨t, rfl, hquiet (fun p x he => by cases hhost.symm.trans he)⟩
    | tcp p x =>
      unfold TcbSet.nclose
      by_cases hstatus : x.status = .listen
      · obtain ⟨t', hremove, hrepr, hnext⟩ := h.remove (Stack.holds_of_getHostinfo hhost).1
        unfold Stack.nclose at hok
        simp only [hhost, hstatus, ne_eq, not_true_eq_false, if_false] at hok
        cases hok
        simp only [if_pos hstatus]
        exact ⟨t', hremove, _, hrepr, rfl, hnext.le⟩
      · simp only [if_neg hstatus]
        refine ⟨t, rfl, hquiet (fun q y he => ?_)⟩
        obtain ⟨rfl, rfl⟩ := Host.tcp.inj (Option.some.inj (hhost.symm.trans he))
        exact hstatus

section Segment

variable {seg : TcpSegment} {env : SegmentEnv} {ret : ℤ}

/-- A segment that adds nothing and removes nothing. -/
theorem Repr.links_of_segment (h : t.Repr s) (hok : s.ngTcpProcess seg env = .ok (ret, s'))
    (hadd : ∀ p x, s.Dispatches seg p x → seg.cksumOk = true → x.status = .listen →
      ¬ seg.Has RTE_TCP_SYN_FLAG)
    (hremove : ∀ p x, s.Dispatches seg p x → seg.cksumOk = true → x.status = .lastAck →
      ¬ seg.Has RTE_TCP_ACK_FLAG) : t.Links s' := by
  refine h.links_of_changes (Stack.ngTcpProcess_changes h.allotted hok) (fun x hborn => ?_)
    (fun p x hdies => ?_)
  · cases hborn with
    | opened hcksum hdispatch hstatus hsyn hmalloc => exact hadd _ _ hdispatch hcksum hstatus hsyn
    | halfOpened hcksum hdispatch hstatus hsyn hmalloc =>
      exact hadd _ _ hdispatch hcksum hstatus hsyn
  · cases hdies with
    | lastAck hcksum hdispatch hstatus hack => exact hremove p x hdispatch hcksum hstatus hack

/-- **A SYN to a listener** puts a stream in front. -/
theorem handleListen_tcbSet (hsyn : seg.Has RTE_TCP_SYN_FLAG) (hstatus : x.status = .listen)
    (hok : Stack.ngTcpHandleListen s x seg env = .ok (ret, s')) :
    s'.tcbSet.map Prod.fst = s.next :: s.tcbSet.map Prod.fst ∧ s'.next = s.next + 1 := by
  unfold Stack.ngTcpHandleListen at hok
  rw [if_pos ⟨hsyn, hstatus⟩] at hok
  split at hok
  · cases hok
  simp only at hok
  split at hok
  · cases hok
    exact ⟨rfl, rfl⟩
  · cases hok
    exact ⟨rfl, rfl⟩

/-- **A segment and its stream.** -/
theorem Repr.dispatch (h : t.Repr s) (hcksum : seg.cksumOk = true)
    (hdispatch : s.Dispatches seg p x) (hok : s.ngTcpProcess seg env = .ok (ret, s')) :
    ∃ t', t.dispatch p seg env = some t' ∧ t'.Links s' := by
  have hmem := Stack.mem_of_search hdispatch
  obtain ⟨node, hload, hval⟩ := h.list.load hmem
  have hok' := hok
  unfold Stack.ngTcpProcess at hok
  rw [if_neg (not_not.mpr hcksum), hdispatch] at hok
  obtain ⟨⟨ret', s₁⟩, hhandle, hs'⟩ := exists_of_bind_eq_ok hok
  obtain ⟨-, rfl⟩ := Prod.mk.inj (Except.ok.inj hs')
  unfold TcbSet.dispatch
  rw [hload]
  simp only [Option.bind_eq_bind, Option.bind_some, hval]
  by_cases hlisten : x.status = .listen ∧ seg.Has RTE_TCP_SYN_FLAG
  · obtain ⟨t', hadd, hrepr, hnext⟩ := h.add (Stack.halfOpenedStream seg env.iss env.garbage)
    rw [hlisten.1] at hhandle
    obtain ⟨hfst, hnext'⟩ := handleListen_tcbSet hlisten.2 hlisten.1 hhandle
    rw [if_pos hlisten]
    exact ⟨t', hadd, _, hrepr, hfst, (hnext.trans hnext'.symm).le⟩
  rw [if_neg hlisten]
  by_cases hlast : x.status = .lastAck ∧ seg.Has RTE_TCP_ACK_FLAG
  · obtain ⟨t', hremove, hrepr, hnext⟩ := h.remove hmem
    rw [hlast.1] at hhandle
    have hs₁ : (Stack.ngTcpHandleLastAck s p x seg).2 = s₁ :=
      congrArg Prod.snd (Except.ok.inj hhandle)
    unfold Stack.ngTcpHandleLastAck at hs₁
    rw [if_pos hlast.symm] at hs₁
    rw [if_pos hlast, ← hs₁]
    exact ⟨t', hremove, _, hrepr, rfl, hnext.le⟩
  rw [if_neg hlast]
  refine ⟨t, rfl, h.links_of_segment hok' (fun q y hdispatch' _ hstatus hsyn => ?_)
    (fun q y hdispatch' _ hstatus hack => ?_)⟩
  · obtain ⟨rfl, rfl⟩ := Prod.mk.inj (Option.some.inj (hdispatch.symm.trans hdispatch'))
    exact hlisten ⟨hstatus, hsyn⟩
  · obtain ⟨rfl, rfl⟩ := Prod.mk.inj (Option.some.inj (hdispatch.symm.trans hdispatch'))
    exact hlast ⟨hstatus, hack⟩

/-- **A segment** adds a stream where it is a SYN to a listener, and removes one where
it is the last ACK. -/
theorem Repr.ngTcpProcess (h : t.Repr s) (hok : s.ngTcpProcess seg env = .ok (ret, s')) :
    ∃ t', t.ngTcpProcess seg env = some t' ∧ t'.Links s' := by
  unfold TcbSet.ngTcpProcess
  by_cases hcksum : seg.cksumOk = true
  swap
  · rw [if_pos hcksum]
    exact ⟨t, rfl, h.links_of_segment hok (fun _ _ _ hcksum' => absurd hcksum' hcksum)
      (fun _ _ _ hcksum' => absurd hcksum' hcksum)⟩
  rw [if_neg (not_not.mpr hcksum)]
  have hsearch := h.search seg.srcAddr seg.dstAddr seg.srcPort seg.dstPort
  cases hdispatch : s.ngTcpStreamSearch seg.srcAddr seg.dstAddr seg.srcPort seg.dstPort with
  | none =>
    rw [hdispatch] at hsearch
    refine ⟨t, bind_of_eq hsearch (if_pos rfl), h.links_of_segment hok ?_ ?_⟩
    · exact fun p x hdispatch' => by cases hdispatch.symm.trans hdispatch'
    · exact fun p x hdispatch' => by cases hdispatch.symm.trans hdispatch'
  | some y =>
    obtain ⟨p, x⟩ := y
    rw [hdispatch] at hsearch
    obtain ⟨node, hload, -⟩ := h.list.load (Stack.mem_of_search hdispatch)
    obtain ⟨t', ht', hlinks⟩ := h.dispatch hcksum hdispatch hok
    exact ⟨t', bind_of_eq hsearch ((if_neg (Heap.ne_null_of_load hload)).trans ht'), hlinks⟩

end Segment

/-- **Every event keeps the list well formed**, and goes through no pointer to nothing. -/
theorem Repr.handle (h : t.Repr s) (hok : s.handle e = .ok s') :
    ∃ t', t.handle s e s' = some t' ∧ t'.Repr s' := by
  have hlinks : ∃ t', t.relink s e = some t' ∧ t'.Links s' := by
    have hchanges := Stack.handle_changes h.allotted hok
    cases e with
    | nsocket type malloc =>
      obtain rfl := Except.ok.inj hok
      exact h.nsocket type malloc
    | nclose fd ok garbage =>
      obtain ⟨r, hr, rfl⟩ := exists_of_map_eq_ok hok
      exact h.nclose hr
    | segment seg env =>
      obtain ⟨r, hr, rfl⟩ := exists_of_map_eq_ok hok
      exact h.ngTcpProcess hr
    | _ =>
      exact ⟨t, rfl, h.links_of_changes hchanges (fun x hborn => nomatch hborn)
        (fun p x hdies => nomatch hdies)⟩
  obtain ⟨t₁, hrelink, hlinks⟩ := hlinks
  obtain ⟨t', hstore, hrepr⟩ := hlinks.store
  exact ⟨t', bind_of_eq hrelink hstore, hrepr⟩

/-! ## Runs -/

section Run

variable {P : Stack × TcbSet → Stack.Event → Prop} {s₀ : Stack} {t₀ : TcbSet}
  {log notes : List TcpNote}

/-- A step of the stack with its table in memory is a step of the stack. -/
theorem machine_eq_some {st st' : Stack × TcbSet} (hstep : machine st e = some (notes, st')) :
    Stack.tcpMachine st.1 e = some (notes, st'.1) ∧ st.2.handle st.1 e st'.1 = some st'.2 := by
  obtain ⟨⟨out, s'⟩, hs', hstep⟩ := Option.bind_eq_some_iff.mp hstep
  obtain ⟨t', ht', hstep⟩ := Option.bind_eq_some_iff.mp hstep
  obtain ⟨rfl, rfl⟩ := Prod.mk.inj (Option.some.inj hstep)
  exact ⟨hs', ht'⟩

/-- **In every run** the list is well formed, and holds what the table holds. -/
theorem reach_repr (h₀ : t₀.Repr s₀) (hreach : machine.Reach P (s₀, t₀) log (s, t)) : t.Repr s := by
  refine hreach.invariant (I := fun _ st => st.2.Repr st.1) h₀ ?_
  intro log st e notes st' hrepr _ hstep
  obtain ⟨hs', ht'⟩ := machine_eq_some hstep
  obtain ⟨t', ht'', hrepr'⟩ := hrepr.handle (Stack.tcpMachine_eq_some hs').1
  obtain rfl := Option.some.inj (ht''.symm.trans ht')
  exact hrepr'

/-- **What the stack does, it does in memory**: no pointer to nothing is followed. -/
theorem Repr.machine (h : t.Repr s) (hstep : Stack.tcpMachine s e = some (notes, s')) :
    ∃ t', machine (s, t) e = some (notes, s', t') ∧ t'.Repr s' := by
  obtain ⟨t', ht', hrepr⟩ := h.handle (Stack.tcpMachine_eq_some hstep).1
  exact ⟨t', bind_of_eq hstep (bind_of_eq ht' rfl), hrepr⟩

/-- **Every run of the stack is a run in memory.** -/
theorem reach_memory {Q : Stack → Stack.Event → Prop} (h₀ : t₀.Repr s₀)
    (hreach : Stack.tcpMachine.Reach Q s₀ log s) :
    ∃ t, TcbSet.machine.Reach (fun st e => Q st.1 e) (s₀, t₀) log (s, t) := by
  induction hreach with
  | refl => exact ⟨t₀, .refl⟩
  | step hreach hQ hstep ih =>
    obtain ⟨t, ht⟩ := ih
    obtain ⟨t', hstep', -⟩ := (reach_repr h₀ ht).machine hstep
    exact ⟨t', ht.step hQ hstep'⟩

/-- The table before any call, in memory. -/
def init : TcbSet := ⟨Heap.empty, 0⟩

theorem init_repr : init.Repr Stack.init := ⟨DList.Repr.empty _, rfl⟩

end Run

end TcbSet

end Ustack
