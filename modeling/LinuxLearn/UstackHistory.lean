import LinuxLearn.UstackTcp

/-!
# The history of one stream

What an event does to the table (`Stack.Changes`) is, for one address, one
of six things: there is no stream and none comes, the stream stays as it
is, it is written to, it is new, it is taken out, or the loop that sends
visits it. `Stack.becomes` says which, together with what the log gets for
this stream, and an invariant of a stream and its history is one case for
each.
-/

namespace NodeList

variable {α β : Type} {t : NodeList α} {p : ℕ} {a : α}

/-- What comes of one object only. -/
theorem flatMap_eq_of_distinct (h : t.Distinct) (hmem : (p, a) ∈ t) {f : ℕ × α → List β}
    (hother : ∀ x ∈ t, x.1 ≠ p → f x = []) : t.flatMap f = f (p, a) := by
  induction t with
  | nil => exact absurd hmem List.not_mem_nil
  | cons y t ih =>
    obtain ⟨hy, ht⟩ := List.nodup_cons.mp h
    have hothers : ∀ x ∈ t, x.1 ≠ p → f x = [] := fun x hx => hother x (List.mem_cons_of_mem y hx)
    rw [List.flatMap_cons]
    rcases List.mem_cons.mp hmem with rfl | hmem
    · have hnil : t.flatMap f = [] := by
        refine List.flatMap_eq_nil_iff.mpr (fun x hx => hothers x hx (fun hp => ?_))
        exact hy (List.mem_map.mpr ⟨x, hx, hp⟩)
      rw [hnil, List.append_nil]
    · have hne : y.1 ≠ p := fun hp => hy (List.mem_map.mpr ⟨(p, a), hmem, hp.symm⟩)
      rw [hother y List.mem_cons_self hne, ih ht hmem hothers, List.nil_append]

end NodeList

namespace Ustack

/-- **What happened to a stream**, in order. -/
def history (p : Ptr) (log : List TcpNote) : List StreamNote :=
  log.filterMap (fun n => match n with
    | .stream q note => if q = p then some note else none
    | .received _ => none)

theorem history_append (p : Ptr) (log log' : List TcpNote) :
    history p (log ++ log') = history p log ++ history p log' := List.filterMap_append

/-- A segment of a peer. -/
def peerSegment (tcpFlags : UInt8) (sentSeq recvAck : UInt32) (payload : List UInt8) :
    TcpSegment where
  srcAddr := 1
  dstAddr := 2
  totalLength := UInt16.ofNat (40 + payload.length)
  srcPort := 3
  dstPort := 4
  sentSeq := sentSeq
  recvAck := recvAck
  dataOff := 0x50
  tcpFlags := tcpFlags
  mem := List.replicate 20 0 ++ payload
  cksumOk := true

namespace Stack

variable {s s' : Stack} {e : Event} {p q : Ptr} {x x' : TcpStream}

theorem Formed.allotted (h : s.Formed) : s.Allotted := ⟨h.tcbSet_distinct, h.tcbSet_below⟩

theorem stream?_eq_some (h : s.Allotted) : s.stream? p = some x ↔ (p, x) ∈ s.tcbSet := by
  unfold stream?
  rw [Option.map_eq_some_iff]
  constructor
  · rintro ⟨⟨q, y⟩, hfind, rfl⟩
    obtain rfl : q = p := by simpa using List.find?_some hfind
    exact List.mem_of_find?_eq_some hfind
  · intro hmem
    cases hfind : s.tcbSet.find? (fun x => x.1 = p) with
    | none =>
      have hne := List.find?_eq_none.mp hfind (p, x) hmem
      simp at hne
    | some y =>
      obtain ⟨q, y⟩ := y
      obtain rfl : q = p := by simpa using List.find?_some hfind
      exact ⟨(q, y), rfl, h.distinct.eq (List.mem_of_find?_eq_some hfind) hmem⟩

theorem stream?_eq_none : s.stream? p = none ↔ ∀ x, (p, x) ∉ s.tcbSet := by
  unfold stream?
  rw [Option.map_eq_none_iff, List.find?_eq_none]
  constructor
  · intro h x hmem
    exact h (p, x) hmem (decide_eq_true rfl)
  · rintro h ⟨q, y⟩ hmem hq
    obtain rfl : q = p := by simpa using hq
    exact h y hmem

/-- Nothing is at an address that was not allocated yet. -/
theorem stream?_of_le (h : s.Allotted) (hp : s.next ≤ p) : s.stream? p = none :=
  stream?_eq_none.mpr (fun _ hmem => absurd (h.below _ hmem) (not_lt.mpr hp))

/-- The streams are where they were, as far as addresses go. -/
theorem Allotted.congr (h : s.Allotted) (hfst : s'.tcbSet.map Prod.fst = s.tcbSet.map Prod.fst)
    (hnext : s.next ≤ s'.next) : s'.Allotted := by
  constructor
  · show (s'.tcbSet.map Prod.fst).Nodup
    rw [hfst]
    exact h.distinct
  · intro y hy
    have hmem : y.1 ∈ s.tcbSet.map Prod.fst := hfst ▸ List.mem_map_of_mem hy
    obtain ⟨z, hz, hzy⟩ := List.mem_map.mp hmem
    exact hzy ▸ (h.below z hz).trans_le hnext

theorem map_fst_ngTcpOut (s : Stack) (macaddr : UInt32 → Option Mac) :
    (s.ngTcpOut macaddr).2.tcbSet.map Prod.fst = s.tcbSet.map Prod.fst := by
  unfold ngTcpOut
  rw [List.map_map]
  rfl

/-- **Every event leaves it so.** -/
theorem Changes.allotted (hchanges : Changes s e s') (h : s.Allotted) : s'.Allotted := by
  cases hchanges with
  | quiet htouched htcbSet hnext => exact h.congr (by rw [htcbSet]) hnext
  | @written p x x' notes hmem hevolves htouched htcbSet hnext =>
    refine h.congr ?_ hnext.ge
    rw [htcbSet]
    exact NodeList.map_fst_update (f := fun _ => x')
  | added hborn htouched htcbSet hnext =>
    constructor
    · rw [htcbSet]
      exact h.distinct.cons h.below _
    · rw [htcbSet, hnext]
      exact h.below.cons _
  | removed hmem hdies htouched htcbSet hnext =>
    constructor
    · rw [htcbSet]
      exact h.distinct.remove
    · rw [htcbSet, hnext]
      exact h.below.remove
  | out he hs' =>
    subst hs'
    exact h.congr (map_fst_ngTcpOut s _) le_rfl

/-- Only a listener is closed at once, and only LAST_ACK waits for its end. -/
theorem Dies.status (hdies : Dies s p x e) : x.status = .listen ∨ x.status = .lastAck := by
  cases hdies with
  | closed hhost hstatus => exact Or.inl hstatus
  | lastAck hcksum hdispatch hstatus hack => exact Or.inr hstatus

theorem Changes.next_le (hchanges : Changes s e s') : s.next ≤ s'.next := by
  cases hchanges with
  | quiet htouched htcbSet hnext => exact hnext
  | written hmem hevolves htouched htcbSet hnext => exact hnext.ge
  | added hborn htouched htcbSet hnext => exact s.next.le_succ.trans hnext.ge
  | removed hmem hdies htouched htcbSet hnext => exact hnext.ge
  | out he hs' => exact hs' ▸ le_rfl

/-- **What becomes of a stream** in an event, and what is noted of it. -/
inductive Becomes (s : Stack) (e : Event) (p : Ptr) :
    Option TcpStream → List StreamNote → Option TcpStream → Prop
  | absent : Becomes s e p none [] none
  | stays (x : TcpStream) : Becomes s e p (some x) [] (some x)
  | evolves {x x' : TcpStream} {notes : List StreamNote} (hevolves : Evolves s p x e notes x') :
    Becomes s e p (some x) (notes ++ x'.grown (x.rcvbuf, x.sndbuf)) (some x')
  | born {x : TcpStream} (hp : p = s.next) (hborn : Born s e x) :
    Becomes s e p none (x.grown ([], [])) (some x)
  | removed {x : TcpStream} (hstatus : x.status = .listen ∨ x.status = .lastAck) :
    Becomes s e p (some x) [] none
  | out {x : TcpStream} {macaddr : UInt32 → Option Mac} (he : e = .out macaddr) :
    Becomes s e p (some x) (((x.out macaddr p).1.filterMap OutPacket.sent?).map Prod.snd)
      (some (x.out macaddr p).2)

/-- What is noted of a stream, among what is noted of all. -/
def notesOn (p : Ptr) (notes : List (Ptr × StreamNote)) : List StreamNote :=
  notes.filterMap (fun y => if y.1 = p then some y.2 else none)

theorem notesOn_append (p : Ptr) (notes notes' : List (Ptr × StreamNote)) :
    notesOn p (notes ++ notes') = notesOn p notes ++ notesOn p notes' := List.filterMap_append

theorem notesOn_map (p : Ptr) (notes : List StreamNote) :
    notesOn p (notes.map (fun n => (p, n))) = notes := by
  unfold notesOn
  rw [List.filterMap_map]
  refine (List.filterMap_congr (fun n _ => ?_)).trans List.filterMap_some
  exact if_pos rfl

theorem notesOn_map_of_ne (hne : q ≠ p) (notes : List StreamNote) :
    notesOn p (notes.map (fun n => (q, n))) = [] := by
  unfold notesOn
  rw [List.filterMap_map, List.filterMap_eq_nil_iff]
  exact fun n _ => if_neg hne

/-- **What the rings of a stream get.** -/
theorem notesOn_put (hs' : s'.Allotted) :
    notesOn p (s.put s') = (s'.stream? p).elim [] (fun x' => x'.grown (s.rings p)) := by
  have hother : ∀ y ∈ s'.tcbSet, y.1 ≠ p →
      notesOn p ((y.2.grown (s.rings y.1)).map (fun n => (y.1, n))) = [] :=
    fun y _ hne => notesOn_map_of_ne hne _
  unfold put
  rw [notesOn, List.filterMap_flatMap]
  cases hx : s'.stream? p with
  | none =>
    refine List.flatMap_eq_nil_iff.mpr (fun y hy => hother y hy ?_)
    rintro rfl
    exact stream?_eq_none.mp hx y.2 hy
  | some x' =>
    refine (NodeList.flatMap_eq_of_distinct hs'.distinct ((stream?_eq_some hs').mp hx) hother).trans ?_
    exact notesOn_map p _

/-- **What the log gets for a stream.** -/
theorem history_notes (hs' : s'.Allotted) :
    history p (s.notes e s')
      = notesOn p (s.touched e) ++ (s'.stream? p).elim [] (fun x' => x'.grown (s.rings p)) := by
  have hreceived : history p e.received = [] := by
    unfold Event.received
    cases e with
    | segment seg env =>
      simp only
      split <;> rfl
    | _ => rfl
  have hstream : ∀ notes : List (Ptr × StreamNote),
      history p (notes.map (fun x => .stream x.1 x.2)) = notesOn p notes := by
    intro notes
    unfold history
    rw [List.filterMap_map]
    rfl
  unfold notes
  rw [history_append, hreceived, List.nil_append, hstream, notesOn_append, notesOn_put hs']

/-- Nothing is behind the whole of the rings. -/
theorem grown_self (x : TcpStream) : x.grown (x.rcvbuf, x.sndbuf) = [] := by
  unfold TcpStream.grown
  rw [List.drop_length, List.drop_length]
  rfl

theorem rings_of_some (hx : s.stream? p = some x) : s.rings p = (x.rcvbuf, x.sndbuf) := by
  unfold rings
  rw [hx]
  rfl

theorem rings_of_none (hx : s.stream? p = none) : s.rings p = ([], []) := by
  unfold rings
  rw [hx]
  rfl

theorem stream?_congr (h : s'.tcbSet = s.tcbSet) (p : Ptr) : s'.stream? p = s.stream? p := by
  unfold stream?
  rw [h]

/-- What is noted where nothing changes. -/
theorem history_notes_same (hs' : s'.Allotted) (hsame : s'.stream? p = s.stream? p)
    (htouched : notesOn p (s.touched e) = []) : history p (s.notes e s') = [] := by
  rw [history_notes hs', htouched, hsame, List.nil_append]
  cases hx : s.stream? p with
  | none => rfl
  | some x =>
    rw [Option.elim_some, rings_of_some hx]
    exact grown_self x

/-- A stream that is where it was, as it was. -/
theorem becomes_same (hs' : s'.Allotted) (hsame : s'.stream? p = s.stream? p)
    (htouched : notesOn p (s.touched e) = []) :
    Becomes s e p (s.stream? p) (history p (s.notes e s')) (s'.stream? p) := by
  rw [history_notes_same hs' hsame htouched, hsame]
  cases s.stream? p with
  | none => exact .absent
  | some x => exact .stays x

/-! ## The loop that sends -/

theorem stream?_ngTcpOut (s : Stack) (macaddr : UInt32 → Option Mac) (p : Ptr) :
    (s.ngTcpOut macaddr).2.stream? p = (s.stream? p).map (fun x => (x.out macaddr p).2) := by
  unfold stream? ngTcpOut
  rw [List.find?_map, Option.map_map, Option.map_map]
  cases hfind : s.tcbSet.find? (fun x => x.1 = p) with
  | none =>
    have hnone : s.tcbSet.find? ((fun x => decide (x.1 = p)) ∘ fun x => (x.1, (x.2.out macaddr x.1).2))
        = none := hfind
    rw [hnone]
    rfl
  | some y =>
    have hsome : s.tcbSet.find? ((fun x => decide (x.1 = p)) ∘ fun x => (x.1, (x.2.out macaddr x.1).2))
        = some y := hfind
    obtain rfl : y.1 = p := by simpa using List.find?_some hfind
    rw [hsome]
    rfl

/-- Sending leaves all of this as it is. -/
theorem out_eq (x : TcpStream) (macaddr : UInt32 → Option Mac) (p : Ptr) :
    ∃ sndbuf, (x.out macaddr p).2 = { x with sndbuf := sndbuf } := by
  unfold TcpStream.out
  split
  · exact ⟨x.sndbuf, rfl⟩
  · split
    · exact ⟨_, rfl⟩
    · exact ⟨_, rfl⟩

/-- A ring is no longer after it was visited. -/
theorem length_out_le (x : TcpStream) (macaddr : UInt32 → Option Mac) (p : Ptr) :
    (x.out macaddr p).2.sndbuf.length ≤ x.sndbuf.length := by
  unfold TcpStream.out
  split
  · exact le_rfl
  · next fragment sndbuf hsndbuf =>
    rw [hsndbuf, List.length_cons]
    split
    · show (ringEnqueue sndbuf fragment).length ≤ _
      rcases ringEnqueue_cases sndbuf fragment with hring | hring
      · rw [hring]
        exact Nat.le_succ _
      · rw [hring, List.length_append, List.length_singleton]
    · exact Nat.le_succ _

/-- What is sent from a stream is noted of this stream. -/
theorem filterMap_out (x : TcpStream) (macaddr : UInt32 → Option Mac) (p q : Ptr) :
    notesOn p ((x.out macaddr q).1.filterMap OutPacket.sent?)
      = if q = p then ((x.out macaddr q).1.filterMap OutPacket.sent?).map Prod.snd else [] := by
  unfold notesOn TcpStream.out
  split
  · simp
  · split
    · have hnil : [OutPacket.arp x.dip x.sip].filterMap OutPacket.sent? = [] := rfl
      simp [hnil]
    · next dstmac _ =>
      have hone : ∀ f, [OutPacket.tcp q dstmac f].filterMap OutPacket.sent? = [(q, .sent f)] :=
        fun f => rfl
      rw [hone]
      by_cases hq : q = p <;> simp [hq]

theorem notesOn_out (s : Stack) (macaddr : UInt32 → Option Mac) (p : Ptr) :
    notesOn p (s.touched (.out macaddr)) = s.tcbSet.flatMap (fun y =>
      if y.1 = p then ((y.2.out macaddr y.1).1.filterMap OutPacket.sent?).map Prod.snd else []) := by
  unfold touched ngTcpOut notesOn
  simp only [List.filterMap_flatMap]
  exact List.flatMap_congr (fun y _ => filterMap_out y.2 macaddr p y.1)

theorem notesOn_out_of_mem (h : s.Allotted) (hmem : (p, x) ∈ s.tcbSet)
    (macaddr : UInt32 → Option Mac) :
    notesOn p (s.touched (.out macaddr))
      = ((x.out macaddr p).1.filterMap OutPacket.sent?).map Prod.snd := by
  rw [notesOn_out, NodeList.flatMap_eq_of_distinct h.distinct hmem (fun y _ hy => if_neg hy)]
  exact if_pos rfl

theorem notesOn_out_of_none (h : s.stream? p = none) (macaddr : UInt32 → Option Mac) :
    notesOn p (s.touched (.out macaddr)) = [] := by
  rw [notesOn_out]
  refine List.flatMap_eq_nil_iff.mpr (fun y hy => if_neg ?_)
  rintro rfl
  exact stream?_eq_none.mp h y.2 hy

/-- Nothing is put into a ring that is visited. -/
theorem grown_out (x : TcpStream) (macaddr : UInt32 → Option Mac) (p : Ptr) :
    (x.out macaddr p).2.grown (x.rcvbuf, x.sndbuf) = [] := by
  have hrcvbuf : (x.out macaddr p).2.rcvbuf = x.rcvbuf := by
    obtain ⟨sndbuf, hout⟩ := out_eq x macaddr p
    rw [hout]
  unfold TcpStream.grown
  rw [hrcvbuf, List.drop_length, List.drop_of_length_le (length_out_le x macaddr p)]
  rfl

/-! ## One stream -/

/-- **What becomes of each stream.** -/
theorem Changes.becomes (hchanges : Changes s e s') (h : s.Allotted) (p : Ptr) :
    Becomes s e p (s.stream? p) (history p (s.notes e s')) (s'.stream? p) := by
  have hs' := hchanges.allotted h
  cases hchanges with
  | quiet htouched htcbSet hnext =>
    exact becomes_same hs' (stream?_congr htcbSet p) (by rw [htouched]; rfl)
  | @written q x x' notes hmem hevolves htouched htcbSet hnext =>
    by_cases hp : q = p
    · subst hp
      have hx : s.stream? q = some x := (stream?_eq_some h).mpr hmem
      have hx' : s'.stream? q = some x' := by
        refine (stream?_eq_some hs').mpr ?_
        rw [htcbSet]
        exact mem_setStream.mpr (Or.inr ⟨x, hmem, rfl⟩)
      rw [history_notes hs', htouched, notesOn_map, hx', Option.elim_some, rings_of_some hx, hx]
      exact .evolves hevolves
    · refine becomes_same hs' ?_ ?_
      · refine Option.ext (fun y => ?_)
        rw [stream?_eq_some hs', stream?_eq_some h, htcbSet,
          mem_setStream]
        constructor
        · rintro (⟨-, hy⟩ | ⟨-, -, hy⟩)
          · exact hy
          · exact absurd (Prod.mk.inj hy).1.symm hp
        · exact fun hy => Or.inl ⟨fun hq => hp hq.symm, hy⟩
      · rw [htouched]
        exact notesOn_map_of_ne hp notes
  | @added x hborn htouched htcbSet hnext =>
    by_cases hp : p = s.next
    · subst hp
      have hx : s.stream? s.next = none := stream?_of_le h le_rfl
      have hx' : s'.stream? s.next = some x := by
        refine (stream?_eq_some hs').mpr ?_
        rw [htcbSet]
        exact List.mem_cons_self
      rw [history_notes hs', htouched, hx', Option.elim_some, rings_of_none hx, hx]
      exact .born rfl hborn
    · refine becomes_same hs' ?_ (by rw [htouched]; rfl)
      unfold stream?
      rw [htcbSet, List.find?_cons_of_neg (by simpa using Ne.symm hp)]
  | @removed q x hmem hdies htouched htcbSet hnext =>
    by_cases hp : q = p
    · subst hp
      have hx : s.stream? q = some x := (stream?_eq_some h).mpr hmem
      have hx' : s'.stream? q = none := by
        refine stream?_eq_none.mpr (fun y hy => ?_)
        rw [htcbSet] at hy
        exact (NodeList.mem_remove.mp hy).2 rfl
      rw [history_notes hs', htouched, hx', hx]
      exact .removed hdies.status
    · refine becomes_same hs' ?_ (by rw [htouched]; rfl)
      refine Option.ext (fun y => ?_)
      rw [stream?_eq_some hs', stream?_eq_some h, htcbSet,
        NodeList.mem_remove]
      exact and_iff_left (fun hq => hp hq.symm)
  | @out macaddr he hout =>
    subst he hout
    have hx' : (s.ngTcpOut macaddr).2.stream? p
        = (s.stream? p).map (fun x => (x.out macaddr p).2) := stream?_ngTcpOut s macaddr p
    cases hx : s.stream? p with
    | none =>
      rw [hx] at hx'
      rw [history_notes_same hs' (hx'.trans hx.symm) (notesOn_out_of_none hx macaddr), hx']
      exact .absent
    | some x =>
      rw [hx] at hx'
      have hmem := (stream?_eq_some h).mp hx
      rw [history_notes hs', hx', notesOn_out_of_mem h hmem, rings_of_some hx]
      show Becomes s _ p _ (_ ++ (x.out macaddr p).2.grown (x.rcvbuf, x.sndbuf)) _
      rw [grown_out, List.append_nil]
      exact .out rfl

/-! ## Runs -/

theorem tcpMachine_eq_some {out : List TcpNote} (h : tcpMachine s e = some (out, s')) :
    s.handle e = .ok s' ∧ out = s.notes e s' := by
  obtain ⟨t, ht, heq⟩ := exists_of_map_eq_ok (eq_ok_of_toOption h)
  obtain ⟨rfl, rfl⟩ := Prod.mk.inj heq
  exact ⟨ht, rfl⟩

theorem init_allotted : init.Allotted := ⟨List.nodup_nil, fun _ hx => absurd hx List.not_mem_nil⟩

section Run

variable {P : Stack → Event → Prop} {log : List TcpNote}

/-- **In every run** streams have addresses of their own, and nothing has happened
at an address that was not allocated yet. -/
theorem reach_allotted (hreach : tcpMachine.Reach P init log s) :
    s.Allotted ∧ ∀ p, s.next ≤ p → history p log = [] := by
  refine hreach.invariant (I := fun log s => s.Allotted ∧ ∀ p, s.next ≤ p → history p log = [])
    ⟨init_allotted, fun _ _ => rfl⟩ ?_
  rintro log s e out s' ⟨hallotted, hnew⟩ - hstep
  obtain ⟨hok, rfl⟩ := tcpMachine_eq_some hstep
  have hchanges := handle_changes hallotted hok
  refine ⟨hchanges.allotted hallotted, fun p hp => ?_⟩
  have hbecomes := hchanges.becomes hallotted p
  rw [stream?_of_le hallotted (hchanges.next_le.trans hp),
    stream?_of_le (hchanges.allotted hallotted) hp] at hbecomes
  rw [history_append, hnew p (hchanges.next_le.trans hp), List.nil_append]
  generalize hout : history p (s.notes e s') = notes at hbecomes
  cases hbecomes with
  | absent => rfl

/-- **The invariant rule for one stream**: what holds where nothing is and
nothing has happened, and is kept by whatever becomes of the stream. -/
theorem reach_stream {I : Ptr → List TcpNote → Option TcpStream → Prop} (hinit : ∀ p, I p [] none)
    (hkeep : ∀ {log s e s' p}, s.Allotted → (s.next ≤ p → history p log = []) → P s e →
      Becomes s e p (s.stream? p) (history p (s.notes e s')) (s'.stream? p) →
      I p log (s.stream? p) → I p (log ++ s.notes e s') (s'.stream? p))
    (hreach : tcpMachine.Reach P init log s) (p : Ptr) : I p log (s.stream? p) := by
  induction hreach with
  | refl => exact hinit p
  | @step log out s s' e hreach hP hstep ih =>
    obtain ⟨hok, rfl⟩ := tcpMachine_eq_some hstep
    obtain ⟨hallotted, hnew⟩ := reach_allotted hreach
    exact hkeep hallotted (hnew p) hP ((handle_changes hallotted hok).becomes hallotted p) ih

end Run

/-! ## A connection -/

/-- What comes with a segment of a peer: memory for everything, and the number that
the stream starts with. -/
def peerEnv : SegmentEnv := ⟨fun _ => true, 1000, 0⟩

/-- **A peer connects** to a listener that epoll watches over, and is accepted as
descriptor 5. Its stream is at address 3. -/
def connects : List Event :=
  [.nsocket .stream (fun _ => true), .nbind 3 ⟨4, 0⟩, .nlisten 3, .nepollCreate 1 true,
    .segment (peerSegment RTE_TCP_SYN_FLAG 500 0 []) peerEnv,
    .segment (peerSegment RTE_TCP_ACK_FLAG 501 1001 []) peerEnv, .naccept 3]

end Stack

end Ustack
