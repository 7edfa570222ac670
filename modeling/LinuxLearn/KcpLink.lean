import LinuxLearn.KcpMessages

/-!
# Two control blocks and a network that loses

Two programs have a control block each, with the same conversation number. They send,
receive, flush and change the settings when they like. A datagram that one of them put out
may arrive at the other at any time after that, any number of times or never.

Whatever happens, the messages that one program has received are the first ones that the
other one has sent, in their order, each once and unchanged (`heard_isPrefix`). In either mode
every byte that was taken is in one place: received, or in a queue, or under way in a
segment that one of the two control blocks still has (`all_accounted`).

The numbers of the segments have 32 bits, and the network forgets nothing, so this holds
as long as fewer than `2 ^ 31` segments were given numbers. And a program that has done what
C leaves undefined need not go on at all: the runs here are those in which none has.
-/

open SlidingWindow Fragmentation

namespace Kcp

/-- **The two ends.** -/
inductive End where
  | near
  | far
deriving DecidableEq

/-- The other end. -/
def End.peer : End → End
  | .near => .far
  | .far => .near

@[simp] theorem End.peer_peer (x : End) : x.peer.peer = x := by
  cases x with
  | near => rfl
  | far => rfl

theorem End.peer_ne (x : End) : x.peer ≠ x := by
  cases x with
  | near => exact nofun
  | far => exact nofun

theorem End.eq_or_peer (x y : End) : y = x ∨ y = x.peer := by
  cases x <;> cases y <;> simp [End.peer]

/-- **One of the programs**: its control block, every datagram that was ever put out, the
messages that `ikcp_send` took and those that `ikcp_recv` gave, the bytes that were taken, and
how many segments left the queue. -/
structure Party where
  kcp : Ikcpcb
  out : List (List UInt8)
  said : List (List UInt8)
  heard : List (List UInt8)
  taken : List UInt8
  numbered : ℕ

/-- A control block just created, in one of the modes. -/
def Party.init (conv : UInt32) (stream : Int32) : Party :=
  ⟨{ ikcpCreate conv with stream := stream }, [], [], [], [], 0⟩

/-- The message that a request sends. -/
def Party.says (p : Party) : Request → List (List UInt8)
  | .send buffer => if (ikcpSend p.kcp buffer.val).1 = 0 then [buffer.val] else []
  | _ => []

/-- The bytes that a request sends. -/
def Party.takes (p : Party) : Request → List UInt8
  | .send buffer => accepted p.kcp buffer.val
  | _ => []

/-- The message that a request takes off the queue. -/
def Party.hears (p : Party) : Request → List (List UInt8)
  | .recv len => if 0 ≤ (ikcpRecv p.kcp len).1 ∧ 0 ≤ len then [(ikcpRecv p.kcp len).2.1] else []
  | _ => []

/-- **A program makes a request.** -/
def Party.request (p : Party) (req : Request) : Party where
  kcp := (p.kcp.request req).2
  out := p.out ++ (p.kcp.request req).1
  said := p.said ++ p.says req
  heard := p.heard ++ p.hears req
  taken := p.taken ++ p.takes req
  numbered := p.numbered + (p.kcp.sndQueue.length - (p.kcp.request req).2.sndQueue.length)

/-- **A datagram arrives.** -/
def Party.arrive (p : Party) (data : List UInt8) : Party := { p with kcp := (ikcpInput p.kcp data).2 }

/-- **What may happen**: one of the programs makes a request, or a datagram that the other one
put out arrives. -/
inductive Event where
  | request (x : End) (req : Request)
  | arrive (x : End) (i : ℕ)

/-- The two programs after an event. -/
def step (link : End → Party) : Event → End → Party
  | .request x req => Function.update link x ((link x).request req)
  | .arrive x i =>
    match (link x.peer).out[i]? with
    | some data => Function.update link x ((link x).arrive data)
    | none => link

/-- The two programs after an event in which neither does anything undefined. -/
def advance (link : End → Party) (e : Event) : Option (End → Party) :=
  if (step link e .near).kcp.undefined || (step link e .far).kcp.undefined then none
  else some (step link e)

/-- **The two programs after some events**, in none of which anything undefined was done. -/
def run (conv : UInt32) (stream : Int32) (events : List Event) : Option (End → Party) :=
  events.foldlM advance (fun _ => .init conv stream)

theorem eq_of_advance {link link' : End → Party} {e : Event} (h : advance link e = some link') :
    link' = step link e := by
  unfold advance at h
  split at h
  · cases h
  · exact (Option.some.inj h).symm

/-- A run is one event after another. -/
theorem eq_of_foldlM_advance {link link' : End → Party} {events : List Event}
    (h : events.foldlM advance link = some link') : link' = events.foldl step link := by
  induction events generalizing link with
  | nil => exact (Option.some.inj h).symm
  | cons e events ih =>
    obtain ⟨next, hnext, hrest⟩ := Option.bind_eq_some_iff.mp h
    rw [List.foldl_cons, ← eq_of_advance hnext]
    exact ih hrest

/-- A run goes on from where it has come to. -/
theorem run_append {conv : UInt32} {stream : Int32} {events more : List Event} {link : End → Party}
    (h : run conv stream events = some link) :
    run conv stream (events ++ more) = more.foldlM advance link := by
  unfold run at h ⊢
  rw [List.foldlM_append, h]
  rfl

variable {conv : UInt32} {stream : Int32} {p p' : Party} {read : List Payload}
  {hs hr hs' hr' : State Payload} {kcp : Ikcpcb}

/-! ## One end -/

/-- **What was taken is what was given numbers or is to be**, in messages if they mean
something. -/
structure Tells (stream : Int32) (p : Party) (hs : State Payload) : Prop where
  numbered : hs.sent.length = p.numbered
  taken : (offered p.kcp hs).flatMap Prod.snd = p.taken
  frg : ∀ q ∈ offered p.kcp hs, q.1 < 256
  said : stream = 0 → Messages p.said (offered p.kcp hs)

/-- **What was given is what was read**, in messages if they mean something. -/
structure Hears (stream : Int32) (p : Party) (read : List Payload) : Prop where
  heard : p.heard.flatten = read.flatMap Prod.snd
  messages : stream = 0 → Messages p.heard read

/-- **A datagram that was sent in the windows.** -/
def Carried (conv : UInt32) (hs hr : State Payload) (data : List UInt8) : Prop :=
  ∃ segs, data = datagram segs ∧ segs ≠ [] ∧ ∀ seg ∈ segs, Carries conv hs hr seg

/-- **One end between the two windows.** -/
structure AtEnd (conv : UInt32) (stream : Int32) (p : Party) (read : List Payload)
    (hs hr : State Payload) : Prop where
  endpoint : Endpoint p.kcp read hs hr
  live : Live hs
  conv_eq : p.kcp.conv = conv
  stream_eq : p.kcp.stream = stream
  tells : Tells stream p hs
  hears : Hears stream p read
  out : ∀ data ∈ p.out, Carried conv hs hr data

theorem Carried.mono {data : List UInt8} (hc : Carried conv hs hr data) (hsteps : Steps hs hs')
    (hsteps' : Steps hr hr') : Carried conv hs' hr' data := by
  obtain ⟨segs, rfl, hne, hsegs⟩ := hc
  exact ⟨segs, rfl, hne, fun seg hseg => (hsegs seg hseg).mono hsteps hsteps'⟩

/-- Where nothing is sent or read. -/
theorem Tells.same (htells : Tells stream p hs) (hqueue : p'.kcp.sndQueue = p.kcp.sndQueue)
    (hsent : hs'.sent = hs.sent) (hnumbered : p'.numbered = p.numbered) (htaken : p'.taken = p.taken)
    (hsaid : p'.said = p.said) : Tells stream p' hs' := by
  have hoffered : offered p'.kcp hs' = offered p.kcp hs := by
    unfold offered
    rw [hqueue, hsent]
  refine ⟨?_, ?_, ?_, ?_⟩
  · rw [hsent, hnumbered]
    exact htells.numbered
  · rw [hoffered, htaken]
    exact htells.taken
  · rw [hoffered]
    exact htells.frg
  · rw [hoffered, hsaid]
    exact htells.said

theorem Hears.same (hhears : Hears stream p read) (hheard : p'.heard = p.heard) :
    Hears stream p' read where
  heard := by rw [hheard, hhears.heard]
  messages := by
    rw [hheard]
    exact hhears.messages

/-- **What happens at the other end** does not concern this one. -/
theorem AtEnd.other (h : AtEnd conv stream p read hs hr) (htakes : Takes hs hs')
    (hoffers : Offers hr hr') : AtEnd conv stream p read hs' hr' where
  endpoint := ⟨h.endpoint.ok, h.endpoint.cut, h.endpoint.sends.takes htakes,
    h.endpoint.receives.offers hoffers⟩
  live := h.live.takes htakes
  conv_eq := h.conv_eq
  stream_eq := h.stream_eq
  tells := h.tells.same rfl htakes.sent rfl rfl rfl
  hears := h.hears
  out := fun data hdata => (h.out data hdata).mono htakes.steps hoffers.steps

/-- **A datagram from the other end arrives.** -/
theorem AtEnd.arrive {data : List UInt8} (h : AtEnd conv stream p read hs hr) (hliver : Live hr)
    (hdata : Carried conv hr hs data) : ∃ hs' hr', Offers hs hs' ∧ Takes hr hr'
      ∧ AtEnd conv stream (p.arrive data) read hs' hr' := by
  obtain ⟨segs, rfl, hne, hsegs⟩ := hdata
  obtain ⟨hs', hr', hreleases, htakes, -, hendpoint⟩ :=
    h.endpoint.input h.live hliver hne (fun seg hseg => h.conv_eq ▸ hsegs seg hseg)
  have huntouched := untouched_input p.kcp (datagram segs)
  have hqueue : (p.arrive (datagram segs)).kcp.sndQueue = p.kcp.sndQueue := congrArg Untouched.sndQueue huntouched
  have hsettings := congrArg Untouched.settings huntouched
  refine ⟨hs', hr', hreleases.toOffers, htakes, hendpoint, h.live.releases hreleases, ?_, ?_, ?_,
    h.hears.same rfl, fun data hdata => (h.out data hdata).mono hreleases.steps htakes.steps⟩
  · exact (congrArg Settings.conv hsettings).trans h.conv_eq
  · exact (congrArg Settings.stream hsettings).trans h.stream_eq
  · exact h.tells.same hqueue hreleases.sent rfl rfl rfl

/-- Another control block with the same queue. -/
theorem AtEnd.withKcp (h : AtEnd conv stream p read hs hr) (hend : Endpoint kcp read hs hr)
    (hconv : kcp.conv = p.kcp.conv) (hstream : kcp.stream = p.kcp.stream)
    (hqueue : kcp.sndQueue = p.kcp.sndQueue) : AtEnd conv stream { p with kcp := kcp } read hs hr where
  endpoint := hend
  live := h.live
  conv_eq := hconv.trans h.conv_eq
  stream_eq := hstream.trans h.stream_eq
  tells := h.tells.same hqueue rfl rfl rfl rfl
  hears := h.hears.same rfl
  out := h.out

/-- A request that neither sends nor gives anything. -/
theorem Party.request_quiet {req : Request} (heq : p.kcp.request req = ([], kcp))
    (hqueue : kcp.sndQueue = p.kcp.sndQueue) (hsaid : p.says req = []) (htakes : p.takes req = [])
    (hhears : p.hears req = []) : p.request req = { p with kcp := kcp } := by
  unfold Party.request
  rw [heq, hsaid, htakes, hhears, hqueue]
  simp only [List.append_nil, Nat.sub_self, Nat.add_zero]

/-- **A program reads.** -/
theorem AtEnd.recv {said : List (List UInt8)} {sent : List Payload} (h : AtEnd conv stream p read hs hr)
    (hliver : Live hr) (hsent : hr.sent <+: sent) (hfrg : ∀ q ∈ sent, q.1 < 256)
    (hsaid : stream = 0 → Messages said sent) (len : ℤ) :
    ∃ read' hr', Takes hr hr' ∧ AtEnd conv stream (p.request (.recv len)) read' hs hr' := by
  have huntouched := untouched_recv p.kcp len
  have hsettings := congrArg Untouched.settings huntouched
  have hqueue : (p.request (.recv len)).kcp.sndQueue = p.kcp.sndQueue := congrArg Untouched.sndQueue huntouched
  have hnumbered : (p.request (.recv len)).numbered = p.numbered := by
    show p.numbered + (p.kcp.sndQueue.length - (p.request (.recv len)).kcp.sndQueue.length) = _
    rw [hqueue, Nat.sub_self, Nat.add_zero]
  have htells : Tells stream (p.request (.recv len)) hs :=
    h.tells.same hqueue rfl hnumbered (List.append_nil _) (List.append_nil _)
  have hconv := (congrArg Settings.conv hsettings).trans h.conv_eq
  have hstream := (congrArg Settings.stream hsettings).trans h.stream_eq
  have hout : (p.request (.recv len)).out = p.out := List.append_nil _
  obtain ⟨hr', htakes, ⟨hret, hlen, hne, hsize, hdata, hend⟩ | ⟨hnot, hend⟩⟩ := h.endpoint.recv hliver len
  · have hheard : (p.request (.recv len)).heard
        = p.heard ++ [(mergeFragment p.kcp.rcvQueue).1.flatMap Ikcpseg.data] := by
      refine congrArg (p.heard ++ ·) ?_
      show (if 0 ≤ (ikcpRecv p.kcp len).1 ∧ 0 ≤ len then [(ikcpRecv p.kcp len).2.1] else []) = _
      rw [if_pos ⟨hret, hlen⟩, hdata]
    refine ⟨_, hr', htakes, hend, h.live, hconv, hstream, htells, ⟨?_, fun hzero => ?_⟩,
      fun data hmem => (h.out data (hout ▸ hmem)).mono .refl htakes.steps⟩
    · rw [hheard, List.flatten_append, h.hears.heard, List.flatMap_append, List.flatMap_map]
      exact congrArg _ (List.append_nil _)
    · rw [hheard]
      exact h.endpoint.recv_message hliver hsent hfrg (hsaid hzero) (h.hears.messages hzero) hne hsize
  · have hheard : (p.request (.recv len)).heard = p.heard := by
      show p.heard ++ (if 0 ≤ (ikcpRecv p.kcp len).1 ∧ 0 ≤ len then [(ikcpRecv p.kcp len).2.1] else [])
        = p.heard
      rw [if_neg hnot, List.append_nil]
    exact ⟨read, hr', htakes, hend, h.live, hconv, hstream, htells, h.hears.same hheard,
      fun data hmem => (h.out data (hout ▸ hmem)).mono .refl htakes.steps⟩

/-- **A program sends.** -/
theorem AtEnd.send (h : AtEnd conv stream p read hs hr) (buffer : Buffer) :
    AtEnd conv stream (p.request (.send buffer)) read hs hr := by
  obtain ⟨hend, hbytes⟩ := h.endpoint.send buffer.property
  have hsettings := settings_send p.kcp buffer.val
  have hout : (p.request (.send buffer)).out = p.out := List.append_nil _
  refine ⟨hend, h.live, (congrArg Settings.conv hsettings).trans h.conv_eq,
    (congrArg Settings.stream hsettings).trans h.stream_eq, ⟨?_, ?_, fun q hq => ?_, fun hzero => ?_⟩,
    h.hears.same (List.append_nil _), fun data hmem => h.out data (hout ▸ hmem)⟩
  · rw [h.tells.numbered]
    show p.numbered = p.numbered + (p.kcp.sndQueue.length - (ikcpSend p.kcp buffer.val).2.sndQueue.length)
    rw [Nat.sub_eq_zero_of_le (length_le_send p.kcp buffer.val), Nat.add_zero]
  · show (hs.sent ++ (ikcpSend p.kcp buffer.val).2.sndQueue.map Ikcpseg.payload).flatMap Prod.snd
      = p.taken ++ accepted p.kcp buffer.val
    have htaken := h.tells.taken
    unfold offered at htaken
    rw [List.flatMap_append, List.flatMap_map] at htaken
    rw [List.flatMap_append, List.flatMap_map, ← htaken, List.append_assoc]
    exact congrArg _ hbytes
  · rcases List.mem_append.mp hq with hq | hq
    · exact h.tells.frg q (List.mem_append_left _ hq)
    · obtain ⟨seg, hseg, rfl⟩ := List.mem_map.mp hq
      exact (hend.sends.queue seg hseg).frg
  · have hfailed : ¬ (-2 : ℤ) = 0 := by decide
    have hsaid := h.tells.said hzero
    show Messages (p.said ++ if (ikcpSend p.kcp buffer.val).1 = 0 then [buffer.val] else [])
      (hs.sent ++ (ikcpSend p.kcp buffer.val).2.sndQueue.map Ikcpseg.payload)
    rcases ikcpSend_message h.endpoint.cut (h.stream_eq.trans hzero) buffer.property with
      heq | ⟨segs, nQue, heq, hmsg, -⟩
    · rw [heq, if_neg hfailed, List.append_nil]
      exact hsaid
    · rw [heq, if_pos rfl]
      show Messages _ (hs.sent ++ (p.kcp.sndQueue ++ segs).map Ikcpseg.payload)
      rw [List.map_append, ← List.append_assoc]
      exact hsaid.append (.single hmsg)

/-- **A program flushes.** -/
theorem AtEnd.flush (h : AtEnd conv stream p read hs hr)
    (hbound : (p.request .flush).numbered < 2 ^ 31) : ∃ hs' hr', Offers hs hs' ∧ Takes hr hr'
      ∧ AtEnd conv stream (p.request .flush) read hs' hr'
      ∧ (p.kcp.updated ≠ 0 → ∀ seg, p.kcp.Puts seg → Carries conv hs' hr' seg) := by
  obtain ⟨hs', hr', hoffers, htakes, hoffered, hend⟩ := h.endpoint.flush
  have hlen := congrArg List.length hoffered
  unfold offered at hlen
  rw [List.length_append, List.length_append, List.length_map, List.length_map, h.tells.numbered] at hlen
  have hgrow := hoffers.steps.sent_isPrefix.length_le
  rw [h.tells.numbered] at hgrow
  have hnumbered : hs'.sent.length = (p.request .flush).numbered := by
    show hs'.sent.length = p.numbered + (p.kcp.sndQueue.length - (ikcpFlush p.kcp).2.sndQueue.length)
    omega
  obtain ⟨hend, hputs⟩ := hend (hnumbered ▸ hbound)
  have hsettings := settings_flush p.kcp
  have hoffered' : offered (p.request .flush).kcp hs' = offered p.kcp hs := hoffered
  refine ⟨hs', hr', hoffers, htakes, ⟨hend, ⟨h.live.reachable.trans hoffers.steps, hnumbered ▸ hbound⟩,
    (congrArg Settings.conv hsettings).trans h.conv_eq,
    (congrArg Settings.stream hsettings).trans h.stream_eq, ⟨hnumbered, ?_, ?_, ?_⟩,
    h.hears.same (List.append_nil _), fun data hmem => ?_⟩, h.conv_eq ▸ hputs⟩
  · rw [hoffered', h.tells.taken]
    exact (List.append_nil _).symm
  · rw [hoffered']
    exact h.tells.frg
  · rw [hoffered', show (p.request .flush).said = p.said from List.append_nil _]
    exact h.tells.said
  · rcases List.mem_append.mp hmem with hmem | hmem
    · exact (h.out data hmem).mono hoffers.steps htakes.steps
    · have hupdated : p.kcp.updated ≠ 0 := by
        intro hzero
        have hnone : (ikcpFlush p.kcp).1 = [] := by
          unfold ikcpFlush
          rw [if_pos hzero]
        exact absurd (hnone ▸ hmem) List.not_mem_nil
      obtain ⟨segs, rfl, hne, hsegs⟩ := mem_flush hmem
      exact ⟨segs, rfl, hne, fun seg hseg => h.conv_eq ▸ hputs hupdated seg (hsegs seg hseg)⟩

/-- Whatever the mtu is set to, a segment has room for data. -/
theorem cut_setmtu (h : 0 < kcp.mss.toNat ∧ kcp.mss.toNat < 2 ^ 31) (mtu : Int32) :
    0 < (ikcpSetmtu kcp mtu).2.mss.toNat ∧ (ikcpSetmtu kcp mtu).2.mss.toNat < 2 ^ 31 := by
  unfold ikcpSetmtu
  split
  · exact h
  · next hmtu =>
    have hge : 50 ≤ mtu.toInt := Int32.le_iff_toInt_le.mp (Int32.not_lt.mp (not_or.mp hmtu).1)
    have hpos : mtu > 0 := Int32.lt_iff_toInt_lt.mpr (show (0 : ℤ) < mtu.toInt by omega)
    have hlt := toNat_toUInt32_lt hpos
    have hnat := toInt_eq_toNat hpos
    have hover : IKCP_OVERHEAD.toNat = 24 := rfl
    show 0 < (mtu.toUInt32 - IKCP_OVERHEAD).toNat ∧ (mtu.toUInt32 - IKCP_OVERHEAD).toNat < 2 ^ 31
    rw [UInt32.toNat_sub_of_le _ _ (UInt32.le_iff_toNat_le.mpr (by omega)), hover]
    omega

/-- **A program makes a request.** What the other side has sent is known to be in messages, if
they mean something. -/
theorem AtEnd.request {said : List (List UInt8)} {sent : List Payload}
    (h : AtEnd conv stream p read hs hr) (hliver : Live hr) (hsent : hr.sent <+: sent)
    (hfrg : ∀ q ∈ sent, q.1 < 256) (hsaid : stream = 0 → Messages said sent) (req : Request)
    (hbound : (p.request req).numbered < 2 ^ 31) : ∃ read' hs' hr', Offers hs hs' ∧ Takes hr hr'
      ∧ AtEnd conv stream (p.request req) read' hs' hr' := by
  have hok := h.endpoint.ok.request req
  cases req with
  | recv len =>
    obtain ⟨read', hr', htakes, hend⟩ := h.recv hliver hsent hfrg hsaid len
    exact ⟨read', hs, hr', .refl, htakes, hend⟩
  | send buffer => exact ⟨read, hs, hr, .refl, .refl, h.send buffer⟩
  | flush =>
    obtain ⟨hs', hr', hoffers, htakes, hend, -⟩ := h.flush hbound
    exact ⟨read, hs', hr', hoffers, htakes, hend⟩
  | update current =>
    obtain ⟨updated, tsFlush, -, heq⟩ := ikcpUpdate_cases p.kcp current
    generalize hclock : ({ p.kcp with current := current, updated := updated, tsFlush := tsFlush } : Ikcpcb)
      = clocked at heq
    have hset : AtEnd conv stream { p with kcp := clocked } read hs hr := by
      rw [← hclock]
      exact h.withKcp ⟨⟨h.endpoint.ok.sender, h.endpoint.ok.receiver⟩, h.endpoint.cut,
        h.endpoint.sends, h.endpoint.receives⟩ rfl rfl rfl
    have hqueue : clocked.sndQueue = p.kcp.sndQueue := by rw [← hclock]
    rcases heq with heq | heq
    · have hreq : p.kcp.request (.update current) = ([], clocked) := heq
      rw [Party.request_quiet hreq hqueue rfl rfl rfl]
      exact ⟨read, hs, hr, .refl, .refl, hset⟩
    · have hflush : p.request (.update current) = Party.request { p with kcp := clocked } .flush := by
        have hreq : p.kcp.request (.update current) = ikcpFlush clocked := heq
        unfold Party.request
        rw [hreq, ← hqueue]
        rfl
      rw [hflush] at hbound ⊢
      obtain ⟨hs', hr', hoffers, htakes, hend, -⟩ := hset.flush hbound
      exact ⟨read, hs', hr', hoffers, htakes, hend⟩
  | setmtu mtu =>
    have hcut := cut_setmtu h.endpoint.cut mtu
    obtain ⟨mtu', mss, buffer, heq⟩ := ikcpSetmtu_eq p.kcp mtu
    have hreq : p.kcp.request (.setmtu mtu)
        = ([], { p.kcp with mtu := mtu', mss := mss, buffer := buffer }) := congrArg (Prod.mk []) heq
    rw [hreq] at hok
    rw [heq] at hcut
    rw [Party.request_quiet hreq rfl rfl rfl rfl]
    exact ⟨read, hs, hr, .refl, .refl, h.withKcp ⟨hok, hcut, h.endpoint.sends, h.endpoint.receives⟩
      rfl rfl rfl⟩
  | interval interval =>
    have hreq : p.kcp.request (.interval interval)
        = ([], { p.kcp with interval := clampInterval interval }) := rfl
    rw [hreq] at hok
    rw [Party.request_quiet hreq rfl rfl rfl rfl]
    exact ⟨read, hs, hr, .refl, .refl, h.withKcp ⟨hok, h.endpoint.cut, h.endpoint.sends,
      h.endpoint.receives⟩ rfl rfl rfl⟩
  | nodelay nodelay interval resend nc =>
    obtain ⟨nodelay', minrto, interval', fastresend, nocwnd, heq⟩ :=
      ikcpNodelay_eq p.kcp nodelay interval resend nc
    have hreq : p.kcp.request (.nodelay nodelay interval resend nc)
        = ([], ikcpNodelay p.kcp nodelay interval resend nc) := rfl
    rw [heq] at hreq
    rw [hreq] at hok
    rw [Party.request_quiet hreq rfl rfl rfl rfl]
    exact ⟨read, hs, hr, .refl, .refl, h.withKcp ⟨hok, h.endpoint.cut, h.endpoint.sends,
      h.endpoint.receives⟩ rfl rfl rfl⟩
  | wndsize sndwnd rcvwnd =>
    obtain ⟨sndWnd, rcvWnd, heq⟩ := ikcpWndsize_eq p.kcp sndwnd rcvwnd
    have hreq : p.kcp.request (.wndsize sndwnd rcvwnd)
        = ([], { p.kcp with sndWnd := sndWnd, rcvWnd := rcvWnd }) := congrArg (Prod.mk []) heq
    have hrec := h.endpoint.receives
    rw [hreq] at hok
    rw [Party.request_quiet hreq rfl rfl rfl rfl]
    exact ⟨read, hs, hr, .refl, .refl, h.withKcp ⟨hok, h.endpoint.cut, h.endpoint.sends,
      ⟨hrec.nxt, hrec.queue, hrec.buf, hrec.early, hrec.acks⟩⟩ rfl rfl rfl⟩

/-! ## Both ends -/

/-- **Both ends between the two windows.** -/
def Between (conv : UInt32) (stream : Int32) (link : End → Party) (read : End → List Payload)
    (windows : End → State Payload) : Prop :=
  ∀ x, AtEnd conv stream (link x) (read x) (windows x) (windows x.peer)

/-- There are windows that both ends are between. -/
def Linked (conv : UInt32) (stream : Int32) (link : End → Party) : Prop :=
  ∃ read windows, Between conv stream link read windows

/-- Numbers that were given stay. -/
theorem numbered_le_step (link : End → Party) (e : Event) (x : End) :
    (link x).numbered ≤ (step link e x).numbered := by
  unfold step
  cases e with
  | request y req =>
    dsimp only
    by_cases hxy : x = y
    · subst hxy
      rw [Function.update_self]
      exact Nat.le_add_right _ _
    · rw [Function.update_of_ne hxy]
  | arrive y i =>
    dsimp only
    cases (link y.peer).out[i]? with
    | none => exact le_rfl
    | some data =>
      dsimp only
      by_cases hxy : x = y
      · subst hxy
        rw [Function.update_self]
        exact le_rfl
      · rw [Function.update_of_ne hxy]

/-- **One end changes**, and the windows with it. -/
theorem Between.update {link : End → Party} {windows : End → State Payload} {read : End → List Payload}
    (h : Between conv stream link read windows) (x : End)
    (hoffers : Offers (windows x) hs') (htakes : Takes (windows x.peer) hr')
    {read' : List Payload} (hend : AtEnd conv stream p' read' hs' hr') :
    ∃ windows', Between conv stream (Function.update link x p') (Function.update read x read') windows'
      ∧ windows' x = hs' ∧ windows' x.peer = hr' := by
  refine ⟨fun y => if y = x then hs' else hr', fun y => ?_, if_pos rfl, if_neg x.peer_ne⟩
  rcases End.eq_or_peer x y with rfl | rfl
  · dsimp only
    rw [Function.update_self, Function.update_self, if_pos rfl, if_neg y.peer_ne]
    exact hend
  · have hother := h x.peer
    dsimp only
    rw [End.peer_peer] at hother ⊢
    rw [Function.update_of_ne x.peer_ne, Function.update_of_ne x.peer_ne, if_neg x.peer_ne, if_pos rfl]
    exact hother.other htakes hoffers

/-- **Every event keeps both ends between the windows**, while there are numbers. -/
theorem Linked.step {link : End → Party} (h : Linked conv stream link) (e : Event)
    (hbound : ∀ x, (Kcp.step link e x).numbered < 2 ^ 31) : Linked conv stream (Kcp.step link e) := by
  obtain ⟨read, windows, h⟩ := h
  cases e with
  | request x req =>
    have hpeer := h x.peer
    rw [End.peer_peer] at hpeer
    have hreq := hbound x
    unfold Kcp.step at hreq ⊢
    dsimp only at hreq ⊢
    rw [Function.update_self] at hreq
    obtain ⟨read', hs', hr', hoffers, htakes, hend⟩ := (h x).request hpeer.live
      (List.prefix_append _ _) hpeer.tells.frg hpeer.tells.said req hreq
    obtain ⟨windows', h', -⟩ := h.update x hoffers htakes hend
    exact ⟨_, windows', h'⟩
  | arrive x i =>
    have hpeer := h x.peer
    rw [End.peer_peer] at hpeer
    unfold Kcp.step
    dsimp only
    split
    · next data hdata =>
      obtain ⟨hs', hr', hoffers, htakes, hend⟩ :=
        (h x).arrive hpeer.live (hpeer.out data (List.mem_of_getElem? hdata))
      obtain ⟨windows', h', -⟩ := h.update x hoffers htakes hend
      exact ⟨_, windows', h'⟩
    · exact ⟨read, windows, h⟩

theorem Linked.init (conv : UInt32) (stream : Int32) : Linked conv stream (fun _ => .init conv stream) := by
  refine ⟨fun _ => [], fun _ => SlidingWindow.init, fun _ => ?_⟩
  have hnone : ∀ seg : Ikcpseg, seg ∈ ([] : List Ikcpseg) → False := fun _ => List.not_mem_nil
  have hcut : 0 < (IKCP_MTU_DEF - IKCP_OVERHEAD).toNat ∧ (IKCP_MTU_DEF - IKCP_OVERHEAD).toNat < 2 ^ 31 := by
    decide
  refine ⟨⟨⟨(Ikcpcb.Ok.create conv).sender, (Ikcpcb.Ok.create conv).receiver⟩, hcut, ?_, ?_⟩,
    ⟨.refl, Nat.two_pow_pos 31⟩, rfl, rfl, ?_, ⟨rfl, fun _ => .nil⟩, fun _ hdata => absurd hdata List.not_mem_nil⟩
  · exact ⟨rfl, fun _ h => (hnone _ h).elim, fun _ h => (hnone _ h).elim,
      fun _ h => absurd h (Set.notMem_empty _)⟩
  · exact ⟨rfl, rfl, fun _ h => (hnone _ h).elim, fun _ _ h => (nomatch h),
      fun _ h => absurd h List.not_mem_nil⟩
  · exact ⟨rfl, rfl, fun _ h => absurd h List.not_mem_nil, fun _ => .nil⟩

/-- **Both ends are between the windows after any events**, while there are numbers. -/
theorem linked_foldl (conv : UInt32) (stream : Int32) (events : List Event)
    (hbound : ∀ x, (events.foldl step (fun _ => .init conv stream) x).numbered < 2 ^ 31) :
    Linked conv stream (events.foldl step (fun _ => .init conv stream)) := by
  induction events using List.reverseRecOn with
  | nil => exact Linked.init conv stream
  | append_singleton events e ih =>
    rw [List.foldl_append] at hbound ⊢
    exact (ih (fun x => (numbered_le_step _ e x).trans_lt (hbound x))).step e hbound

theorem linked_run {events : List Event} {link : End → Party}
    (hrun : run conv stream events = some link) (hbound : ∀ x, (link x).numbered < 2 ^ 31) :
    Linked conv stream link := by
  obtain rfl := eq_of_foldlM_advance hrun
  exact linked_foldl conv stream events hbound

/-- **Messages arrive in their order, each once and unchanged**: those that one program has
received are the first ones that the other one has sent. -/
theorem heard_isPrefix (conv : UInt32) (events : List Event) {link : End → Party}
    (hrun : run conv 0 events = some link) (hbound : ∀ x, (link x).numbered < 2 ^ 31) (x : End) :
    (link x.peer).heard <+: (link x).said := by
  obtain ⟨read, windows, h⟩ := linked_run hrun hbound
  have hpeer := h x.peer
  rw [End.peer_peer] at hpeer
  have hread : read x.peer <+: offered (link x).kcp (windows x) := by
    have hgot : (windows x).got = read x.peer ++ _ := hpeer.endpoint.receives.queue
    refine List.IsPrefix.trans ⟨_, hgot.symm⟩ ?_
    exact (h x).live.reachable.got_isPrefix.trans (List.prefix_append _ _)
  obtain ⟨rest, hrest⟩ := hread
  obtain ⟨later, hlater, -⟩ :=
    (hpeer.hears.messages rfl).cancel (hrest ▸ (h x).tells.said rfl)
  exact ⟨later, hlater.symm⟩

/-- A message that is sent once, though its datagram arrives twice. -/
def twice : List Event :=
  [.request .near (.send .hi), .request .near (.update 0),
    .request .near (.update 100), .arrive .far 0, .arrive .far 0, .request .far (.recv 10),
    .request .far (.recv 10)]

theorem heard_isPrefix_twice : ∃ link, run 7 0 twice = some link
    ∧ (link .far).heard = [[104, 105]] ∧ (link .far).heard <+: (link .near).said := by
  obtain ⟨link, hrun, hlink⟩ := Option.map_eq_some_iff.mp (show (run 7 0 twice).map (fun link =>
    ((link .far).heard, (link .near).numbered, (link .far).numbered)) = some ([[104, 105]], 1, 0)
      by decide)
  obtain ⟨hheard, hlink⟩ := Prod.mk.inj hlink
  obtain ⟨hnear, hfar⟩ := Prod.mk.inj hlink
  have hbound : ∀ x, (link x).numbered < 2 ^ 31 := fun x => by
    cases x with
    | near => exact hnear ▸ by decide
    | far => exact hfar ▸ by decide
  exact ⟨link, hrun, hheard, heard_isPrefix 7 twice hrun hbound .near⟩

/-- **Of every number that was given and not delivered, one of the sides has the segment.** -/
theorem AtEnd.underWay {q : Party} {read' : List Payload} (hx : AtEnd conv stream p read hs hr)
    (hy : AtEnd conv stream q read' hr hs) {n : ℕ} {a : Payload} (hn : hs.got.length ≤ n)
    (ha : hs.sent[n]? = some a) : ∃ seg : Ikcpseg, seg.payload = a ∧ seg.sn = UInt32.ofNat n
      ∧ (seg ∈ p.kcp.sndBuf ∨ seg ∈ q.kcp.rcvBuf) := by
  have hnumber : ∀ seg : Ikcpseg, seg.sn.toNat = n → seg.sn = UInt32.ofNat n := fun seg h => by
    rw [← h, UInt32.ofNat_toNat]
  rcases hx.live.reachable.kept hn ha with hheld | hearly
  · obtain ⟨seg, hseg, hsn⟩ := hx.endpoint.sends.held n hheld
    have hsent := (hx.endpoint.sends.buf seg hseg).1
    rw [hsn, ha] at hsent
    exact ⟨seg, (Option.some.inj hsent).symm, hnumber seg hsn, Or.inl hseg⟩
  · obtain ⟨seg, hseg, hsn, hpay⟩ := hy.endpoint.receives.early n a hearly
    exact ⟨seg, hpay, hnumber seg hsn, Or.inr hseg⟩

/-- **Nothing is lost**: in either mode every byte that one program's `ikcp_send` took was received
by the other one, or is in the other one's queue, or in one of the segments that have the
numbers from the one it expects to the last one that was given, each of which is in a
buffer of one of the two, or has no number yet. -/
theorem all_accounted (conv : UInt32) (stream : Int32) (events : List Event) {link : End → Party}
    (hrun : run conv stream events = some link) (hbound : ∀ x, (link x).numbered < 2 ^ 31) (x : End) :
    ∃ way : List Ikcpseg,
      (link x).taken = (link x.peer).heard.flatten
        ++ (link x.peer).kcp.rcvQueue.flatMap Ikcpseg.data
        ++ way.flatMap Ikcpseg.data ++ (link x).kcp.sndQueue.flatMap Ikcpseg.data
      ∧ (link x.peer).kcp.rcvNxt + UInt32.ofNat way.length
        = (link x).kcp.sndNxt
      ∧ ∀ (i : ℕ) (h : i < way.length),
        way[i].sn = (link x.peer).kcp.rcvNxt + UInt32.ofNat i
        ∧ (way[i] ∈ (link x).kcp.sndBuf
          ∨ way[i] ∈ (link x.peer).kcp.rcvBuf) := by
  obtain ⟨read, windows, h⟩ := linked_run hrun hbound
  have hx := h x
  have hy := h x.peer
  rw [End.peer_peer] at hy
  obtain ⟨rest, hrest⟩ := hx.live.reachable.got_isPrefix
  have hnxt : (link x.peer).kcp.rcvNxt = UInt32.ofNat (windows x).got.length := by
    rw [← show _ = (windows x).got.length from hy.endpoint.receives.nxt]
    exact UInt32.ofNat_toNat.symm
  have hsent : (link x).kcp.sndNxt = UInt32.ofNat (windows x).sent.length := by
    rw [← show _ = (windows x).sent.length from hx.endpoint.sends.nxt]
    exact UInt32.ofNat_toNat.symm
  have hway : ∀ i : Fin rest.length, ∃ seg : Ikcpseg, seg.payload = rest[i]
      ∧ seg.sn = UInt32.ofNat ((windows x).got.length + i)
      ∧ (seg ∈ (link x).kcp.sndBuf
        ∨ seg ∈ (link x.peer).kcp.rcvBuf) := by
    intro i
    refine hx.underWay hy (Nat.le_add_right _ _) ?_
    rw [← hrest, List.getElem?_append_right (Nat.le_add_right _ _), Nat.add_sub_cancel_left]
    exact List.getElem?_eq_getElem i.isLt
  choose way hpay hsn hmem using hway
  have hpayloads : (List.ofFn way).map Ikcpseg.payload = rest := by
    refine List.ext_getElem (by rw [List.length_map, List.length_ofFn]) (fun i _ hi => ?_)
    rw [List.getElem_map, List.getElem_ofFn]
    exact hpay ⟨i, hi⟩
  refine ⟨List.ofFn way, ?_, ?_, fun i hi => ?_⟩
  · have hqueue : (windows x).got = read x.peer ++ _ := hy.endpoint.receives.queue
    have htaken := hx.tells.taken
    unfold offered at htaken
    rw [← hrest, hqueue, ← hpayloads] at htaken
    simp only [List.flatMap_append, List.flatMap_map] at htaken
    rw [← hy.hears.heard] at htaken
    exact htaken.symm
  · rw [hnxt, hsent, ← hrest, List.length_append, List.length_ofFn, UInt32.ofNat_add]
  · rw [List.length_ofFn] at hi
    rw [List.getElem_ofFn, hnxt, ← UInt32.ofNat_add]
    exact ⟨hsn ⟨i, hi⟩, hmem ⟨i, hi⟩⟩

/-- The same message, while no datagram has arrived. -/
theorem all_accounted_twice : ∃ link, run 7 0 (twice.take 3) = some link ∧ ∃ way : List Ikcpseg,
    (link .near).taken = (link .far).heard.flatten ++ (link .far).kcp.rcvQueue.flatMap Ikcpseg.data
        ++ way.flatMap Ikcpseg.data ++ (link .near).kcp.sndQueue.flatMap Ikcpseg.data
      ∧ (link .far).kcp.rcvNxt + UInt32.ofNat way.length = (link .near).kcp.sndNxt
      ∧ ∀ (i : ℕ) (h : i < way.length), way[i].sn = (link .far).kcp.rcvNxt + UInt32.ofNat i
        ∧ (way[i] ∈ (link .near).kcp.sndBuf ∨ way[i] ∈ (link .far).kcp.rcvBuf) := by
  obtain ⟨link, hrun, hlink⟩ := Option.map_eq_some_iff.mp (show (run 7 0 (twice.take 3)).map
    (fun link => ((link .near).numbered, (link .far).numbered)) = some (1, 0) by decide)
  obtain ⟨hnear, hfar⟩ := Prod.mk.inj hlink
  have hbound : ∀ x, (link x).numbered < 2 ^ 31 := fun x => by
    cases x with
    | near => exact hnear ▸ by decide
    | far => exact hfar ▸ by decide
  exact ⟨link, hrun, all_accounted 7 0 (twice.take 3) hrun hbound .near⟩

end Kcp
