import LinuxLearn.Simulation

/-!
# The coroutine server

`mini_ntyco.c` runs a coroutine for every client, on its own stack, from a loop
over `epoll_wait`. A coroutine runs until `read` or `write` would block; it
then notes what it waits for and goes back to the loop. An event wakes the
first coroutine that waits for it. When a batch of events is over, the first
coroutine that is not dead is resumed as well, whatever it waits for, and that
is the only place where a new one is started.

So a client that waits in `read` is served when it sends something. A new one
is not, unless every client before it is gone by the end of the batch
(`serves_iff`).
-/

namespace MiniNtyco

/-- `MAX_EVENTS`. -/
def MAX_EVENTS : ℕ := 64

/-- `EPOLLIN`. -/
def EPOLLIN : ℕ := 1

/-- `EPOLLOUT`. -/
def EPOLLOUT : ℕ := 4

/-- **The state of a coroutine**: `0:NEW 1:RUN 2:SUSPEND 3:DEAD`. -/
inductive State where
  | new
  | run
  | suspend
  | dead
deriving DecidableEq

/-- **Where `echo_client` is**: in `read`, or in `write` with what is left of what
was read. -/
inductive Frame where
  | reading
  | writing (rest : List UInt8)

/-- What `read` and `write` wait for. -/
def Frame.event : Frame → ℕ
  | .reading => EPOLLIN
  | .writing _ => EPOLLOUT

/-- **`struct coro`.** -/
structure Coro where
  /-- Where it goes on when it is resumed. -/
  ctx : Frame
  /-- The descriptor of its client. -/
  arg : ℤ
  state : State
  /-- The descriptor it waits for, or `-1`. -/
  waitFd : ℤ
  /-- The events it waits for. -/
  waitEvent : ℕ

/-- `struct epoll_event`. -/
structure Event where
  fd : ℤ
  mask : ℕ

/-- An event is one that a coroutine waits for. -/
def Coro.Waits (c : Coro) (e : Event) : Prop :=
  c.state = .suspend ∧ c.waitFd = e.fd ∧ c.waitEvent &&& e.mask ≠ 0

instance (c : Coro) (e : Event) : Decidable (c.Waits e) := inferInstanceAs (Decidable (_ ∧ _))

/-- A coroutine is new, or waits in `read` for its client. -/
def Coro.Receptive (c : Coro) : Prop :=
  c.state = .new ∨ c.state = .suspend ∧ c.waitFd = c.arg ∧ c.waitEvent = EPOLLIN

instance (c : Coro) : Decidable c.Receptive := inferInstanceAs (Decidable (_ ∨ _))

/-- **`struct schedule`.** -/
structure Schedule where
  /-- The coroutine that runs, or `-1` for the loop. -/
  curId : ℤ
  /-- The coroutines, by their numbers. -/
  co : List Coro
  listenfd : ℤ

/-- **What the kernel answers**, call by call: `accept` with a descriptor, which
can be added to the epoll or not; `read` with some bytes, none at the end of
the connection; `write` with how many it took; or either would block, or
fails. -/
inductive Answer where
  | accepted (cfd : ℤ) (added : Bool)
  | read (bytes : List UInt8)
  | wrote (n : ℕ)
  | again
  | failed

/-- How a coroutine leaves the processor. -/
inductive Outcome where
  | yielded (ctx : Frame)
  | returned

/-- **`echo_client`**, from where it is to where it yields or returns. What is
written is not nothing, and of it not nothing is taken. -/
def echoClient : Frame → List Answer → Option Outcome
  | .reading, .read bytes :: answers =>
    if bytes = [] then some .returned
    else if 512 < bytes.length then none
    else echoClient (.writing bytes) answers
  | .writing rest, .wrote n :: answers =>
    if n = 0 ∨ rest.length < n then none
    else if n < rest.length then echoClient (.writing (rest.drop n)) answers
    else echoClient .reading answers
  | ctx, .again :: _ => some (.yielded ctx)
  | _, .failed :: _ => some .returned
  | _, _ => none

namespace Schedule

/-- A field of a coroutine is written. -/
def modify (S : Schedule) (id : ℕ) (f : Coro → Coro) : Schedule :=
  { S with co := S.co.modify id f }

/-- **`coro_create`**, of an `echo_client`. -/
def coroCreate (S : Schedule) (arg : ℤ) : Schedule :=
  { S with co := S.co ++ [⟨.reading, arg, .new, -1, 0⟩] }

/-- **`coro_yield`.** -/
def coroYield (S : Schedule) : Schedule :=
  if S.curId < 0 then S
  else { S.modify S.curId.toNat (fun c => { c with state := .suspend }) with curId := -1 }

/-- The hooks of `read` and `write`, where they would block. -/
def block (S : Schedule) (id : ℕ) (ctx : Frame) : Schedule :=
  (S.modify id (fun c => { c with ctx := ctx, waitFd := c.arg, waitEvent := ctx.event })).coroYield

/-- **`coro_body`**, before it calls `echo_client`. -/
def coroBody (S : Schedule) : Schedule :=
  S.modify S.curId.toNat (fun c => { c with state := .run })

/-- **`coro_body`**, after it has called `echo_client`. -/
def coroExit (S : Schedule) (id : ℕ) : Schedule :=
  { S.modify id (fun c => { c with state := .dead }) with curId := -1 }

/-- **`coro_resume`**: which coroutine it resumes, if it resumes one, and what that
has left when it is back. -/
def coroResume (S : Schedule) (id : ℕ) (answers : List Answer) : Option (List ℕ × Schedule) :=
  match S.co[id]? with
  | none => some ([], S)
  | some c =>
    if c.state = .dead then some ([], S)
    else do
      let S := { S with curId := id }
      let S := if c.state = .new then S.coroBody else S
      let outcome ← echoClient (if c.state = .new then .reading else c.ctx) answers
      match outcome with
      | .yielded ctx => return ([id], S.block id ctx)
      | .returned => return ([id], S.coroExit id)

/-- A descriptor that is not open is none that somebody has. -/
def Fresh (S : Schedule) (cfd : ℤ) : Prop :=
  0 ≤ cfd ∧ cfd ≠ S.listenfd ∧ ∀ c ∈ S.co, c.state ≠ .dead → c.arg ≠ cfd

instance (S : Schedule) (cfd : ℤ) : Decidable (S.Fresh cfd) := inferInstanceAs (Decidable (_ ∧ _))

/-- **The accept loop of `schedule_loop`**: a client that cannot be added to the
epoll is closed. -/
def acceptAll (S : Schedule) : List Answer → Option Schedule
  | .accepted cfd added :: answers =>
    if ¬ S.Fresh cfd then none
    else if added then (S.coroCreate cfd).acceptAll answers
    else S.acceptAll answers
  | .again :: _ => some S
  | .failed :: _ => some S
  | _ => none

/-- **One event**: a client is accepted, or the first coroutine that waits for it
is woken. -/
def dispatch (S : Schedule) (e : Event) (answers : List Answer) : Option (List ℕ × Schedule) :=
  if e.fd = S.listenfd then (S.acceptAll answers).map (fun S => ([], S))
  else match S.co.findIdx? (fun c => decide (c.Waits e)) with
    | none => some ([], S)
    | some k => (S.modify k (fun c => { c with waitFd := -1, waitEvent := 0 })).coroResume k answers

/-- **What follows a batch of events**: the first coroutine that is not dead is
resumed. -/
def fallback (S : Schedule) (answers : List Answer) : Option (List ℕ × Schedule) :=
  if S.curId = -1 then
    match S.co.findIdx? (fun c => decide (c.state ≠ .dead)) with
    | none => some ([], S)
    | some k => S.coroResume k answers
  else some ([], S)

/-- The coroutines a batch is for: one that is new, or waits in `read`, and whose
client is ready to be read from. -/
def asked (S : Schedule) (events : List Event) : List ℕ :=
  (List.range S.co.length).filter (fun k => S.co[k]?.any (fun c =>
    decide (c.Receptive ∧ ∃ e ∈ events, e.fd = c.arg ∧ e.mask &&& EPOLLIN ≠ 0)))

end Schedule

/-- Where the loop is: in `epoll_wait`, or handling events, with those that are
left. -/
inductive Place where
  | waiting
  | handling (rest : List Event)

/-- **`schedule_loop`.** -/
structure Loop where
  sched : Schedule
  /-- Where the loop is. -/
  place : Place
  /-- Whom the last batch of events was for; a history. -/
  asked : List ℕ
  /-- Who has been resumed since it came; a history, too. -/
  resumed : List ℕ

/-- What the loop is told: the events of a batch, or what the kernel answers to the
calls made next. -/
inductive Input where
  | events (events : List Event)
  | answers (answers : List Answer)

namespace Loop

/-- **`schedule_loop` as a machine**, from one event to the next; its log is of the
coroutines resumed. -/
def machine : Machine Loop Input (List ℕ) := fun l i =>
  match l.place, i with
  | .waiting, .events events =>
    if events.length ≤ MAX_EVENTS then
      some ([], { l with place := .handling events, asked := l.sched.asked events, resumed := [] })
    else none
  | .handling (e :: rest), .answers answers => do
    let (out, sched) ← l.sched.dispatch e answers
    return (out, { l with sched := sched, place := .handling rest, resumed := l.resumed ++ out })
  | .handling [], .answers answers => do
    let (out, sched) ← l.sched.fallback answers
    return (out, { l with sched := sched, place := .waiting, resumed := l.resumed ++ out })
  | _, _ => none

/-- **The server as `main` starts it.** -/
def start (listenfd : ℤ) : Loop := ⟨⟨-1, [], listenfd⟩, .waiting, [], []⟩

/-- **A step serves the clients**: at the end of a batch everybody it was for has
been resumed, nobody dead is, and none is the current coroutine of the loop. -/
def Serves (l : Loop) (_ : Input) (out : List ℕ) (l' : Loop) : Prop :=
  (∀ c, l'.place = .waiting → c ∈ l'.asked → c ∈ l'.resumed)
  ∧ (∀ k ∈ out, ∀ c, l.sched.co[k]? = some c → c.state ≠ .dead)
  ∧ l'.sched.curId = -1

/-- **New clients come first**: when a batch is over, no coroutine it was for is
still new behind one that is not dead. -/
def InTurn (l : Loop) (i : Input) : Prop :=
  ∀ answers, l.place = .handling [] → i = .answers answers →
    ∀ k ∈ l.asked, ∀ c, l.sched.co[k]? = some c → c.state = .new →
      ∀ j < k, ∀ c', l.sched.co[j]? = some c' → c'.state = .dead

end Loop

/-! ## What a resumption does -/

/-- A coroutine that has run is dead, or waits for its client. -/
def Coro.Parked (c : Coro) : Prop :=
  c.state = .dead
    ∨ c.state = .suspend ∧ c.waitFd = c.arg ∧ (c.waitEvent = EPOLLIN ∨ c.waitEvent = EPOLLOUT)

namespace Schedule

variable {S S' : Schedule} {id j k : ℕ} {c : Coro} {answers : List Answer} {out : List ℕ}

theorem modify_self (h : S.co[k]? = some c) (f : Coro → Coro) :
    (S.modify k f).co[k]? = some (f c) := by
  show (S.co.modify k f)[k]? = _
  rw [List.getElem?_modify_eq, h]
  rfl

theorem modify_of_ne (S : Schedule) (f : Coro → Coro) (h : j ≠ k) :
    (S.modify k f).co[j]? = S.co[j]? := List.getElem?_modify_ne f S.co h.symm

/-- **A coroutine has been resumed**, and the loop runs again. -/
structure Resumed (S S' : Schedule) (k : ℕ) : Prop where
  curId : S'.curId = -1
  listenfd : S'.listenfd = S.listenfd
  self : ∀ c : Coro, S.co[k]? = some c → ∃ c', S'.co[k]? = some c' ∧ c'.arg = c.arg ∧ c'.Parked
  other : ∀ j ≠ k, S'.co[j]? = S.co[j]?

/-- Nothing but the coroutine itself has to do with its resumption. -/
theorem Resumed.of_modify {f : Coro → Coro} (hf : ∀ c, (f c).arg = c.arg)
    (h : (S.modify k f).Resumed S' k) : S.Resumed S' k := by
  refine ⟨h.curId, h.listenfd, fun c hc => ?_, fun j hj => ?_⟩
  · obtain ⟨c', hc', harg, hparked⟩ := h.self (f c) (modify_self hc f)
    exact ⟨c', hc', harg.trans (hf c), hparked⟩
  · rw [h.other j hj, modify_of_ne S f hj]

theorem coroYield_eq (h : S.curId = k) :
    S.coroYield = { S.modify k (fun c => { c with state := .suspend }) with curId := -1 } := by
  unfold coroYield
  rw [if_neg (by omega), h, Int.toNat_natCast]

theorem resumed_block (hcur : S.curId = k) (ctx : Frame) : S.Resumed (S.block k ctx) k := by
  unfold block
  rw [coroYield_eq (show (S.modify k _).curId = k from hcur)]
  refine ⟨rfl, rfl, fun c hc => ⟨_, modify_self (modify_self hc _) _, rfl, .inr ⟨rfl, rfl, ?_⟩⟩,
    fun j hj => (modify_of_ne _ _ hj).trans (modify_of_ne _ _ hj)⟩
  cases ctx with
  | reading => exact .inl rfl
  | writing rest => exact .inr rfl

theorem resumed_exit (S : Schedule) (k : ℕ) : S.Resumed (S.coroExit k) k :=
  ⟨rfl, rfl, fun _ hc => ⟨_, modify_self hc _, rfl, .inl rfl⟩, fun _ hj => modify_of_ne S _ hj⟩

/-- A new coroutine runs from its start, any other goes on. -/
theorem resumed_enter {T : Schedule} {new : Prop} [Decidable new] (hcur : S.curId = k)
    (h : (if new then S.coroBody else S).Resumed T k) : S.Resumed T k := by
  split at h
  · unfold coroBody at h
    rw [hcur, Int.toNat_natCast] at h
    refine Resumed.of_modify ?_ h
    exact fun _ => rfl
  · exact h

/-- **What `coro_resume` does** with a coroutine that is not dead. -/
theorem resumed_of_coroResume (hc : S.co[k]? = some c) (hlive : c.state ≠ .dead)
    (h : S.coroResume k answers = some (out, S')) : out = [k] ∧ S.Resumed S' k := by
  unfold coroResume at h
  rw [hc] at h
  dsimp only at h
  rw [if_neg hlive] at h
  obtain ⟨outcome, -, hret⟩ := Option.bind_eq_some_iff.mp h
  have hfrom : ∀ {T : Schedule}, { S with curId := k }.Resumed T k → S.Resumed T k :=
    fun hT => ⟨hT.curId, hT.listenfd, hT.self, hT.other⟩
  cases outcome with
  | yielded ctx =>
    obtain ⟨rfl, rfl⟩ := Prod.mk.inj (Option.some.inj hret)
    refine ⟨rfl, hfrom (resumed_enter rfl (resumed_block ?_ ctx))⟩
    split
    · rfl
    · rfl
  | returned =>
    obtain ⟨rfl, rfl⟩ := Prod.mk.inj (Option.some.inj hret)
    exact ⟨rfl, hfrom (resumed_enter rfl (resumed_exit _ k))⟩

/-! ## The coroutines and their clients -/

/-- **What holds whenever the loop runs**: no coroutine does, each is new, dead or
waits for its client, and no client has two. -/
structure Inv (S : Schedule) : Prop where
  curId : S.curId = -1
  parked : ∀ (k : ℕ) (c : Coro), S.co[k]? = some c → c.state = .new ∨ c.Parked
  other : ∀ (k : ℕ) (c : Coro), S.co[k]? = some c → c.state ≠ .dead → c.arg ≠ S.listenfd
  single : ∀ (j k : ℕ) (c c' : Coro), S.co[j]? = some c → S.co[k]? = some c' → c.state ≠ .dead →
    c'.state ≠ .dead → c.arg = c'.arg → j = k

/-- A coroutine that was dead is dead, whatever its client does. -/
theorem Inv.resumed (h : S.Inv) (hc : S.co[k]? = some c) (hlive : c.state ≠ .dead)
    (hres : S.Resumed S' k) : S'.Inv := by
  obtain ⟨c', hc', harg, hparked⟩ := hres.self c hc
  -- every coroutine was one with the same client, and is not dead now only if it was not
  have hback : ∀ (j : ℕ) (d : Coro), S'.co[j]? = some d →
      (d.state = .new ∨ d.Parked) ∧ ∃ e, S.co[j]? = some e ∧ e.arg = d.arg
        ∧ (d.state ≠ .dead → e.state ≠ .dead) := by
    intro j d hd
    by_cases hj : j = k
    · subst hj
      obtain rfl := Option.some.inj (hc'.symm.trans hd)
      exact ⟨.inr hparked, c, hc, harg.symm, fun _ => hlive⟩
    · rw [hres.other j hj] at hd
      exact ⟨h.parked j d hd, d, hd, rfl, id⟩
  refine ⟨hres.curId, fun j d hd => (hback j d hd).1, fun j d hd hdlive => ?_,
    fun i j d d' hd hd' hdlive hdlive' he => ?_⟩
  · obtain ⟨-, e, he, hearg, helive⟩ := hback j d hd
    rw [← hearg, hres.listenfd]
    exact h.other j e he (helive hdlive)
  · obtain ⟨-, e, he₁, hearg, helive⟩ := hback i d hd
    obtain ⟨-, e', he₁', hearg', helive'⟩ := hback j d' hd'
    exact h.single i j e e' he₁ he₁' (helive hdlive) (helive' hdlive') (by rw [hearg, hearg', he])

/-- A client is accepted. -/
theorem Inv.coroCreate (h : S.Inv) {cfd : ℤ} (hfresh : S.Fresh cfd) : (S.coroCreate cfd).Inv := by
  obtain ⟨-, hlisten, hother⟩ := hfresh
  have hback : ∀ (j : ℕ) (d : Coro), (S.coroCreate cfd).co[j]? = some d →
      S.co[j]? = some d ∨ j = S.co.length ∧ d.arg = cfd ∧ d.state = .new := by
    intro j d hd
    change (S.co ++ [_])[j]? = some d at hd
    rw [List.getElem?_append] at hd
    split at hd
    · exact .inl hd
    · next hj =>
      obtain ⟨hlen, he⟩ := List.getElem?_eq_some_iff.mp hd
      rw [List.length_singleton] at hlen
      rw [List.getElem_singleton] at he
      exact .inr ⟨by omega, by rw [← he], by rw [← he]⟩
  have hne : ∀ (j : ℕ) (d : Coro), S.co[j]? = some d → d.state ≠ .dead → d.arg ≠ cfd :=
    fun j d hd => hother d (List.mem_of_getElem? hd)
  refine ⟨h.curId, fun j d hd => ?_, fun j d hd hlive => ?_,
    fun i j d d' hd hd' hlive hlive' he => ?_⟩
  · rcases hback j d hd with hd | ⟨-, -, hnew⟩
    · exact h.parked j d hd
    · exact .inl hnew
  · rcases hback j d hd with hd | ⟨-, harg, -⟩
    · exact h.other j d hd hlive
    · rw [harg]
      exact hlisten
  · rcases hback i d hd with hd | ⟨rfl, harg, -⟩
    · rcases hback j d' hd' with hd' | ⟨rfl, harg', -⟩
      · exact h.single i j d d' hd hd' hlive hlive' he
      · exact absurd (he.trans harg') (hne i d hd hlive)
    · rcases hback j d' hd' with hd' | ⟨rfl, -, -⟩
      · exact absurd (he.symm.trans harg) (hne j d' hd' hlive')
      · rfl

/-- **The accept loop** leaves the coroutines there are alone. -/
theorem Inv.acceptAll (h : S.Inv) (hstep : S.acceptAll answers = some S') :
    S'.Inv ∧ S'.listenfd = S.listenfd
      ∧ ∀ (j : ℕ) (c : Coro), S.co[j]? = some c → S'.co[j]? = some c := by
  induction answers generalizing S with
  | nil => cases hstep
  | cons answer answers ih =>
    cases answer with
    | accepted cfd added =>
      unfold Schedule.acceptAll at hstep
      split at hstep
      · cases hstep
      · next hfresh =>
        split at hstep
        · obtain ⟨hinv, hlisten, hkept⟩ := ih (h.coroCreate (not_not.mp hfresh)) hstep
          refine ⟨hinv, hlisten, fun j c hc => hkept j c ?_⟩
          obtain ⟨hlt, -⟩ := List.getElem?_eq_some_iff.mp hc
          exact (List.getElem?_append_left hlt).trans hc
        · exact ih h hstep
    | again =>
      obtain rfl := Option.some.inj hstep
      exact ⟨h, rfl, fun _ _ hc => hc⟩
    | failed =>
      obtain rfl := Option.some.inj hstep
      exact ⟨h, rfl, fun _ _ hc => hc⟩
    | read bytes => cases hstep
    | wrote n => cases hstep

/-- The first coroutine of which something holds. -/
theorem first_eq_some {p : Coro → Prop} [DecidablePred p]
    (h : S.co.findIdx? (fun c => decide (p c)) = some k) :
    ∃ c, S.co[k]? = some c ∧ p c ∧ ∀ (j : ℕ) (c' : Coro), S.co[j]? = some c' → p c' → k ≤ j := by
  obtain ⟨hk, hp, hbefore⟩ := List.findIdx?_eq_some_iff_getElem.mp h
  refine ⟨_, List.getElem?_eq_getElem hk, of_decide_eq_true hp, fun j c' hc' hp' => ?_⟩
  by_contra hlt
  obtain ⟨hj, rfl⟩ := List.getElem?_eq_some_iff.mp hc'
  exact hbefore j (not_le.mp hlt) (decide_eq_true hp')

/-- **What one event does**: nothing to the coroutines there are, if it is of the
listener or nobody waits for it, and else it resumes the one coroutine that
does. -/
theorem Inv.dispatch (h : S.Inv) {e : Event} (hstep : S.dispatch e answers = some (out, S')) :
    S'.Inv ∧ ((out = [] ∧ (∀ (j : ℕ) (c : Coro), S.co[j]? = some c → S'.co[j]? = some c)
        ∧ ∀ (j : ℕ) (c : Coro), S.co[j]? = some c → c.Waits e → False)
      ∨ ∃ k c, out = [k] ∧ S.co[k]? = some c ∧ c.Waits e ∧ S.Resumed S' k) := by
  unfold Schedule.dispatch at hstep
  split at hstep
  · next hlisten =>
    obtain ⟨T, hT, he⟩ := Option.map_eq_some_iff.mp hstep
    obtain ⟨rfl, rfl⟩ := Prod.mk.inj he
    obtain ⟨hinv, -, hkept⟩ := h.acceptAll hT
    refine ⟨hinv, .inl ⟨rfl, hkept, fun j c hc hwaits => ?_⟩⟩
    obtain ⟨hsuspend, hfd, -⟩ := hwaits
    rcases h.parked j c hc with hnew | hdead | ⟨-, harg, -⟩
    · exact absurd (hnew.symm.trans hsuspend) (by decide)
    · exact absurd (hdead.symm.trans hsuspend) (by decide)
    · have hlive : c.state ≠ .dead := fun hdead => absurd (hdead.symm.trans hsuspend) (by decide)
      exact h.other j c hc hlive (harg.symm.trans (hfd.trans hlisten))
  · split at hstep
    · next hnone =>
      obtain ⟨rfl, rfl⟩ := Prod.mk.inj (Option.some.inj hstep)
      exact ⟨h, .inl ⟨rfl, fun _ _ hc => hc, fun j c hc hwaits =>
        of_decide_eq_false (List.findIdx?_eq_none_iff.mp hnone c (List.mem_of_getElem? hc))
          hwaits⟩⟩
    · next k hsome =>
      obtain ⟨c, hc, hwaits, -⟩ := first_eq_some hsome
      have hlive : c.state ≠ .dead := fun hdead =>
        absurd (hdead.symm.trans hwaits.1) (by decide)
      obtain ⟨rfl, hres⟩ := resumed_of_coroResume (modify_self hc _) hlive hstep
      have hres : S.Resumed S' k := by
        refine Resumed.of_modify ?_ hres
        exact fun _ => rfl
      exact ⟨h.resumed hc hlive hres, .inr ⟨k, c, rfl, hc, hwaits, hres⟩⟩

/-- **What follows a batch**: the first coroutine that is not dead is resumed, if
there is one. -/
theorem Inv.fallback (h : S.Inv) (hstep : S.fallback answers = some (out, S')) :
    S'.Inv ∧ ((out = [] ∧ S' = S ∧ ∀ (j : ℕ) (c : Coro), S.co[j]? = some c → c.state = .dead)
      ∨ ∃ k c, out = [k] ∧ S.co[k]? = some c ∧ c.state ≠ .dead ∧ S.Resumed S' k
        ∧ ∀ (j : ℕ) (c' : Coro), S.co[j]? = some c' → c'.state ≠ .dead → k ≤ j) := by
  unfold Schedule.fallback at hstep
  rw [if_pos h.curId] at hstep
  split at hstep
  · next hnone =>
    obtain ⟨rfl, rfl⟩ := Prod.mk.inj (Option.some.inj hstep)
    exact ⟨h, .inl ⟨rfl, rfl, fun j c hc => not_not.mp (of_decide_eq_false
      (List.findIdx?_eq_none_iff.mp hnone c (List.mem_of_getElem? hc)))⟩⟩
  · next k hsome =>
    obtain ⟨c, hc, hlive, hfirst⟩ := first_eq_some hsome
    obtain ⟨rfl, hres⟩ := resumed_of_coroResume hc hlive hstep
    exact ⟨h.resumed hc hlive hres, .inr ⟨k, c, rfl, hc, hlive, hres, hfirst⟩⟩

end Schedule

/-! ## The clients a batch is for -/

namespace Loop

variable {l l' : Loop} {i : Input} {out : List ℕ} {answers : List Answer}

/-- A coroutine waits in `read` for an event that is still to be handled. -/
def Due (rest : List Event) (c : Coro) : Prop :=
  c.state = .suspend ∧ c.waitFd = c.arg ∧ c.waitEvent = EPOLLIN
    ∧ ∃ e ∈ rest, e.fd = c.arg ∧ e.mask &&& EPOLLIN ≠ 0

/-- **What holds between events**: who has not been resumed is new, or its event is
still to come. -/
structure Inv (l : Loop) : Prop where
  sched : l.sched.Inv
  started : ∀ k ∈ l.resumed, ∃ c, l.sched.co[k]? = some c ∧ c.state ≠ .new
  pending : ∀ rest, l.place = .handling rest → ∀ k ∈ l.asked, k ∉ l.resumed →
    ∃ c, l.sched.co[k]? = some c ∧ (c.state = .new ∨ Due rest c)

theorem mem_asked {S : Schedule} {events : List Event} {k : ℕ} (h : k ∈ S.asked events) :
    ∃ c, S.co[k]? = some c ∧ (c.state = .new ∨ Due events c) := by
  obtain ⟨-, hany⟩ := List.mem_filter.mp h
  obtain ⟨c, hc, hasked⟩ := (Option.any_eq_true _ _).mp hany
  obtain ⟨hreceptive, hevent⟩ := of_decide_eq_true hasked
  rcases hreceptive with hnew | ⟨hsuspend, hfd, hevent'⟩
  · exact ⟨c, hc, .inl hnew⟩
  · exact ⟨c, hc, .inr ⟨hsuspend, hfd, hevent', hevent⟩⟩

/-- A batch comes. -/
theorem Inv.events (h : l.Inv) (events : List Event) :
    Inv { l with place := .handling events, asked := l.sched.asked events, resumed := [] } := by
  refine ⟨h.sched, fun k hk => absurd hk List.not_mem_nil, fun rest hrest k hk _ => ?_⟩
  obtain rfl := Place.handling.inj hrest
  exact mem_asked hk

/-- Who has been resumed is not new any more. -/
theorem Inv.started_append {S : Schedule} {k : ℕ} {c : Coro} (h : l.Inv)
    (hc : l.sched.co[k]? = some c) (hres : l.sched.Resumed S k) :
    ∀ j ∈ l.resumed ++ [k], ∃ d, S.co[j]? = some d ∧ d.state ≠ .new := by
  intro j hj
  by_cases he : j = k
  · subst he
    obtain ⟨c', hc', -, hparked⟩ := hres.self c hc
    refine ⟨c', hc', ?_⟩
    rcases hparked with hdead | ⟨hsuspend, -⟩
    · rw [hdead]
      decide
    · rw [hsuspend]
      decide
  · rw [hres.other j he]
    rcases List.mem_append.mp hj with hj | hj
    · exact h.started j hj
    · exact absurd (List.mem_singleton.mp hj) he

/-- What is due and not to this event is due to a later one. -/
theorem Due.tail {e : Event} {rest : List Event} {c : Coro} (h : Due (e :: rest) c)
    (hwaits : ¬ c.Waits e) : Due rest c := by
  obtain ⟨hsuspend, hfd, hevent, e', he', hfd', hmask⟩ := h
  refine ⟨hsuspend, hfd, hevent, e', ?_, hfd', hmask⟩
  rcases List.mem_cons.mp he' with rfl | he'
  · refine absurd ⟨hsuspend, hfd.trans hfd'.symm, ?_⟩ hwaits
    rw [hevent, Nat.and_comm]
    exact hmask
  · exact he'

/-- **An event is handled.** -/
theorem Inv.dispatch {e : Event} {rest : List Event} {S : Schedule} (h : l.Inv)
    (hplace : l.place = .handling (e :: rest))
    (hstep : l.sched.dispatch e answers = some (out, S)) :
    Inv { l with sched := S, place := .handling rest, resumed := l.resumed ++ out } := by
  obtain ⟨hinv, hcase⟩ := h.sched.dispatch hstep
  rcases hcase with ⟨rfl, hkept, hnobody⟩ | ⟨k, c, rfl, hc, hwaits, hres⟩
  · rw [List.append_nil]
    refine ⟨hinv, fun j hj => ?_, fun rest' hrest' j hj hnot => ?_⟩
    · obtain ⟨d, hd, hstarted⟩ := h.started j hj
      exact ⟨d, hkept j d hd, hstarted⟩
    · obtain rfl := Place.handling.inj hrest'
      obtain ⟨d, hd, hpending⟩ := h.pending _ hplace j hj hnot
      exact ⟨d, hkept j d hd, hpending.imp_right (fun hdue => hdue.tail (hnobody j d hd))⟩
  · refine ⟨hinv, h.started_append hc hres, fun rest' hrest' j hj hnot => ?_⟩
    obtain rfl := Place.handling.inj hrest'
    obtain ⟨hnot, hne⟩ : j ∉ l.resumed ∧ j ≠ k :=
      ⟨fun hj' => hnot (List.mem_append_left _ hj'),
        fun hj' => hnot (List.mem_append_right _ (List.mem_singleton.mpr hj'))⟩
    obtain ⟨d, hd, hpending⟩ := h.pending _ hplace j hj hnot
    refine ⟨d, (hres.other j hne).trans hd, hpending.imp_right (fun hdue => hdue.tail ?_)⟩
    -- two coroutines that wait for one event have the same client
    intro hwaits'
    refine hne (h.sched.single j k d c hd hc ?_ ?_ ?_)
    · rw [hwaits'.1]
      decide
    · rw [hwaits.1]
      decide
    · have harg : ∀ {b : ℕ} {a : Coro}, l.sched.co[b]? = some a → a.Waits e → a.arg = e.fd := by
        intro b a ha haw
        rcases h.sched.parked b a ha with hnew | hdead | ⟨-, hfd, -⟩
        · exact absurd (hnew.symm.trans haw.1) (by decide)
        · exact absurd (hdead.symm.trans haw.1) (by decide)
        · exact hfd.symm.trans haw.2.1
      exact (harg hd hwaits').trans (harg hc hwaits).symm

/-- **The batch is over**: everybody it was for has been resumed if and only if new
clients come first. -/
theorem Inv.fallback {S : Schedule} (h : l.Inv) (hplace : l.place = .handling [])
    (hstep : l.sched.fallback answers = some (out, S)) :
    Inv { l with sched := S, place := .waiting, resumed := l.resumed ++ out }
      ∧ ((∀ k ∈ l.asked, k ∈ l.resumed ++ out) ↔ l.InTurn (.answers answers)) := by
  obtain ⟨hinv, hcase⟩ := h.sched.fallback hstep
  have hnew : ∀ k ∈ l.asked, k ∉ l.resumed → ∃ c, l.sched.co[k]? = some c ∧ c.state = .new := by
    intro k hk hnot
    obtain ⟨c, hc, hnew | ⟨-, -, -, e, he, -⟩⟩ := h.pending _ hplace k hk hnot
    · exact ⟨c, hc, hnew⟩
    · exact absurd he List.not_mem_nil
  have hpending : ∀ rest, Place.waiting = .handling rest → ∀ k ∈ l.asked, k ∉ l.resumed ++ out →
      ∃ c, S.co[k]? = some c ∧ (c.state = .new ∨ Due rest c) := fun _ he => by cases he
  rcases hcase with ⟨rfl, rfl, hdead⟩ | ⟨k, c, rfl, hc, hlive, hres, hfirst⟩
  · have hall : ∀ k ∈ l.asked, k ∈ l.resumed ++ [] := by
      intro k hk
      rw [List.append_nil]
      by_contra hnot
      obtain ⟨c, hc, hnewc⟩ := hnew k hk hnot
      exact absurd (hnewc.symm.trans (hdead k c hc)) (by decide)
    refine ⟨⟨hinv, ?_, hpending⟩, fun _ => ?_, fun _ => hall⟩
    · rw [List.append_nil]
      exact h.started
    · intro _ _ _ k _ d hd hnewd
      exact absurd (hnewd.symm.trans (hdead k d hd)) (by decide)
  · refine ⟨⟨hinv, h.started_append hc hres, hpending⟩, fun hall => ?_, fun hturn j hj => ?_⟩
    · intro _ _ _ j hj d hd hnewd i hi c' hc'
      -- a new coroutine has not been resumed before, so the fallback is what resumed it
      have hjk : j = k := by
        rcases List.mem_append.mp (hall j hj) with hj | hj
        · obtain ⟨d', hd', hstarted⟩ := h.started j hj
          obtain rfl := Option.some.inj (hd.symm.trans hd')
          exact absurd hnewd hstarted
        · exact List.mem_singleton.mp hj
      subst hjk
      by_contra hlive'
      exact absurd (hfirst i c' hc' hlive') (by omega)
    · by_cases hj' : j ∈ l.resumed
      · exact List.mem_append_left _ hj'
      · obtain ⟨d, hd, hnewd⟩ := hnew j hj hj'
        have hle : k ≤ j := hfirst j d hd (by rw [hnewd]; decide)
        rcases Nat.lt_or_eq_of_le hle with hlt | rfl
        · exact absurd (hturn answers hplace rfl j hj d hd hnewd k hlt c hc) hlive
        · exact List.mem_append_right _ List.mem_cons_self

/-- **One step of the loop** serves the clients if and only if new clients come
first. -/
theorem Inv.step (h : l.Inv) (hstep : machine l i = some (out, l')) :
    l'.Inv ∧ (l.Serves i out l' ↔ l.InTurn i) := by
  obtain ⟨S, place, asked, resumed⟩ := l
  cases place with
  | waiting =>
    cases i with
    | events events =>
      change (if events.length ≤ MAX_EVENTS then some _ else none) = _ at hstep
      split at hstep
      · obtain ⟨rfl, rfl⟩ := Prod.mk.inj (Option.some.inj hstep)
        refine ⟨h.events events, fun _ _ hplace => ?_, fun _ => ⟨fun _ hplace => ?_, ?_, ?_⟩⟩
        · cases hplace
        · cases hplace
        · exact fun k hk => absurd hk List.not_mem_nil
        · exact h.sched.curId
      · cases hstep
    | answers answers => cases hstep
  | handling rest =>
    cases i with
    | events events => cases rest <;> cases hstep
    | answers answers =>
      cases rest with
      | nil =>
        obtain ⟨⟨out', S'⟩, hfall, hret⟩ := Option.bind_eq_some_iff.mp hstep
        obtain ⟨rfl, rfl⟩ := Prod.mk.inj (Option.some.inj hret)
        obtain ⟨hinv, hiff⟩ := h.fallback rfl hfall
        refine ⟨hinv, fun hserves => hiff.mp (fun k hk => hserves.1 k rfl hk),
          fun hturn => ⟨fun k _ hk => hiff.mpr hturn k hk, ?_, hinv.sched.curId⟩⟩
        obtain ⟨-, ⟨rfl, -⟩ | ⟨k, c, rfl, hc, hlive, -⟩⟩ := h.sched.fallback hfall
        · exact fun k hk => absurd hk List.not_mem_nil
        · intro j hj d hd
          obtain rfl := List.mem_singleton.mp hj
          exact Option.some.inj (hc.symm.trans hd) ▸ hlive
      | cons e rest =>
        obtain ⟨⟨out', S'⟩, hdisp, hret⟩ := Option.bind_eq_some_iff.mp hstep
        obtain ⟨rfl, rfl⟩ := Prod.mk.inj (Option.some.inj hret)
        have hinv := h.dispatch rfl hdisp
        refine ⟨hinv, fun _ _ hplace => ?_, fun _ => ⟨fun _ hplace => ?_, ?_, hinv.sched.curId⟩⟩
        · cases hplace
        · cases hplace
        · obtain ⟨-, ⟨rfl, -⟩ | ⟨k, c, rfl, hc, hwaits, -⟩⟩ := h.sched.dispatch hdisp
          · exact fun k hk => absurd hk List.not_mem_nil
          · intro j hj d hd
            obtain rfl := List.mem_singleton.mp hj
            obtain rfl := Option.some.inj (hc.symm.trans hd)
            rw [hwaits.1]
            decide

theorem Inv.start (listenfd : ℤ) : (start listenfd).Inv where
  sched := {
    curId := rfl
    parked := fun _ _ h => nomatch h
    other := fun _ _ h => nomatch h
    single := fun _ _ _ _ h => nomatch h }
  started := fun _ hk => absurd hk List.not_mem_nil
  pending := fun _ _ _ hk => absurd hk List.not_mem_nil

/-- **When the scheduler serves its clients.** Along every run, every batch is over
with everybody resumed it was for, and nobody dead is resumed, if and only if no
batch is over while a coroutine it was for is still new behind one that is not
dead. -/
theorem serves_iff (listenfd : ℤ) (is : List Input) :
    machine.Holds Serves (start listenfd) is
      ↔ machine.Holds (fun l i _ _ => l.InTurn i) (start listenfd) is :=
  Machine.holds_congr (M := machine) (I := Inv) (fun _ _ _ _ h hstep => h.step hstep)
    (Inv.start listenfd)

/-- Two clients that connect at once, and the second one sends something. -/
def secondClient : List Input :=
  [.events [⟨3, EPOLLIN⟩], .answers [.accepted 5 true, .accepted 6 true, .again],
    .answers [.again], .events [⟨6, EPOLLIN⟩], .answers []]

/-- **The second client is not served** while the first one is there. -/
theorem not_serves : ∃ is : List Input, (machine.run (start 3) is).isSome
    ∧ ¬ machine.Holds Serves (start 3) is := by
  refine ⟨secondClient ++ [.answers [.again]], rfl, fun hholds => ?_⟩
  obtain ⟨rs, l, hrun, hasked, hlast⟩ : ∃ rs l, machine.run (start 3) secondClient = some (rs, l)
      ∧ l.asked = [1] ∧ machine l (.answers [.again])
        = some ([0], { l with place := .waiting, resumed := [0] }) := ⟨_, _, rfl, rfl, rfl⟩
  obtain ⟨out, l', hstep, hserves, -⟩ := hholds.last hrun
  obtain ⟨rfl, rfl⟩ := Prod.mk.inj (Option.some.inj (hlast.symm.trans hstep))
  have hresumed : 1 ∈ [0] := hserves 1 rfl (hasked ▸ List.mem_cons_self)
  exact absurd hresumed (by decide)

end Loop

end MiniNtyco
