import LinuxLearn.KvsReactor
import LinuxLearn.KvsProactor

/-!
# Delivery

Neither network layer looks at how much a `send` has sent. The reactor's
`send_cb` waits for the next request whatever `send` returned, and the
proactor's `EVENT_SEND` does so for every count that is not negative. What
a short send leaves unsent is overwritten by the next response, and lost.

Both layers do keep every connection to its turns, so this is all that
can go wrong: where each send sends what it was asked to, a client gets
the responses to its requests, in order and in full
(`responses_delivered`).
-/

open Exchange

/-- **Every response is delivered** by both network layers, with any engine, if
every send reports the whole length it was asked for. -/
theorem responses_delivered (e : Engine) {garbage : Vector KvsArrayItem KVS_ARRAY_SIZE} {env₀ : Env}
    {s₀ : e.State} (hinit : e.initKvengine garbage env₀ = some s₀) :
    (∀ log s, (Proactor.machine e.ops).Reach
        (Proactor.Kernel (Proactor.Completion.Sending SendsAll)) (Proactor.start s₀) log s →
      ∀ c, Delivers c (Proactor.acts log))
    ∧ ∀ listener < CONNECTION_SIZE, ∀ log s, (Reactor.machine e.ops).Reach
        (Reactor.Kernel SendsAll) (Reactor.start s₀ listener) log s →
      ∀ fd, fd ≠ listener → Delivers fd log := by
  constructor
  · intro log s h c
    have hsome : ∀ len, 0 < len → ¬ SendsAll len none := by
      rintro len - ⟨n, hn, -⟩
      cases hn
    obtain ⟨hinv, htalks⟩ := Proactor.reach_talks e hsome hinit h
    obtain ⟨ph, hph⟩ := htalks.exists_phase hinv c
    exact ⟨ph, hph, due_eq_of_whole hph (fun a ha => whole_of_sendsAll (htalks.sends a ha))⟩
  · intro listener hlistener log s h fd hfd
    have hinv := Reactor.reach_inv e.copies hlistener (e.init_all Short garbage env₀ s₀ hinit) h
    obtain ⟨ph, hph⟩ := hinv.exists_phase hfd
    exact ⟨ph, hph, due_eq_of_whole hph (fun a ha => whole_of_sendsAll (hinv.sends a ha))⟩

/-! ## A run -/

/-- A request that is no command. -/
def noise : Received := .ofText "x" (by decide) (by decide)

/-- What it deserves. -/
def noiseText : List UInt8 := ascii "protocol error,please send again!\r\n"

/-- It leaves the engine alone. -/
theorem server_noise {E : Type} (ops : KvsOps E) (engine : E) (env : Env) :
    ops.server engine (noise.request, env) = some (sprintf noiseText, engine) := by
  have hasks : noise.request.asks = .unknown := by decide +kernel
  rw [server_eq ⟨noise.terminated, by decide +kernel⟩, hasks]
  rfl

namespace Proactor

variable {E : Type}

/-- An iteration of the loop with one completion. -/
theorem iterate_singleton {ops : KvsOps E} {s s' : Proactor E} {cqe : Completion}
    {notes : List Note} (hprepared : none ∉ s.sq)
    (h : complete ops s.submitted cqe = .ok (notes, s')) :
    machine ops s [cqe] = some (notes, s') := by
  have hall : completeAll ops s.submitted [cqe] = .ok (notes, s') := by
    refine bind_ok h ?_
    show Except.ok (notes ++ [], s') = _
    rw [List.append_nil]
  have hiterate : iterate ops s [cqe] = .ok (notes, s') :=
    bind_ok (submit_of_prepared hprepared) hall
  unfold machine
  rw [hiterate]
  rfl

/-- The client's request has come. -/
def noiseRecv : Completion where
  sqe := ⟨.recv 1, 2⟩
  answer := ⟨none, .data noise, none, Env.healthy (fun _ => false)⟩
  malloc := fun _ => true

/-- The response was sent, or some of it. -/
def noiseSent (n : ℕ) : Completion where
  sqe := ⟨.send 1 noiseText.length, 4⟩
  answer := ⟨none, .disconnected, some n, Env.healthy (fun _ => false)⟩
  malloc := fun _ => true

/-- **A client connects and sends `x`**: the response waits to be sent. -/
theorem reach_noiseRecv {ops : KvsOps E} (hcopies : Copies ops) {s₀ : E}
    (hshort : (ops.strs s₀).All Short) (Sends : ℤ → Option ℕ → Prop) :
    ∃ s x, (machine ops).Reach (Kernel (Completion.Sending Sends)) (start s₀)
        ([Note.act (.accept 1), .ret 0, .ret 0]
          ++ [Note.act (.recv 1 (noise.request, Env.healthy (fun _ => false)) noiseText), .ret 0]) s
      ∧ s.sq = [some ⟨.send 1 noiseText.length, 4⟩] ∧ s.events.load 4 = some ⟨.send, 1⟩
      ∧ s.conns.load 1 = some x ∧ x.wbuf.take noiseText.length = noiseText := by
  have hfirst : Completion.Sending Sends firstAccept := by
    constructor
    · intro r hr
      cases hr
    · intro c len hop
      cases hop
  have hreach : (machine ops).Reach (Kernel (Completion.Sending Sends)) (start s₀)
      [.act (.accept 1), .ret 0, .ret 0] ((start s₀).submitted.accepted ⟨.accept, 1⟩ 5) :=
    Machine.Reach.refl.step (kernel_firstAccept _ hfirst s₀) rfl
  have hkernel : Kernel (Completion.Sending Sends)
      ((start s₀).submitted.accepted ⟨.accept, 1⟩ 5) [noiseRecv] := by
    refine ⟨by decide, List.nodup_singleton _, List.forall_mem_singleton.mpr ⟨?_, fun _ => rfl, ?_, ?_⟩⟩
    · exact List.mem_cons_self
    · intro r hr
      cases hr
      decide
    · intro c len hop
      cases hop
  obtain ⟨f, -, r, hr, hfails⟩ | ⟨a, engine, wbuf, hserve, hprint, hok⟩ :=
    onRecv_data (s := { ((start s₀).submitted.accepted ⟨.accept, 1⟩ 5).submitted with
        inflight := ((start s₀).submitted.accepted ⟨.accept, 1⟩ 5).submitted.inflight.erase
          noiseRecv.sqe })
      (p := 2) (e := ⟨.recv, 1⟩) (c := 1) (x := ⟨5, zeros, 0, zeros, 0⟩)
      hcopies noiseRecv rfl rfl rfl hshort (by simp [submitted, ENTRIES_LENGTH]) (fun _ => rfl) rfl
  · cases hr
    cases hfails.symm.trans (kvsProtocol_of_server (server_noise ops _ _))
  · obtain ⟨ha, -⟩ := Prod.mk.inj (Option.some.inj (hserve.symm.trans (server_noise ops _ _)))
    subst ha
    have hlt : noiseText.length < zeros.length := by
      rw [zeros, List.length_replicate]
      decide
    obtain ⟨buf, hbuf, -, htake⟩ := printTo_sprintf _ hlt
    obtain rfl : buf = wbuf := Option.some.inj (hbuf.symm.trans hprint)
    have hcomplete := (complete_eq ops noiseRecv
      (s := ((start s₀).submitted.accepted ⟨.accept, 1⟩ 5).submitted) (e := ⟨.recv, 1⟩) rfl
      ⟨rfl, fun _ => rfl⟩).trans hok
    exact ⟨_, _, hreach.step hkernel (iterate_singleton (by simp [accepted, submitted]) hcomplete),
      rfl, rfl, rfl, htake⟩

/-- **The client is sent `n` bytes of the response.** -/
theorem reach_noiseSent {ops : KvsOps E} (hcopies : Copies ops) {s₀ : E}
    (hshort : (ops.strs s₀).All Short) (Sends : ℤ → Option ℕ → Prop) {n : ℕ}
    (hn : Sends noiseText.length (some n)) :
    ∃ log s, (machine ops).Reach (Kernel (Completion.Sending Sends)) (start s₀) log s
      ∧ acts log = [.accept 1, .recv 1 (noise.request, Env.healthy (fun _ => false)) noiseText,
        .send 1 noiseText (noiseText.take n)] := by
  obtain ⟨s, x, hreach, hsq, hevent, hload, htake⟩ := reach_noiseRecv hcopies hshort Sends
  have hprepared : none ∉ s.sq := by simp [hsq]
  have hroom : s.submitted.sq.length < ENTRIES_LENGTH := Nat.lt_of_sub_eq_succ rfl
  have hkernel : Kernel (Completion.Sending Sends) s [noiseSent n] := by
    refine ⟨Nat.le_of_ble_eq_true rfl, List.nodup_singleton _,
      List.forall_mem_singleton.mpr ⟨?_, fun _ => rfl, ?_, ?_⟩⟩
    · rw [hsq]
      exact List.mem_append_right _ List.mem_cons_self
    · intro r hr
      cases hr
    · intro c len hop
      cases hop
      exact hn
  have hcomplete := (complete_eq ops (noiseSent n) (s := s.submitted) (e := ⟨.send, 1⟩) hevent
    ⟨rfl, fun _ => rfl⟩).trans
      (onSend_sent (s := { s.submitted with inflight := s.submitted.inflight.erase (noiseSent n).sqe })
        hevent hload noiseText.length hroom (fun _ => rfl) rfl)
  rw [if_pos (Int.natCast_nonneg _), Int.toNat_natCast, htake] at hcomplete
  exact ⟨_, _, hreach.step hkernel (iterate_singleton hprepared hcomplete), rfl⟩

end Proactor

/-- The skip list is sent `x`, and answers in full. -/
theorem responses_delivered_noise :
    ∃ (s₀ : Engine.skiptable.State) (log : List Proactor.Note) (s : Proactor Engine.skiptable.State),
      Engine.skiptable.Started s₀
      ∧ (Proactor.machine Engine.skiptable.ops).Reach
        (Proactor.Kernel (Proactor.Completion.Sending SendsAll)) (Proactor.start s₀) log s
      ∧ got 1 (Proactor.acts log) = noiseText ∧ Delivers 1 (Proactor.acts log) := by
  obtain ⟨s₀, hinit, -⟩ := Engine.exists_init (Vector.replicate KVS_ARRAY_SIZE ⟨0, 0⟩)
    (fun _ => false) .skiptable
  have hshort := Engine.skiptable.init_all Short _ _ s₀ hinit
  obtain ⟨log, s, hreach, hlog⟩ := Proactor.reach_noiseSent Engine.skiptable.copies hshort
    SendsAll ⟨noiseText.length, rfl, rfl⟩
  refine ⟨s₀, log, s, ⟨_, _, hinit⟩, hreach, ?_,
    (responses_delivered .skiptable hinit).1 log s hreach 1⟩
  rw [hlog]
  decide

/-- A send that reports one byte of the response loses the others, and leaves
the client waiting for none. -/
theorem not_responses_delivered :
    ¬ ∀ (s₀ : Engine.skiptable.State) (log : List Proactor.Note)
      (s : Proactor Engine.skiptable.State), Engine.skiptable.Started s₀ →
      (Proactor.machine Engine.skiptable.ops).Reach
        (Proactor.Kernel (Proactor.Completion.Sending SendsSome)) (Proactor.start s₀) log s →
      ∀ c, Delivers c (Proactor.acts log) := by
  intro h
  obtain ⟨s₀, hinit, -⟩ := Engine.exists_init (Vector.replicate KVS_ARRAY_SIZE ⟨0, 0⟩)
    (fun _ => false) .skiptable
  have hshort := Engine.skiptable.init_all Short _ _ s₀ hinit
  obtain ⟨log, s, hreach, hlog⟩ := Proactor.reach_noiseSent Engine.skiptable.copies hshort
    SendsSome (n := 1) (fun _ => ⟨1, rfl, by decide, by decide⟩)
  obtain ⟨ph, hph, hdue⟩ := h s₀ log s ⟨_, _, hinit⟩ hreach 1
  rw [hlog] at hph hdue
  have hidle : ph = .idle := (Option.some.inj hph).symm
  subst hidle
  exact absurd hdue (by decide)
