import LinuxLearn.KvsProtocol

/-!
# The chat server

`KcpServer::HandleSession`: what came in a datagram is given to the session, and
then the messages that are complete are taken out of it one after another, all
into the same buffer. A message that is the command for keeping the connection
is noted, and any other is given to the application.

Whether it is the command is read off the first bytes of the buffer, however
long the message was. A longer message that begins with the command is taken for
it, and so is a shorter one, if what stands behind it in the buffer, from
messages before it or from the datagram, makes it the command
(`handles_messages_iff`).
-/

namespace KcpChat

/-- `KCP_KEEP_ALIVE_CMD`, with its NUL, as it is sent and as it is compared. -/
def KCP_KEEP_ALIVE_CMD : List UInt8 := ascii "KCP_KEEP_ALIVE_CMD" ++ [0]

/-- `body_size`. -/
def body_size : ℕ := 1024 * 4

/-- **The buffer**, `buf_`. -/
abbrev Body := {bytes : List UInt8 // bytes.length = body_size}

/-- **What the server does** with a message, or when there is one that is too long. -/
inductive Event where
  | setKeepAlive
  | handleMessage (msg : List UInt8)
  | exit

/-- A message is put into the buffer, and what is behind it stays. -/
def Body.put (buf : Body) (msg : List UInt8) (h : msg.length ≤ body_size) : Body :=
  ⟨msg ++ buf.val.drop msg.length, by
    rw [List.length_append, List.length_drop, buf.property]
    omega⟩

/-- **`KcpSession::Recv`**, where these messages are complete: what it returns, what is in
the buffer then, and the messages that are left. -/
def recv : List (List UInt8) → Body → ℤ × Body × List (List UInt8)
  | [], buf => (-1, buf, [])
  | msg :: queue, buf =>
    if h : msg.length ≤ body_size then (msg.length, buf.put msg h, queue)
    else (-3, buf, msg :: queue)

/-- **The loop of `HandleSession`**; there are no more rounds than messages and one. -/
def receiveLoop : ℕ → List (List UInt8) → Body → List Event
  | 0, _, _ => []
  | fuel + 1, queue, buf =>
    let (len, buf, queue) := recv queue buf
    if len = -3 then [.exit]
    else if len ≤ 0 then []
    else if buf.val.take KCP_KEEP_ALIVE_CMD.length = KCP_KEEP_ALIVE_CMD then
      .setKeepAlive :: receiveLoop fuel queue buf
    else
      .handleMessage (buf.val.take len.toNat) :: receiveLoop fuel queue buf

/-- **`KcpServer::HandleSession`**: `ret` is what `KcpSession::Input` returns, and the
messages in the queue are complete then. -/
def handleSession (ret : ℤ) (queue : List (List UInt8)) (buf : Body) : List Event :=
  if ret ≠ 0 then [] else receiveLoop (queue.length + 1) queue buf

/-! ## What is said to be handled -/

/-- **A message** that fits the buffer. -/
structure Message where
  bytes : List UInt8
  ne_nil : bytes ≠ []
  length_le : bytes.length ≤ body_size

/-- **What a message is for.** -/
def Message.event (m : Message) : Event :=
  if m.bytes = KCP_KEEP_ALIVE_CMD then .setKeepAlive else .handleMessage m.bytes

/-- **What stands at an index of the buffer** after some messages: a byte of the last of them
that is long enough, or of what was there before. -/
def standing (buf : Body) (before : List Message) (i : ℕ) : Option UInt8 :=
  match before.reverse.find? (fun m => i < m.bytes.length) with
  | some m => m.bytes[i]?
  | none => buf.val[i]?

/-- **A message that is taken for the command**: it is longer and begins with it, or it is
shorter, the command begins with it, and the rest of the command stands behind it. -/
def Mistaken (buf : Body) (before : List Message) (m : Message) : Prop :=
  m.bytes ≠ KCP_KEEP_ALIVE_CMD
    ∧ (KCP_KEEP_ALIVE_CMD <+: m.bytes
      ∨ m.bytes <+: KCP_KEEP_ALIVE_CMD
        ∧ ∀ i, m.bytes.length ≤ i → i < KCP_KEEP_ALIVE_CMD.length →
          standing buf before i = KCP_KEEP_ALIVE_CMD[i]?)

section

variable {buf : Body} {before messages : List Message} {m : Message} {i fuel : ℕ}

/-- What stands in the buffer after a message and others is what the others leave of it. -/
theorem standing_cons : standing buf (m :: before) i
    = standing (buf.put m.bytes m.length_le) before i := by
  unfold standing
  rw [List.reverse_cons, List.find?_append]
  cases before.reverse.find? (fun m => i < m.bytes.length) with
  | some m' => rfl
  | none =>
    rw [Option.none_or]
    show _ = (m.bytes ++ buf.val.drop m.bytes.length)[i]?
    by_cases hi : i < m.bytes.length
    · have hfind : [m].find? (fun m => i < m.bytes.length) = some m :=
        List.find?_cons_of_pos (decide_eq_true hi)
      rw [hfind, List.getElem?_append_left hi]
    · have hfind : [m].find? (fun m => i < m.bytes.length) = none :=
        List.find?_cons_of_neg (by simpa using hi)
      rw [hfind, List.getElem?_append_right (Nat.not_lt.mp hi), List.getElem?_drop,
        Nat.add_sub_cancel' (Nat.not_lt.mp hi)]

/-- A list written over the start of another begins with a third: it does, or it is where the
third begins, and the rest stands behind it. -/
theorem take_append_drop_eq_iff {l b cmd : List UInt8} (hb : cmd.length ≤ b.length) :
    (l ++ b.drop l.length).take cmd.length = cmd
      ↔ cmd <+: l
        ∨ l <+: cmd ∧ ∀ i, l.length ≤ i → i < cmd.length → b[i]? = cmd[i]? := by
  rw [eq_comm, ← List.prefix_iff_eq_take]
  have hl : l <+: l ++ b.drop l.length := List.prefix_append _ _
  constructor
  · intro h
    by_cases hlen : cmd.length ≤ l.length
    · exact Or.inl (List.prefix_of_prefix_length_le h hl hlen)
    · refine Or.inr ⟨List.prefix_of_prefix_length_le hl h (by omega), fun i hi hi' => ?_⟩
      obtain ⟨rest, hrest⟩ := h
      have hget : (cmd ++ rest)[i]? = (l ++ b.drop l.length)[i]? := by rw [hrest]
      rw [List.getElem?_append_left hi', List.getElem?_append_right hi, List.getElem?_drop,
        Nat.add_sub_cancel' hi] at hget
      exact hget.symm
  · rintro (h | ⟨⟨rest, rfl⟩, hrest⟩)
    · exact h.trans hl
    · have htake : rest = (b.drop l.length).take rest.length := by
        refine List.ext_getElem? (fun i => ?_)
        rw [List.getElem?_take]
        split
        · next hi =>
          have hget := hrest (l.length + i) (Nat.le_add_right _ _) (by
            rw [List.length_append]
            omega)
          rw [List.getElem?_append_right (Nat.le_add_right _ _), Nat.add_sub_cancel_left] at hget
          rw [List.getElem?_drop, hget]
        · next hi => exact List.getElem?_eq_none (Nat.not_lt.mp hi)
      exact (List.prefix_append_right_inj l).mpr (List.prefix_iff_eq_take.mpr htake)

/-- **The comparison** finds the command, or a message that is taken for it. -/
theorem take_put_eq_iff (buf : Body) (m : Message) :
    (buf.put m.bytes m.length_le).val.take KCP_KEEP_ALIVE_CMD.length = KCP_KEEP_ALIVE_CMD
      ↔ m.bytes = KCP_KEEP_ALIVE_CMD ∨ Mistaken buf [] m := by
  have hb : KCP_KEEP_ALIVE_CMD.length ≤ buf.val.length := by
    rw [buf.property]
    decide
  refine (take_append_drop_eq_iff hb).trans ⟨fun h => ?_, ?_⟩
  · by_cases hm : m.bytes = KCP_KEEP_ALIVE_CMD
    · exact Or.inl hm
    · exact Or.inr ⟨hm, h⟩
  · rintro (hm | ⟨-, h⟩)
    · exact Or.inl (hm ▸ List.prefix_refl _)
    · exact h

theorem mistaken_cons {m' : Message} :
    Mistaken buf (m :: before) m' ↔ Mistaken (buf.put m.bytes m.length_le) before m' := by
  unfold Mistaken
  simp only [standing_cons]

/-- **A round** with a message puts it into the buffer, and compares what is there. -/
theorem receiveLoop_cons (fuel : ℕ) (m : Message) (queue : List (List UInt8)) (buf : Body) :
    receiveLoop (fuel + 1) (m.bytes :: queue) buf
      = (if (buf.put m.bytes m.length_le).val.take KCP_KEEP_ALIVE_CMD.length = KCP_KEEP_ALIVE_CMD
          then .setKeepAlive else .handleMessage m.bytes)
        :: receiveLoop fuel queue (buf.put m.bytes m.length_le) := by
  have hrecv : recv (m.bytes :: queue) buf
      = ((m.bytes.length : ℤ), buf.put m.bytes m.length_le, queue) := dif_pos m.length_le
  have hpos := List.length_pos_iff.mpr m.ne_nil
  have htake : (buf.put m.bytes m.length_le).val.take (m.bytes.length : ℤ).toNat = m.bytes :=
    List.take_left
  rw [receiveLoop, hrecv]
  dsimp only
  rw [if_neg (by omega), if_neg (by omega), htake]
  split
  · rfl
  · rfl

/-- **A message is handled as it is said** exactly where it is not mistaken. -/
theorem event_eq_iff (buf : Body) (m : Message) :
    (if (buf.put m.bytes m.length_le).val.take KCP_KEEP_ALIVE_CMD.length = KCP_KEEP_ALIVE_CMD
        then .setKeepAlive else .handleMessage m.bytes) = m.event ↔ ¬ Mistaken buf [] m := by
  unfold Message.event
  by_cases hm : m.bytes = KCP_KEEP_ALIVE_CMD
  · rw [if_pos ((take_put_eq_iff buf m).mpr (Or.inl hm)), if_pos hm]
    exact iff_of_true rfl (fun h => h.1 hm)
  · rw [if_neg hm]
    by_cases hmistaken : Mistaken buf [] m
    · rw [if_pos ((take_put_eq_iff buf m).mpr (Or.inr hmistaken))]
      exact iff_of_false (fun h => by cases h) (not_not.mpr hmistaken)
    · rw [if_neg (fun h => ((take_put_eq_iff buf m).mp h).elim hm hmistaken)]
      exact iff_of_true rfl hmistaken

/-- **The loop handles messages as it is said** exactly where it mistakes none of them. -/
theorem receiveLoop_eq_iff (hfuel : messages.length < fuel) :
    receiveLoop fuel (messages.map Message.bytes) buf = messages.map Message.event
      ↔ ∀ before m after, messages = before ++ m :: after → ¬ Mistaken buf before m := by
  induction messages generalizing buf fuel with
  | nil =>
    obtain ⟨fuel, rfl⟩ := Nat.exists_eq_succ_of_ne_zero (Nat.ne_zero_of_lt hfuel)
    exact iff_of_true rfl (fun before m after h => by simp at h)
  | cons m messages ih =>
    obtain ⟨fuel, rfl⟩ := Nat.exists_eq_succ_of_ne_zero (Nat.ne_zero_of_lt hfuel)
    rw [List.map_cons, List.map_cons, receiveLoop_cons, List.cons_eq_cons, event_eq_iff,
      ih (Nat.lt_of_succ_lt_succ hfuel)]
    constructor
    · rintro ⟨hfirst, hrest⟩ before m' after h
      cases before with
      | nil =>
        obtain ⟨rfl, -⟩ := List.cons.inj h
        exact hfirst
      | cons d before =>
        obtain ⟨rfl, htail⟩ := List.cons.inj h
        exact fun hmistaken => hrest before m' after htail (mistaken_cons.mp hmistaken)
    · intro h
      refine ⟨h [] m messages rfl, fun before m' after htail hmistaken => ?_⟩
      exact h (m :: before) m' after (congrArg (m :: ·) htail) (mistaken_cons.mpr hmistaken)

end

/-- **Messages are handled as they are said to be** exactly where none of them is mistaken for
the command. -/
theorem handles_messages_iff (buf : Body) (messages : List Message) :
    handleSession 0 (messages.map Message.bytes) buf = messages.map Message.event
      ↔ ∀ before m after, messages = before ++ m :: after → ¬ Mistaken buf before m := by
  unfold handleSession
  rw [if_neg (fun h => h rfl), List.length_map]
  exact receiveLoop_eq_iff (Nat.lt_succ_self _)

/-- **After the command, a message `KCP` is lost**: the rest of the command still stands
behind it. -/
theorem not_handles_messages : handleSession 0 ([⟨KCP_KEEP_ALIVE_CMD, by decide, by decide⟩,
      ⟨ascii "KCP", by decide, by decide⟩].map Message.bytes)
      ⟨List.replicate body_size 0, List.length_replicate⟩
    ≠ [⟨KCP_KEEP_ALIVE_CMD, by decide, by decide⟩, ⟨ascii "KCP", by decide, by decide⟩].map
      Message.event := by
  intro h
  refine (receiveLoop_eq_iff (Nat.lt_succ_self 2)).mp h
    [⟨KCP_KEEP_ALIVE_CMD, by decide, by decide⟩] ⟨ascii "KCP", by decide, by decide⟩ [] rfl
    ⟨by decide, Or.inr ⟨by decide, fun i _ hi => ?_⟩⟩
  have hfind : [(⟨KCP_KEEP_ALIVE_CMD, by decide, by decide⟩ : Message)].reverse.find?
      (fun m => i < m.bytes.length) = some ⟨KCP_KEEP_ALIVE_CMD, by decide, by decide⟩ :=
    List.find?_cons_of_pos (decide_eq_true hi)
  unfold standing
  rw [hfind]

end KcpChat
