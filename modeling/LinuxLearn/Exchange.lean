import Mathlib.Tactic

/-!
# Exchanges over connections

A server that answers requests over many connections leaves a **log**:
connections opened and closed, requests received with the response
computed for each, and bytes sent. The log is read connection by
connection. A connection takes turns if its entries alternate: a request
is received only when nothing is pending, and the next thing that happens
is that the pending response is sent, and nothing else (`phase`).

What a connection is *due* is the concatenation of the responses to its
requests; what it *got* is the concatenation of the bytes sent. Turns
alone do not make the two agree, since a send may send less than it was
asked to. They agree, up to what is still pending, if no send does
(`due_eq_of_whole`).
-/

namespace Exchange

variable {κ ι β : Type}

/-- **An entry of the log.** Of a send it tells the bytes it was asked to send,
and those it did. -/
inductive Act (κ ι β : Type) where
  | accept (c : κ)
  | recv (c : κ) (request : ι) (response : List β)
  | send (c : κ) (asked sent : List β)
  | close (c : κ)

namespace Act

/-- The connection an entry is about. -/
def conn : Act κ ι β → κ
  | accept c => c
  | recv c _ _ => c
  | send c _ _ => c
  | close c => c

/-- The request of an entry. -/
def request : Act κ ι β → Option ι
  | recv _ i _ => some i
  | _ => none

/-- The response computed in an entry. -/
def response : Act κ ι β → Option (List β)
  | recv _ _ r => some r
  | _ => none

/-- **Nothing is left unsent** by an entry. -/
def Whole : Act κ ι β → Prop
  | send _ asked sent => sent = asked
  | _ => True

/-- A send has sent as much of what it was asked to as the count reported to it
says, and the count is one `Sends` allows for the length asked for. -/
def SentAs (Sends : ℤ → Option ℕ → Prop) : Act κ ι β → Prop
  | send _ asked sent => ∃ n, Sends asked.length n ∧ sent = asked.take (n.getD 0)
  | _ => True

end Act

/-- The requests of a log, over all connections in order. -/
def requests (log : List (Act κ ι β)) : List ι := log.filterMap Act.request

/-- The responses computed in a log, over all connections in order. -/
def responses (log : List (Act κ ι β)) : List (List β) := log.filterMap Act.response

theorem requests_append (log log' : List (Act κ ι β)) :
    requests (log ++ log') = requests log ++ requests log' := List.filterMap_append

theorem responses_append (log log' : List (Act κ ι β)) :
    responses (log ++ log') = responses log ++ responses log' := List.filterMap_append

/-- **Where a connection is**: not open, waiting for a request, or with a
response still to be sent. -/
inductive Phase (β : Type) where
  | closed
  | idle
  | pending (response : List β)

namespace Phase

/-- What is still to be sent. -/
def rest : Phase β → List β
  | pending r => r
  | _ => []

/-- **One turn**: the phase after an entry of the connection, if it is its
turn. -/
def turn [DecidableEq β] : Phase β → Act κ ι β → Option (Phase β)
  | closed, .accept _ => some idle
  | idle, .recv _ _ r => some (pending r)
  | pending r, .send _ asked _ => if asked = r then some idle else none
  | idle, .close _ => some closed
  | _, _ => none

end Phase

section Log

variable [DecidableEq κ]

/-- **The phase of a connection** after a log, if its entries take turns. -/
def phase [DecidableEq β] (c : κ) (log : List (Act κ ι β)) : Option (Phase β) :=
  log.foldlM (fun ph a => if a.conn = c then ph.turn a else some ph) .closed

/-- One more entry's share in what a connection is due. -/
def Act.addDue (c : κ) (d : List β) : Act κ ι β → List β
  | accept c' => if c' = c then [] else d
  | recv c' _ r => if c' = c then d ++ r else d
  | _ => d

/-- One more entry's share in what a connection got. -/
def Act.addGot (c : κ) (g : List β) : Act κ ι β → List β
  | accept c' => if c' = c then [] else g
  | send c' _ s => if c' = c then g ++ s else g
  | _ => g

/-- **What a connection is due**: the responses to its requests since it was
opened. -/
def due (c : κ) (log : List (Act κ ι β)) : List β := log.foldl (Act.addDue c) []

/-- **What a connection got**: the bytes sent to it since it was opened. -/
def got (c : κ) (log : List (Act κ ι β)) : List β := log.foldl (Act.addGot c) []

variable (c : κ) (log : List (Act κ ι β)) (a : Act κ ι β)

theorem due_concat : due c (log ++ [a]) = a.addDue c (due c log) := by
  unfold due
  rw [List.foldl_append]
  rfl

theorem got_concat : got c (log ++ [a]) = a.addGot c (got c log) := by
  unfold got
  rw [List.foldl_append]
  rfl

section

variable {c : κ} {a : Act κ ι β}

/-- An entry of another connection is nobody else's. -/
theorem addDue_of_ne (h : a.conn ≠ c) (d : List β) : a.addDue c d = d := by
  cases a with
  | accept c' => exact if_neg h
  | recv c' i r => exact if_neg h
  | send c' asked sent => rfl
  | close c' => rfl

theorem addGot_of_ne (h : a.conn ≠ c) (g : List β) : a.addGot c g = g := by
  cases a with
  | accept c' => exact if_neg h
  | recv c' i r => rfl
  | send c' asked sent => exact if_neg h
  | close c' => rfl

end

variable [DecidableEq β]

theorem phase_concat :
    phase c (log ++ [a])
      = (phase c log).bind (fun ph => if a.conn = c then ph.turn a else some ph) := by
  unfold phase
  rw [List.foldlM_append]
  show Option.bind (List.foldlM _ Phase.closed log) _ = _
  congr 1
  funext ph
  rw [List.foldlM_cons]
  exact bind_pure _

variable {c log a}

/-- An entry of another connection is not this one's turn. -/
theorem phase_concat_of_ne (h : a.conn ≠ c) : phase c (log ++ [a]) = phase c log := by
  rw [phase_concat]
  simp [h]

/-- An entry of the connection itself, at its turn. -/
theorem phase_concat_of_turn {ph ph' : Phase β} (h : phase c log = some ph) (hc : a.conn = c)
    (hturn : ph.turn a = some ph') : phase c (log ++ [a]) = some ph' := by
  rw [phase_concat, h]
  exact (if_pos hc).trans hturn

/-- The entries of a log all belong to other connections. -/
theorem phase_append_of_ne {log' : List (Act κ ι β)} (h : ∀ a ∈ log', a.conn ≠ c) :
    phase c (log ++ log') = phase c log := by
  induction log' using List.reverseRecOn with
  | nil => rw [List.append_nil]
  | append_singleton log' a ih =>
    rw [← List.append_assoc, phase_concat_of_ne (h a (by simp))]
    exact ih (fun b hb => h b (List.mem_append_left _ hb))

/-- **One turn moves what is due from pending to got**, if nothing is left
unsent. -/
theorem due_eq_of_turn {ph ph' : Phase β} (hturn : ph.turn a = some ph') (hwhole : a.Whole)
    {d g : List β} (h : d = g ++ ph.rest) (hc : a.conn = c) :
    a.addDue c d = a.addGot c g ++ ph'.rest := by
  cases ph with
  | closed =>
    cases a with
    | accept c' =>
      obtain rfl := Option.some.inj hturn
      simp [Act.addDue, Act.addGot, show c' = c from hc, Phase.rest]
    | recv c' i r => cases hturn
    | send c' asked sent => cases hturn
    | close c' => cases hturn
  | idle =>
    cases a with
    | accept c' => cases hturn
    | recv c' i r =>
      obtain rfl := Option.some.inj hturn
      have hd : d = g := by simpa [Phase.rest] using h
      simp [Act.addDue, Act.addGot, show c' = c from hc, Phase.rest, hd]
    | send c' asked sent => cases hturn
    | close c' =>
      obtain rfl := Option.some.inj hturn
      exact h
  | pending r =>
    cases a with
    | accept c' => cases hturn
    | recv c' i r' => cases hturn
    | send c' asked sent =>
      by_cases hasked : asked = r
      · have hph : ph' = .idle := by
          simpa [Phase.turn, hasked, eq_comm] using hturn
        obtain rfl : sent = asked := hwhole
        simp [Act.addDue, Act.addGot, show c' = c from hc, Phase.rest, hph, h, hasked]
      · simp [Phase.turn, hasked] at hturn
    | close c' => cases hturn

/-- **Nothing is lost** on a connection that takes turns, if no send leaves
anything unsent: what it is due is what it got and what is pending. -/
theorem due_eq_of_whole {ph : Phase β} (hph : phase c log = some ph)
    (hwhole : ∀ a ∈ log, a.Whole) : due c log = got c log ++ ph.rest := by
  induction log using List.reverseRecOn generalizing ph with
  | nil =>
    obtain rfl := Option.some.inj hph
    rfl
  | append_singleton log a ih =>
    have hlog : ∀ b ∈ log, b.Whole := fun b hb => hwhole b (List.mem_append_left _ hb)
    rw [due_concat, got_concat]
    by_cases hc : a.conn = c
    · rw [phase_concat] at hph
      obtain ⟨ph₀, hph₀, hturn⟩ := Option.bind_eq_some_iff.mp hph
      rw [if_pos hc] at hturn
      exact due_eq_of_turn hturn (hwhole a (by simp)) (ih hph₀ hlog) hc
    · rw [phase_concat_of_ne hc] at hph
      rw [addDue_of_ne hc, addGot_of_ne hc]
      exact ih hph hlog

/-- **Nothing is lost on a connection**: it takes turns, and what it is due is
what it got and what is pending. -/
def Delivers (c : κ) (log : List (Act κ ι β)) : Prop :=
  ∃ ph, phase c log = some ph ∧ due c log = got c log ++ ph.rest

end Log

end Exchange
