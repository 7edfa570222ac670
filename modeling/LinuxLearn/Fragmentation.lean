import Mathlib.Tactic

/-!
# Messages in pieces

A message is cut into pieces, each of which says how many follow it, so that the last one
says that none does. A sequence of pieces then is one of messages in one way only: the
first piece tells how many there are of the first message, and the rest begins with the
second (`Messages.cancel`). Who reads pieces until one says that none follows has read a
message (`untilLast_append`).

A message need not be cut evenly, and it may be empty, but it has a piece.
-/

namespace Fragmentation

variable {β : Type}

/-- **A piece**: how many follow, and a part of the message. -/
abbrev Piece (β : Type) : Type := ℕ × List β

/-- **The pieces of a message.** -/
structure IsMessage (m : List β) (ps : List (Piece β)) : Prop where
  ne_nil : ps ≠ []
  countdown : ps.map Prod.fst = (List.range ps.length).reverse
  content : ps.flatMap Prod.snd = m

/-- **The pieces of some messages**, one after another. -/
inductive Messages : List (List β) → List (Piece β) → Prop
  | nil : Messages [] []
  | cons {m : List β} {ms : List (List β)} {ps qs : List (Piece β)} (h : IsMessage m ps)
    (hrest : Messages ms qs) : Messages (m :: ms) (ps ++ qs)

/-- The pieces up to the first one that says that none follows, and the others. -/
def untilLast : List (Piece β) → List (Piece β) × List (Piece β)
  | [] => ([], [])
  | p :: ps => if p.1 = 0 then ([p], ps) else (p :: (untilLast ps).1, (untilLast ps).2)

variable {m m' : List β} {ms ms' : List (List β)} {p : Piece β} {ps ps' qs qs' : List (Piece β)}

/-- **The first piece tells how many there are.** -/
theorem IsMessage.length_eq (h : IsMessage m (p :: ps)) : (p :: ps).length = p.1 + 1 := by
  have hhead := congrArg List.head? h.countdown
  rw [List.length_cons, List.range_succ, List.reverse_append] at hhead
  have hp : p.1 = ps.length := Option.some.inj hhead
  rw [List.length_cons, hp]

/-- What follows the first of more pieces counts down as well. -/
theorem IsMessage.tail {p' : Piece β} (h : IsMessage m (p :: p' :: ps)) :
    IsMessage ((p' :: ps).flatMap Prod.snd) (p' :: ps) := by
  refine ⟨List.cons_ne_nil _ _, ?_, rfl⟩
  have hcount := h.countdown
  rw [List.length_cons, List.range_succ, List.reverse_append] at hcount
  exact (List.cons.inj hcount).2

/-- **Reading until the last piece reads the message**, whatever follows it. -/
theorem untilLast_append (h : IsMessage m ps) (qs : List (Piece β)) : untilLast (ps ++ qs) = (ps, qs) := by
  induction ps generalizing m with
  | nil => exact absurd rfl h.ne_nil
  | cons p ps ih =>
    have hlen := h.length_eq
    cases ps with
    | nil =>
      have hzero : p.1 = 0 := Nat.succ.inj hlen.symm
      exact if_pos hzero
    | cons p' ps =>
      have hne : p.1 ≠ 0 := by
        rw [List.length_cons, List.length_cons] at hlen
        omega
      have hrest : untilLast ((p' :: ps).append qs) = (p' :: ps, qs) := ih h.tail
      refine (if_neg hne).trans ?_
      rw [hrest]

theorem Messages.append (h : Messages ms ps) (h' : Messages ms' qs) : Messages (ms ++ ms') (ps ++ qs) := by
  induction h with
  | nil => exact h'
  | cons hm _ ih =>
    rw [List.append_assoc]
    exact .cons hm ih

theorem Messages.single (h : IsMessage m ps) : Messages [m] ps := by
  have hone := Messages.cons h .nil
  rwa [List.append_nil] at hone

/-- **The first message of a sequence** that does not end before it. -/
theorem Messages.first (h : Messages ms (p :: ps)) : ∃ m ms' qs, ms = m :: ms'
    ∧ IsMessage m ((p :: ps).take (p.1 + 1)) ∧ p :: ps = (p :: ps).take (p.1 + 1) ++ qs ∧ Messages ms' qs := by
  generalize hall : p :: ps = all at h
  cases h with
  | nil => cases hall
  | @cons m ms' group qs hm hrest =>
    cases group with
    | nil => exact absurd rfl hm.ne_nil
    | cons p' group =>
      obtain ⟨rfl, -⟩ := List.cons.inj hall
      have htake : (p :: group ++ qs).take (p.1 + 1) = p :: group := List.take_left' hm.length_eq
      refine ⟨m, ms', qs, rfl, ?_, ?_, hrest⟩
      · rw [htake]
        exact hm
      · rw [htake]

/-- **A sequence of pieces is one of messages in one way**: what comes after the pieces of some
messages are pieces of the messages after these. -/
theorem Messages.cancel (h : Messages ms ps) (h' : Messages ms' (ps ++ qs)) :
    ∃ ms'', ms' = ms ++ ms'' ∧ Messages ms'' qs := by
  induction h generalizing ms' with
  | nil => exact ⟨ms', rfl, h'⟩
  | @cons m ms group rest hm _ ih =>
    cases group with
    | nil => exact absurd rfl hm.ne_nil
    | cons p group =>
      have hall : Messages ms' (p :: (group ++ (rest ++ qs))) := by rwa [List.append_assoc] at h'
      obtain ⟨m', ms'', qs', rfl, hm', hsplit, hrest⟩ := hall.first
      have htake : (p :: (group ++ (rest ++ qs))).take (p.1 + 1) = p :: group :=
        show (p :: group ++ (rest ++ qs)).take (p.1 + 1) = p :: group from List.take_left' hm.length_eq
      rw [htake] at hm' hsplit
      obtain rfl : m' = m := hm'.content.symm.trans hm.content
      have hqs : rest ++ qs = qs' :=
        List.append_cancel_left (show p :: group ++ (rest ++ qs) = p :: group ++ qs' from hsplit)
      obtain ⟨rest', rfl, hms⟩ := ih (hqs ▸ hrest)
      exact ⟨rest', rfl, hms⟩

/-- All that was in the pieces was in the messages. -/
theorem Messages.content (h : Messages ms ps) : ps.flatMap Prod.snd = ms.flatten := by
  induction h with
  | nil => rfl
  | cons hm _ ih => rw [List.flatMap_append, hm.content, ih, List.flatten_cons]

end Fragmentation
