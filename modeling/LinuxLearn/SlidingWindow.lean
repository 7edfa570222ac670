import Mathlib.Tactic
import Mathlib.Logic.Relation

/-!
# A sliding window over a network that loses

One side numbers what it has to send, in the order in which it is to arrive, and
holds each item until it is told that the item has come. The other side takes items
in whatever order they come, keeps those that are early, and delivers them by their
numbers. It tells which items it has, one by one or all those below a number.

The network is the set of the messages that were ever sent on it. Whatever is in it
may arrive at any time, any number of times or not at all, so a message may be lost,
doubled, delayed and overtaken.

In every state that can be reached what was delivered is a prefix of what was
numbered (`Reachable.got_isPrefix`), and of the rest each item is held on one side or
kept on the other (`Reachable.kept`).
-/

open Relation

namespace SlidingWindow

variable {α : Type}

/-- **A message**: an item with its number, word that the item of a number has come, or
word that all those below a number have. -/
inductive Message (α : Type) where
  | data (n : ℕ) (a : α)
  | ack (n : ℕ)
  | upTo (n : ℕ)

/-- **A state of both sides**, and the messages that were ever sent. -/
structure State (α : Type) where
  sent : List α
  held : Set ℕ
  got : List α
  early : ℕ → Option α
  net : Set (Message α)

/-- Nothing was numbered. -/
def init : State α := ⟨[], ∅, [], fun _ => none, ∅⟩

/-- The item of a number has come. -/
def State.Received (s : State α) (n : ℕ) : Prop := n < s.got.length ∨ ∃ a, s.early n = some a

/-- **A step** of one of the sides. -/
inductive Step : State α → State α → Prop
  | number {s : State α} (a : α) :
    Step s { s with sent := s.sent ++ [a], held := insert s.sent.length s.held }
  | transmit {s : State α} {n : ℕ} {a : α} (ha : s.sent[n]? = some a) :
    Step s { s with net := insert (.data n a) s.net }
  | store {s : State α} {n : ℕ} {a : α} (hnet : .data n a ∈ s.net) (hn : s.got.length ≤ n) :
    Step s { s with early := Function.update s.early n (some a) }
  | deliver {s : State α} {a : α} (ha : s.early s.got.length = some a) :
    Step s { s with got := s.got ++ [a], early := Function.update s.early s.got.length none }
  | acknowledge {s : State α} {n : ℕ} (hn : s.Received n) :
    Step s { s with net := insert (.ack n) s.net }
  | acknowledgeUpTo {s : State α} : Step s { s with net := insert (.upTo s.got.length) s.net }
  | release {s : State α} {n : ℕ} (hnet : .ack n ∈ s.net) :
    Step s { s with held := s.held \ {n} }
  | releaseUpTo {s : State α} {n : ℕ} (hnet : .upTo n ∈ s.net) :
    Step s { s with held := s.held \ {i | i < n} }

/-- Steps, one after another. -/
def Steps : State α → State α → Prop := ReflTransGen Step

/-- **What can be reached** from where nothing was numbered. -/
def Reachable (s : State α) : Prop := Steps init s

variable {s t u : State α} {n : ℕ} {a : α}

/-! ## What a step keeps -/

/-- What was numbered stays. -/
theorem Step.sent_isPrefix (h : Step s t) : s.sent <+: t.sent := by
  cases h with
  | number a => exact List.prefix_append s.sent [a]
  | _ => exact List.prefix_rfl

/-- What was delivered stays. -/
theorem Step.got_isPrefix (h : Step s t) : s.got <+: t.got := by
  cases h with
  | deliver ha => exact List.prefix_append s.got _
  | _ => exact List.prefix_rfl

/-- A message that was sent can always arrive. -/
theorem Step.net_subset (h : Step s t) : s.net ⊆ t.net := by
  cases h with
  | transmit ha => exact Set.subset_insert _ _
  | acknowledge hn => exact Set.subset_insert _ _
  | acknowledgeUpTo => exact Set.subset_insert _ _
  | _ => exact subset_rfl

/-- **What has come stays.** -/
theorem Step.received (h : Step s t) (hn : s.Received n) : t.Received n := by
  cases h with
  | @store m a hnet hm =>
    rcases hn with hn | ⟨b, hb⟩
    · exact Or.inl hn
    · by_cases hnm : n = m
      · exact Or.inr ⟨a, hnm ▸ Function.update_self _ _ _⟩
      · exact Or.inr ⟨b, (Function.update_of_ne hnm _ _).trans hb⟩
  | @deliver a ha =>
    have hlen : (s.got ++ [a]).length = s.got.length + 1 := List.length_append
    rcases hn with hn | ⟨b, hb⟩
    · exact Or.inl (by show n < (s.got ++ [a]).length; omega)
    · by_cases hnm : n = s.got.length
      · exact Or.inl (by show n < (s.got ++ [a]).length; omega)
      · exact Or.inr ⟨b, (Function.update_of_ne hnm _ _).trans hb⟩
  | _ => exact hn

/-! ## What holds in every state -/

/-- **What the two sides know**: what was delivered was numbered, what came early and what
is on its way has the number that it was given, what is said to have come has, and what
was numbered is held until it has. -/
structure Inv (s : State α) : Prop where
  got : s.got <+: s.sent
  early : ∀ n a, s.early n = some a → s.got.length ≤ n ∧ s.sent[n]? = some a
  data : ∀ n a, .data n a ∈ s.net → s.sent[n]? = some a
  ack : ∀ n, .ack n ∈ s.net → s.Received n
  upTo : ∀ n, .upTo n ∈ s.net → n ≤ s.got.length
  kept : ∀ n < s.sent.length, n ∈ s.held ∨ s.Received n

theorem Inv.init : Inv (init : State α) where
  got := List.prefix_rfl
  early := fun _ _ h => nomatch h
  data := fun _ _ h => absurd h (Set.notMem_empty _)
  ack := fun _ h => absurd h (Set.notMem_empty _)
  upTo := fun _ h => absurd h (Set.notMem_empty _)
  kept := fun n h => absurd h (Nat.not_lt_zero n)

/-- An item keeps its number when others are numbered after it. -/
theorem getElem?_of_isPrefix {l l' : List α} (h : l <+: l') (ha : l[n]? = some a) :
    l'[n]? = some a := by
  obtain ⟨r, rfl⟩ := h
  rw [List.getElem?_append_left (List.getElem?_eq_some_iff.mp ha).1]
  exact ha

/-- **Every step keeps it.** -/
theorem Step.inv (h : Step s t) (hs : Inv s) : Inv t := by
  have hgrow := h.sent_isPrefix
  have hrec : ∀ n, s.Received n → t.Received n := fun _ => h.received
  cases h with
  | number a =>
    refine ⟨hs.got.trans hgrow, fun n b hb => ?_, fun n b hb => ?_, hs.ack, hs.upTo, fun n hn => ?_⟩
    · exact ⟨(hs.early n b hb).1, getElem?_of_isPrefix hgrow (hs.early n b hb).2⟩
    · exact getElem?_of_isPrefix hgrow (hs.data n b hb)
    · have hlen : (s.sent ++ [a]).length = s.sent.length + 1 := List.length_append
      rcases Nat.lt_or_eq_of_le (Nat.le_of_lt_succ (hlen ▸ hn)) with hn | rfl
      · exact (hs.kept n hn).imp (Set.mem_insert_of_mem _) id
      · exact Or.inl (Set.mem_insert _ _)
  | @transmit m b hb =>
    refine ⟨hs.got, hs.early, fun n c hc => ?_, fun n hn => ?_, fun n hn => ?_, hs.kept⟩
    · rcases Set.mem_insert_iff.mp hc with hc | hc
      · obtain ⟨rfl, rfl⟩ := Message.data.inj hc
        exact hb
      · exact hs.data n c hc
    · exact hs.ack n ((Set.mem_insert_iff.mp hn).resolve_left (nomatch ·))
    · exact hs.upTo n ((Set.mem_insert_iff.mp hn).resolve_left (nomatch ·))
  | @store m b hnet hm =>
    refine ⟨hs.got, fun n c hc => ?_, hs.data, fun n hn => hrec n (hs.ack n hn), hs.upTo,
      fun n hn => (hs.kept n hn).imp id (hrec n)⟩
    by_cases hnm : n = m
    · subst hnm
      have hself : Function.update s.early n (some b) n = some b := Function.update_self _ _ _
      obtain rfl := Option.some.inj (hself.symm.trans hc)
      exact ⟨hm, hs.data n b hnet⟩
    · exact hs.early n c ((Function.update_of_ne hnm _ _).symm.trans hc)
  | @deliver b hb =>
    have hnext := (hs.early _ b hb).2
    have hlen : (s.got ++ [b]).length = s.got.length + 1 := List.length_append
    refine ⟨?_, fun n c hc => ?_, hs.data, fun n hn => hrec n (hs.ack n hn), fun n hn => ?_,
      fun n hn => (hs.kept n hn).imp id (hrec n)⟩
    · obtain ⟨r, hr⟩ := hs.got
      rw [← hr, List.getElem?_append_right le_rfl, Nat.sub_self] at hnext
      cases r with
      | nil => cases hnext
      | cons c r =>
        obtain rfl := Option.some.inj hnext
        exact ⟨r, by rw [← hr, List.append_assoc, List.singleton_append]⟩
    · by_cases hnm : n = s.got.length
      · subst hnm
        have hself : Function.update s.early s.got.length none s.got.length = none :=
          Function.update_self _ _ _
        exact nomatch hself.symm.trans hc
      · obtain ⟨hle, hsent⟩ := hs.early n c ((Function.update_of_ne hnm _ _).symm.trans hc)
        exact ⟨by show (s.got ++ [b]).length ≤ n; omega, hsent⟩
    · exact (hs.upTo n hn).trans (by show s.got.length ≤ (s.got ++ [b]).length; omega)
  | @acknowledge m hm =>
    refine ⟨hs.got, hs.early, fun n c hc => ?_, fun n hn => ?_, fun n hn => ?_, hs.kept⟩
    · exact hs.data n c ((Set.mem_insert_iff.mp hc).resolve_left (nomatch ·))
    · rcases Set.mem_insert_iff.mp hn with hn | hn
      · obtain rfl := Message.ack.inj hn
        exact hm
      · exact hs.ack n hn
    · exact hs.upTo n ((Set.mem_insert_iff.mp hn).resolve_left (nomatch ·))
  | acknowledgeUpTo =>
    refine ⟨hs.got, hs.early, fun n c hc => ?_, fun n hn => ?_, fun n hn => ?_, hs.kept⟩
    · exact hs.data n c ((Set.mem_insert_iff.mp hc).resolve_left (nomatch ·))
    · exact hs.ack n ((Set.mem_insert_iff.mp hn).resolve_left (nomatch ·))
    · rcases Set.mem_insert_iff.mp hn with hn | hn
      · exact (Message.upTo.inj hn).le
      · exact hs.upTo n hn
  | @release m hnet =>
    refine ⟨hs.got, hs.early, hs.data, hs.ack, hs.upTo, fun n hn => ?_⟩
    by_cases hnm : n = m
    · exact Or.inr (hnm ▸ hs.ack m hnet)
    · exact (hs.kept n hn).imp (fun h => ⟨h, hnm⟩) id
  | @releaseUpTo m hnet =>
    refine ⟨hs.got, hs.early, hs.data, hs.ack, hs.upTo, fun n hn => ?_⟩
    by_cases hnm : n < m
    · exact Or.inr (Or.inl (hnm.trans_le (hs.upTo m hnet)))
    · exact (hs.kept n hn).imp (fun h => ⟨h, hnm⟩) id

/-! ## Many steps -/

namespace Steps

theorem refl : Steps s s := ReflTransGen.refl

theorem single (h : Step s t) : Steps s t := ReflTransGen.single h

theorem trans (h : Steps s t) (h' : Steps t u) : Steps s u := ReflTransGen.trans h h'

/-- A relation between states that every step is in, and that can be chained. -/
theorem lift {r : State α → State α → Prop} (hrefl : ∀ s, r s s)
    (htrans : ∀ s t u, r s t → r t u → r s u) (hstep : ∀ s t, Step s t → r s t)
    (h : Steps s t) : r s t := by
  induction h with
  | refl => exact hrefl s
  | tail _ hlast ih => exact htrans _ _ _ ih (hstep _ _ hlast)

theorem sent_isPrefix (h : Steps s t) : s.sent <+: t.sent :=
  h.lift (r := fun s t => s.sent <+: t.sent) (fun _ => List.prefix_rfl)
    (fun _ _ _ => List.IsPrefix.trans) (fun _ _ => Step.sent_isPrefix)

theorem got_isPrefix (h : Steps s t) : s.got <+: t.got :=
  h.lift (r := fun s t => s.got <+: t.got) (fun _ => List.prefix_rfl)
    (fun _ _ _ => List.IsPrefix.trans) (fun _ _ => Step.got_isPrefix)

theorem net_subset (h : Steps s t) : s.net ⊆ t.net :=
  h.lift (r := fun s t => s.net ⊆ t.net) (fun _ => subset_rfl)
    (fun _ _ _ h h' => Set.Subset.trans h h') (fun _ _ => Step.net_subset)

theorem received (h : Steps s t) (hn : s.Received n) : t.Received n :=
  h.lift (r := fun s t => s.Received n → t.Received n) (fun _ => id)
    (fun _ _ _ h h' => h' ∘ h) (fun _ _ => Step.received) hn

end Steps

/-- **Steps of the side that sends.** -/
structure Offers (s t : State α) : Prop where
  steps : Steps s t
  got : t.got = s.got
  early : t.early = s.early

/-- **Steps of the side that sends**, none of which gives a number. -/
structure Releases (s t : State α) : Prop extends Offers s t where
  sent : t.sent = s.sent

/-- **Steps of the side that takes.** -/
structure Takes (s t : State α) : Prop where
  steps : Steps s t
  sent : t.sent = s.sent
  held : t.held = s.held

namespace Offers

theorem refl : Offers s s := ⟨.refl, rfl, rfl⟩

theorem single (h : Step s t) (hgot : t.got = s.got) (hearly : t.early = s.early) : Offers s t :=
  ⟨.single h, hgot, hearly⟩

theorem trans (h : Offers s t) (h' : Offers t u) : Offers s u :=
  ⟨h.steps.trans h'.steps, h'.got.trans h.got, h'.early.trans h.early⟩

end Offers

namespace Releases

theorem refl : Releases s s := ⟨.refl, rfl⟩

theorem single (h : Step s t) (hgot : t.got = s.got) (hearly : t.early = s.early)
    (hsent : t.sent = s.sent) : Releases s t := ⟨.single h hgot hearly, hsent⟩

theorem trans (h : Releases s t) (h' : Releases t u) : Releases s u :=
  ⟨h.toOffers.trans h'.toOffers, h'.sent.trans h.sent⟩

end Releases

namespace Takes

theorem refl : Takes s s := ⟨.refl, rfl, rfl⟩

theorem single (h : Step s t) (hsent : t.sent = s.sent) (hheld : t.held = s.held) : Takes s t :=
  ⟨.single h, hsent, hheld⟩

theorem trans (h : Takes s t) (h' : Takes t u) : Takes s u :=
  ⟨h.steps.trans h'.steps, h'.sent.trans h.sent, h'.held.trans h.held⟩

end Takes

/-- All of some items can be sent that were numbered. -/
theorem exists_transmit (items : List (ℕ × α)) (h : ∀ item ∈ items, s.sent[item.1]? = some item.2) :
    ∃ t, Releases s t ∧ t = { s with net := t.net } ∧ ∀ item ∈ items, .data item.1 item.2 ∈ t.net := by
  induction items with
  | nil => exact ⟨s, .refl, rfl, fun _ hitem => absurd hitem List.not_mem_nil⟩
  | cons item items ih =>
    obtain ⟨t, hreleases, ht, hmem⟩ := ih (fun item' hitem' => h item' (List.mem_cons_of_mem _ hitem'))
    have hsent : t.sent[item.1]? = some item.2 := hreleases.sent ▸ h item List.mem_cons_self
    refine ⟨_, hreleases.trans (.single (.transmit hsent) rfl rfl rfl), ?_, fun item' hitem' => ?_⟩
    · rw [ht]
    · rcases List.mem_cons.mp hitem' with rfl | hitem'
      · exact Set.mem_insert _ _
      · exact Set.mem_insert_of_mem _ (hmem item' hitem')

/-- It can be told of all of some items that they have come. -/
theorem exists_acknowledge (ns : List ℕ) (h : ∀ n ∈ ns, s.Received n) :
    ∃ t, Takes s t ∧ t = { s with net := t.net } ∧ .upTo s.got.length ∈ t.net ∧ ∀ n ∈ ns, .ack n ∈ t.net := by
  induction ns with
  | nil => exact ⟨_, .single .acknowledgeUpTo rfl rfl, rfl, Set.mem_insert _ _,
      fun _ hn => absurd hn List.not_mem_nil⟩
  | cons n ns ih =>
    obtain ⟨t, htakes, ht, hup, hmem⟩ := ih (fun n' hn' => h n' (List.mem_cons_of_mem _ hn'))
    have hn : t.Received n := htakes.steps.received (h n List.mem_cons_self)
    refine ⟨_, htakes.trans (.single (.acknowledge hn) rfl rfl), ?_, Set.mem_insert_of_mem _ hup,
      fun n' hn' => ?_⟩
    · rw [ht]
    · rcases List.mem_cons.mp hn' with rfl | hn'
      · exact Set.mem_insert _ _
      · exact Set.mem_insert_of_mem _ (hmem n' hn')

namespace Reachable

theorem trans (h : Reachable s) (h' : Steps s t) : Reachable t := ReflTransGen.trans h h'

theorem inv (h : Reachable s) : Inv s :=
  (show Steps init s from h).lift (r := fun s t => Inv s → Inv t) (fun _ => id)
    (fun _ _ _ h h' => h' ∘ h) (fun _ _ => Step.inv) Inv.init

/-- **In order, once and unchanged**: what was delivered is a prefix of what was numbered. -/
theorem got_isPrefix (h : Reachable s) : s.got <+: s.sent := h.inv.got

/-- **Nothing is lost**: what was numbered and not delivered is held, or kept because it
came early. -/
theorem kept (h : Reachable s) (hn : s.got.length ≤ n) (ha : s.sent[n]? = some a) :
    n ∈ s.held ∨ s.early n = some a := by
  rcases h.inv.kept n (List.getElem?_eq_some_iff.mp ha).1 with hheld | hgot | ⟨b, hb⟩
  · exact Or.inl hheld
  · exact absurd hgot (Nat.not_lt.mpr hn)
  · obtain rfl := Option.some.inj (ha.symm.trans (h.inv.early n b hb).2)
    exact Or.inr hb

end Reachable

end SlidingWindow
