import Mathlib.Data.Fintype.Card
import Mathlib.Data.Set.Finite.Basic
import Mathlib.Logic.Relation

/-!
# Steps that come to an end

A relation `r` says which places a step can lead to. From a place it
**terminates** if no run of steps from there goes on for ever, which is
accessibility under the converse. Where only finitely many places can be
reached, this is that none of them is reached from itself
(`terminates_iff_acyclic`): a run that does not end comes back.
-/

open Relation

variable {α : Type} {r : α → α → Prop} {a b : α}

/-- **Every run of steps from a place ends.** -/
def Terminates (r : α → α → Prop) (a : α) : Prop := Acc (fun b a => r a b) a

namespace Terminates

theorem of_forall (h : ∀ b, r a b → Terminates r b) : Terminates r a := Acc.intro a h

theorem step (h : Terminates r a) (hab : r a b) : Terminates r b := h.inv hab

theorem of_reflTransGen (h : Terminates r a) (hab : ReflTransGen r a b) : Terminates r b := by
  induction hab with
  | refl => exact h
  | tail _ hbc ih => exact ih.step hbc

/-- A place that is reached from itself is reached for ever. -/
theorem not_transGen_self (h : Terminates r a) : ¬ TransGen r a a := by
  intro haa
  have hacc := Acc.transGen h
  induction hacc with
  | intro a _ ih => exact ih a haa.swap h haa

end Terminates

/-- **Where finitely many places are reached**, every run ends if and only if none of them
is reached from itself. -/
theorem terminates_iff_acyclic (hfin : {b | ReflTransGen r a b}.Finite) :
    Terminates r a ↔ ∀ b, ReflTransGen r a b → ¬ TransGen r b b := by
  constructor
  · exact fun h b hab => (h.of_reflTransGen hab).not_transGen_self
  · intro hacyclic
    have : Finite {b | ReflTransGen r a b} := hfin
    let later : {b | ReflTransGen r a b} → {b | ReflTransGen r a b} → Prop :=
      fun b c => TransGen r c b
    have : IsTrans _ later := ⟨fun _ _ _ hcb hdc => TransGen.trans hdc hcb⟩
    have : Std.Irrefl later := ⟨fun b => hacyclic b b.2⟩
    have hwf : WellFounded later := Finite.wellFounded_of_trans_of_irrefl later
    have hreached : ∀ b : {b | ReflTransGen r a b}, Terminates r b := by
      intro b
      induction b using hwf.induction with
      | _ b ih =>
        exact Terminates.of_forall (fun c hbc => ih ⟨c, b.2.tail hbc⟩ (TransGen.single hbc))
    exact hreached ⟨a, .refl⟩
