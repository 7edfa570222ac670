import LinuxLearn.Heap
import Mathlib.Algebra.Order.Group.Multiset

/-!
# What is in a memory

`h.Holds next m` says that the live objects of `h` are those of the multiset `m`, each at its
address, and that the next one will be at `next`. So `m + r` is a memory in two parts that
have no object in common, and what a program does to the part `m` it does whatever `r` is:
the rules below read, write, allocate and free one object and say nothing of the others.
-/

namespace Heap

variable {α : Type}

/-- **The live objects are exactly these**, no two at one address. -/
structure Holds (h : Heap α) (next : Ptr) (m : Multiset (Ptr × α)) : Prop where
  next_eq : h.next = next
  load_iff : ∀ p v, h.load p = some v ↔ (p, v) ∈ m
  nodup : (m.map Prod.fst).Nodup

namespace Holds

variable {h : Heap α} {next p q : Ptr} {v w : α} {m r : Multiset (Ptr × α)}

theorem empty : (Heap.empty : Heap α).Holds 1 0 where
  next_eq := rfl
  load_iff := fun _ _ => iff_of_false (fun h => nomatch h) (Multiset.notMem_zero _)
  nodup := Multiset.nodup_zero

/-- The objects in another order. -/
theorem of_eq (hm : h.Holds next m) (m' : Multiset (Ptr × α)) (heq : m = m') : h.Holds next m' := heq ▸ hm

/-- An object is there. -/
theorem load (hm : h.Holds next ({(p, v)} + m)) : h.load p = some v :=
  (hm.load_iff p v).mpr (Multiset.mem_add.mpr (Or.inl (Multiset.mem_singleton_self _)))

theorem mem (hm : h.Holds next m) (hv : (p, v) ∈ m) : h.load p = some v := (hm.load_iff p v).mpr hv

theorem ne_null (hm : h.Holds next m) (hv : (p, v) ∈ m) : p ≠ 0 := ne_null_of_load (hm.mem hv)

/-- The address of an object is no other one's. -/
theorem notMem (hm : h.Holds next ({(p, v)} + m)) : p ∉ m.map Prod.fst := by
  have hnd := hm.nodup
  rw [Multiset.map_add, Multiset.map_singleton, Multiset.singleton_add] at hnd
  exact (Multiset.nodup_cons.mp hnd).1

/-- Two objects are at two addresses. -/
theorem ne (hm : h.Holds next ({(p, v)} + m)) (hw : (q, w) ∈ m) : q ≠ p := by
  rintro rfl
  exact hm.notMem (Multiset.mem_map_of_mem Prod.fst hw)

/-- What else is there is what is at the other addresses. -/
theorem mem_iff (hm : h.Holds next ({(p, v)} + m)) (w : α) :
    (q, w) ∈ m ↔ q ≠ p ∧ h.load q = some w := by
  rw [hm.load_iff, Multiset.mem_add, Multiset.mem_singleton]
  constructor
  · exact fun hw => ⟨hm.ne hw, Or.inr hw⟩
  · rintro ⟨hne, heq | hw⟩
    · exact absurd (congrArg Prod.fst heq) hne
    · exact hw

/-- **A write.** -/
theorem update (hm : h.Holds next ({(p, v)} + m)) (f : α → α) :
    (h.update p f).Holds next ({(p, f v)} + m) where
  next_eq := hm.next_eq
  load_iff := fun q w => by
    rw [Multiset.mem_add, Multiset.mem_singleton, Prod.mk.injEq, hm.mem_iff]
    by_cases hq : q = p
    · subst hq
      rw [load_update_self f hm.load, Option.some.injEq]
      exact ⟨fun h => Or.inl ⟨rfl, h.symm⟩, fun h => h.elim (fun h => h.2.symm) (fun h => absurd rfl h.1)⟩
    · rw [load_update_of_ne h f hq]
      exact ⟨fun h => Or.inr ⟨hq, h⟩, fun h => h.elim (fun h => absurd h.1 hq) (fun h => h.2)⟩
  nodup := by
    have hnd := hm.nodup
    rw [Multiset.map_add, Multiset.map_singleton] at hnd ⊢
    exact hnd

theorem modify (hm : h.Holds next ({(p, v)} + m)) (f : α → α) :
    h.modify p f = some (h.update p f) := modify_of_load f hm.load

/-- **An allocation.** -/
theorem alloc (hm : h.Holds next m) (v : α) : (h.alloc v).Holds (next + 1) ({(next, v)} + m) where
  next_eq := by
    rw [next_alloc, hm.next_eq]
  load_iff := fun q w => by
    rw [load_alloc, hm.next_eq, Multiset.mem_add, Multiset.mem_singleton, Prod.mk.injEq, ← hm.load_iff]
    by_cases hq : q = next
    · rw [if_pos hq, Option.some.injEq]
      refine ⟨fun h => Or.inl ⟨hq, h.symm⟩, fun h' => h'.elim (fun h => h.2.symm) (fun hw => ?_)⟩
      exact absurd (hq.trans hm.next_eq.symm) (ne_next_of_load hw)
    · rw [if_neg hq]
      exact ⟨Or.inr, fun h => h.elim (fun h => absurd h.1 hq) id⟩
  nodup := by
    rw [Multiset.map_add, Multiset.map_singleton, Multiset.singleton_add, Multiset.nodup_cons]
    refine ⟨fun hmem => ?_, hm.nodup⟩
    obtain ⟨⟨q, w⟩, hw, hq⟩ := Multiset.mem_map.mp hmem
    exact ne_next_of_load (hm.mem hw) (hq.trans hm.next_eq.symm)

/-- **A `free`.** -/
theorem erase (hm : h.Holds next ({(p, v)} + m)) : (h.erase p).Holds next m where
  next_eq := hm.next_eq
  load_iff := fun q w => by
    rw [load_erase, hm.mem_iff]
    by_cases hq : q = p
    · rw [if_pos hq]
      exact iff_of_false (fun h => nomatch h) (fun h => h.1 hq)
    · rw [if_neg hq]
      exact ⟨fun h => ⟨hq, h⟩, fun h => h.2⟩
  nodup := by
    have hnd := hm.nodup
    rw [Multiset.map_add] at hnd
    exact (Multiset.nodup_add.mp hnd).2.1

theorem free (hm : h.Holds next ({(p, v)} + m)) : h.free p = some (h.erase p) := free_of_load hm.load

/-- **There are fewer objects than addresses handed out.** -/
theorem card_lt (hm : h.Holds next m) : Multiset.card m < next := by
  induction m using Quotient.inductionOn with
  | h l =>
    have hlen : (l.map Prod.fst).length < h.next := length_lt_next hm.nodup (fun p hp => by
      obtain ⟨⟨q, w⟩, hw, rfl⟩ := List.mem_map.mp hp
      rw [hm.mem hw]
      rfl)
    rw [List.length_map, hm.next_eq] at hlen
    exact hlen

end Holds

end Heap
