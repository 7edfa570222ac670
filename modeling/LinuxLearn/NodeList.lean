import Mathlib.Tactic

/-!
# Linked lists of objects

An intrusive list links objects that live at addresses of their own. Here
it is the list of its objects in order, each with its address: an object is
put in front, written to or taken out by its address, and searched for by
what it holds, the first that matches being found. Addresses are distinct
(`Distinct`), as they are where each new object gets an address above all
others (`Below`).
-/

/-- **A linked list** of objects, each with its address. -/
abbrev NodeList (α : Type) := List (ℕ × α)

namespace NodeList

variable {α : Type}

/-- The object at an address is written to. -/
def update (t : NodeList α) (p : ℕ) (f : α → α) : NodeList α :=
  t.map (fun x => if x.1 = p then (x.1, f x.2) else x)

/-- The object at an address is taken out. -/
def remove (t : NodeList α) (p : ℕ) : NodeList α := t.filter (fun x => x.1 ≠ p)

/-- The first object with a property. -/
def first (t : NodeList α) (P : α → Prop) [DecidablePred P] : Option (ℕ × α) :=
  t.find? (fun x => P x.2)

/-- **Addresses are distinct.** -/
def Distinct (t : NodeList α) : Prop := (t.map Prod.fst).Nodup

/-- **All addresses are below a bound.** -/
def Below (t : NodeList α) (n : ℕ) : Prop := ∀ x ∈ t, x.1 < n

variable {t : NodeList α} {p n : ℕ} {f : α → α} {x : ℕ × α}

theorem mem_update :
    x ∈ t.update p f ↔ (x.1 ≠ p ∧ x ∈ t) ∨ ∃ a, (p, a) ∈ t ∧ x = (p, f a) := by
  unfold update
  rw [List.mem_map]
  constructor
  · rintro ⟨y, hy, rfl⟩
    by_cases hp : y.1 = p
    · subst hp
      exact Or.inr ⟨y.2, hy, if_pos rfl⟩
    · rw [if_neg hp]
      exact Or.inl ⟨hp, hy⟩
  · rintro (⟨hp, hx⟩ | ⟨a, ha, rfl⟩)
    · exact ⟨x, hx, if_neg hp⟩
    · exact ⟨(p, a), ha, if_pos rfl⟩

theorem mem_remove : x ∈ t.remove p ↔ x ∈ t ∧ x.1 ≠ p := by
  unfold remove
  rw [List.mem_filter, decide_eq_true_iff]

theorem map_fst_update : (t.update p f).map Prod.fst = t.map Prod.fst := by
  unfold update
  rw [List.map_map]
  refine List.map_congr_left (fun x _ => ?_)
  show (if x.1 = p then (x.1, f x.2) else x).1 = x.1
  split <;> rfl

theorem Distinct.update (h : t.Distinct) : (t.update p f).Distinct := by
  unfold Distinct
  rw [map_fst_update]
  exact h

theorem Distinct.remove (h : t.Distinct) : (t.remove p).Distinct :=
  h.sublist (List.filter_sublist.map _)

theorem Distinct.cons (h : t.Distinct) (hbelow : t.Below n) (a : α) :
    Distinct ((n, a) :: t) := by
  refine List.nodup_cons.mpr ⟨fun hmem => ?_, h⟩
  obtain ⟨x, hx, hn⟩ := List.mem_map.mp hmem
  exact (hbelow x hx).ne hn

/-- Objects at one address are one object. -/
theorem Distinct.eq (h : t.Distinct) {a b : α} (ha : (p, a) ∈ t) (hb : (p, b) ∈ t) : a = b :=
  (Prod.mk.inj (List.inj_on_of_nodup_map h ha hb rfl)).2

theorem Below.update (h : t.Below n) : (t.update p f).Below n := by
  intro x hx
  rcases mem_update.mp hx with ⟨-, hx⟩ | ⟨a, ha, rfl⟩
  · exact h x hx
  · exact h (p, a) ha

theorem Below.remove (h : t.Below n) : (t.remove p).Below n :=
  fun x hx => h x (mem_remove.mp hx).1

theorem Below.cons (h : t.Below n) (a : α) : Below ((n, a) :: t) (n + 1) :=
  List.forall_mem_cons.mpr ⟨n.lt_succ_self, fun x hx => (h x hx).trans n.lt_succ_self⟩

theorem Below.mono (h : t.Below n) {m : ℕ} (hle : n ≤ m) : t.Below m :=
  fun x hx => (h x hx).trans_le hle

section First

variable {P : α → Prop} [DecidablePred P]

theorem mem_of_first (h : t.first P = some x) : x ∈ t := List.mem_of_find?_eq_some h

theorem holds_of_first (h : t.first P = some x) : P x.2 := by
  simpa using List.find?_some h

theorem first_eq_none : t.first P = none ↔ ∀ x ∈ t, ¬ P x.2 := by
  unfold first
  rw [List.find?_eq_none]
  simp

theorem first_cons_of_pos {a : α} (h : P a) : first ((n, a) :: t) P = some (n, a) :=
  List.find?_cons_of_pos (decide_eq_true h)

theorem first_cons_of_neg {a : α} (h : ¬ P a) : first ((n, a) :: t) P = t.first P :=
  List.find?_cons_of_neg (by simpa using h)

/-- The first object with a property after one was written to that keeps it. -/
theorem first_update (hf : ∀ a, (p, a) ∈ t → (P (f a) ↔ P a)) :
    (t.update p f).first P = (t.first P).map (fun x => if x.1 = p then (x.1, f x.2) else x) := by
  unfold first update
  rw [List.find?_map]
  refine congrArg _ (List.find?_congr (fun x hx => ?_))
  show decide (P (if x.1 = p then (x.1, f x.2) else x).2) = decide (P x.2)
  by_cases hp : x.1 = p
  · subst hp
    rw [if_pos rfl]
    exact decide_eq_decide.mpr (hf x.2 hx)
  · rw [if_neg hp]

/-- It stays where another object is taken out. -/
theorem first_remove (h : t.first P = some x) (hp : x.1 ≠ p) : (t.remove p).first P = some x := by
  unfold first at h ⊢
  unfold remove
  rw [List.find?_filter]
  induction t with
  | nil => cases h
  | cons y t ih =>
    rw [List.find?_cons] at h ⊢
    by_cases hy : P y.2
    · simp only [hy, decide_true] at h ⊢
      obtain rfl := Option.some.inj h
      simp [hp]
    · simp only [hy, decide_false, Bool.false_eq_true, and_false] at h ⊢
      exact ih h

end First

/-- **Counting after one object was written to.** -/
theorem countP_update_add (h : t.Distinct) {a : α} (ha : (p, a) ∈ t) (P : α → Prop)
    [DecidablePred P] :
    (t.update p f).countP (fun x => P x.2) + (if P a then 1 else 0)
      = t.countP (fun x => P x.2) + (if P (f a) then 1 else 0) := by
  induction t with
  | nil => exact absurd ha List.not_mem_nil
  | cons y t ih =>
    obtain ⟨hy, ht⟩ := List.nodup_cons.mp h
    by_cases hp : y.1 = p
    · have hya : y = (p, a) := by
        rcases List.mem_cons.mp ha with he | hmem
        · exact he.symm
        · exact absurd (List.mem_map.mpr ⟨_, hmem, hp.symm⟩) hy
      subst hya
      have hrest : update t p f = t := by
        refine (List.map_congr_left (fun z hz => ?_)).trans (List.map_id t)
        refine if_neg (fun hz' => hy (List.mem_map.mpr ⟨z, hz, hz'⟩))
      have hupdate : update ((p, a) :: t) p f = (p, f a) :: t := by
        unfold update at hrest ⊢
        rw [List.map_cons, hrest, if_pos rfl]
      rw [hupdate, List.countP_cons, List.countP_cons]
      simp only [decide_eq_true_eq]
      omega
    · have hmem : (p, a) ∈ t := by
        rcases List.mem_cons.mp ha with he | hmem
        · exact absurd (congrArg Prod.fst he.symm) hp
        · exact hmem
      have hupdate : update (y :: t) p f = y :: update t p f := by
        unfold update
        rw [List.map_cons, if_neg hp]
      have hcount := ih ht hmem
      rw [hupdate, List.countP_cons, List.countP_cons]
      omega

end NodeList
