import LinuxLearn.Heap

/-!
# Null-terminated chains

A singly linked list is a field read – `next : Ptr → Option Ptr`, with no
result where there is no object to read – and the pointers one meets by
following it. `Chain next a xs` says that following `next` from the
object `a` meets exactly `xs` and then `NULL`. The owner `a` is outside
the list: it is the head node of a skip list, or the node before the part
of a list that a loop still has to visit.

Splicing is stated at the last node of a front part, which is what the
programs keep a pointer to: `Chain.insert` and `Chain.remove` change the
link of `xs.getLastD a` and nothing else. The two loops every list of the
repository is walked with are `advance`, which stops *before* the node it
looks for, and `seek`, which stops *at* it.
-/

/-- **A null-terminated chain**: following `next` from `a` meets `xs`, in
order, and then `NULL`. -/
def Chain (next : Ptr → Option Ptr) : Ptr → List Ptr → Prop
  | a, [] => next a = some 0
  | a, x :: xs => next a = some x ∧ x ≠ 0 ∧ Chain next x xs

/-- A chain read from its first pointer, as the head of a list is kept in a
variable or an array slot rather than in a node. -/
def Linked (next : Ptr → Option Ptr) : Ptr → List Ptr → Prop
  | p, [] => p = 0
  | p, x :: xs => p = x ∧ x ≠ 0 ∧ Chain next x xs

namespace Chain

variable {next next' : Ptr → Option Ptr} {a n : Ptr} {xs ys : List Ptr}

/-- The link of the owner is the first pointer of the chain. -/
theorem next_eq (h : Chain next a xs) : next a = some (xs.headD 0) := by
  cases xs with
  | nil => exact h
  | cons x xs => exact h.1

/-- The list an owner's link points to. -/
theorem linked (h : Chain next a xs) : Linked next (xs.headD 0) xs := by
  cases xs with
  | nil => rfl
  | cons x xs => exact ⟨rfl, h.2⟩

/-- A chain meets no null pointer. -/
theorem ne_null (h : Chain next a xs) {x : Ptr} (hx : x ∈ xs) : x ≠ 0 := by
  induction xs generalizing a with
  | nil => cases hx
  | cons y ys ih =>
    rcases List.mem_cons.mp hx with rfl | hx
    · exact h.2.1
    · exact ih h.2.2 hx

/-- What follows the front part of a chain is a chain from its last node. -/
theorem drop (h : Chain next a (xs ++ ys)) : Chain next (xs.getLastD a) ys := by
  induction xs generalizing a with
  | nil => exact h
  | cons x xs ih =>
    rw [List.getLastD_cons]
    exact ih h.2.2

/-- The last node of the front part links to the first of the rest. -/
theorem next_getLastD (h : Chain next a (xs ++ ys)) :
    next (xs.getLastD a) = some (ys.headD 0) :=
  h.drop.next_eq

/-- A chain only depends on the links of its own nodes. -/
theorem congr (h : Chain next a xs) (hn : ∀ p ∈ a :: xs, next' p = next p) :
    Chain next' a xs := by
  induction xs generalizing a with
  | nil => exact (hn a (List.mem_singleton_self a)).trans h
  | cons x xs ih =>
    refine ⟨(hn a List.mem_cons_self).trans h.1, h.2.1, ih h.2.2 ?_⟩
    exact fun p hp => hn p (List.mem_cons_of_mem a hp)

/-- The last node of a front part is the owner or one of its nodes. -/
theorem getLastD_mem_cons (a : Ptr) (xs : List Ptr) : xs.getLastD a ∈ a :: xs := by
  induction xs generalizing a with
  | nil => exact List.mem_singleton_self a
  | cons x xs ih =>
    rw [List.getLastD_cons]
    exact List.mem_cons_of_mem a (ih x)

/-- The last node of a list does not depend on what is before a node of it. -/
theorem getLastD_append_cons (a b : Ptr) (xs ys : List Ptr) :
    (xs ++ b :: ys).getLastD a = ys.getLastD b := by
  induction xs generalizing a with
  | nil => exact List.getLastD_cons ..
  | cons x xs ih =>
    rw [List.cons_append, List.getLastD_cons]
    exact ih x

/-- **Relinking the last node of a front part** replaces what follows it. -/
theorem relink {zs : List Ptr} (h : Chain next a (xs ++ ys))
    (hnd : (a :: xs).Nodup)
    (hlast : Chain next' (xs.getLastD a) zs)
    (hother : ∀ p ∈ a :: xs, p ≠ xs.getLastD a → next' p = next p) :
    Chain next' a (xs ++ zs) := by
  induction xs generalizing a with
  | nil => exact hlast
  | cons x xs ih =>
    rw [List.getLastD_cons] at hlast hother
    obtain ⟨hax, hnd'⟩ := List.nodup_cons.mp hnd
    have hne : a ≠ xs.getLastD x := fun heq =>
      hax (heq ▸ getLastD_mem_cons x xs)
    refine ⟨(hother a List.mem_cons_self hne).trans h.1, h.2.1, ih h.2.2 hnd' hlast ?_⟩
    exact fun p hp => hother p (List.mem_cons_of_mem a hp)

/-- **Inserting a node** after the last node of a front part. -/
theorem insert (h : Chain next a (xs ++ ys)) (hnd : (a :: (xs ++ ys)).Nodup)
    (hn0 : n ≠ 0) (hlast : next' (xs.getLastD a) = some n)
    (hn : next' n = some (ys.headD 0))
    (hother : ∀ p ∈ a :: (xs ++ ys), p ≠ xs.getLastD a → next' p = next p) :
    Chain next' a (xs ++ n :: ys) := by
  have hnd' : (a :: xs).Nodup ∧ ys.Nodup ∧ (a :: xs).Disjoint ys :=
    List.nodup_append'.mp hnd
  refine h.relink hnd'.1 ⟨hlast, hn0, ?_⟩
    (fun p hp => hother p (List.mem_append_left ys hp))
  cases ys with
  | nil => exact hn
  | cons y ys =>
    obtain ⟨-, hy0, htail⟩ := h.drop
    refine ⟨hn, hy0, htail.congr (fun p hp => ?_)⟩
    refine hother p (List.mem_append_right (a :: xs) hp) (fun heq => ?_)
    exact hnd'.2.2 (heq ▸ getLastD_mem_cons a xs) hp

/-- **Removing the node** after the last node of a front part. -/
theorem remove (h : Chain next a (xs ++ n :: ys)) (hnd : (a :: (xs ++ n :: ys)).Nodup)
    (hlast : next' (xs.getLastD a) = some (ys.headD 0))
    (hother : ∀ p ∈ a :: (xs ++ ys), p ≠ xs.getLastD a → next' p = next p) :
    Chain next' a (xs ++ ys) := by
  have hnd' : (a :: xs).Nodup ∧ (n :: ys).Nodup ∧ (a :: xs).Disjoint (n :: ys) :=
    List.nodup_append'.mp hnd
  refine h.relink hnd'.1 ?_ (fun p hp => hother p (List.mem_append_left ys hp))
  cases ys with
  | nil => exact hlast
  | cons y ys =>
    obtain ⟨-, -, -, hy0, htail⟩ := h.drop
    refine ⟨hlast, hy0, htail.congr (fun p hp => ?_)⟩
    refine hother p (List.mem_append_right (a :: xs) hp) (fun heq => ?_)
    exact hnd'.2.2 (heq ▸ getLastD_mem_cons a xs) (List.mem_cons_of_mem n hp)

end Chain

namespace Linked

variable {next next' : Ptr → Option Ptr} {a p : Ptr} {xs : List Ptr}

/-- An owner whose link is the first pointer of a list owns it. -/
theorem chain (h : Linked next p xs) (ha : next a = some p) : Chain next a xs := by
  cases xs with
  | nil =>
    rw [show p = 0 from h] at ha
    exact ha
  | cons x xs => exact ⟨h.1 ▸ ha, h.2⟩

/-- A list only depends on the links of its own nodes. -/
theorem congr (h : Linked next p xs) (hn : ∀ q ∈ xs, next' q = next q) : Linked next' p xs := by
  cases xs with
  | nil => exact h
  | cons x xs => exact ⟨h.1, h.2.1, h.2.2.congr hn⟩

end Linked

/-! ## Walking a chain -/

/-- **Stopping before a node**: the loop
`while (cur->next != NULL && test(cur->next)) cur = cur->next;`. -/
def advance (next : Ptr → Option Ptr) (test : Ptr → Option Bool) : ℕ → Ptr → Option Ptr
  | 0, _ => none
  | fuel + 1, cur => do
    let n ← next cur
    if n = 0 then
      return cur
    else if ← test n then
      advance next test fuel n
    else
      return cur

/-- **Stopping at a node**: the loop
`while (node != NULL && !test(node)) node = node->next;`. -/
def seek (next : Ptr → Option Ptr) (test : Ptr → Option Bool) : ℕ → Ptr → Option Ptr
  | 0, _ => none
  | fuel + 1, node => do
    if node = 0 then
      return node
    else if ← test node then
      return node
    else
      seek next test fuel (← next node)

section Walk

variable {next : Ptr → Option Ptr} {test : Ptr → Option Bool} {a : Ptr} {xs ys : List Ptr}

/-- **`advance` stops at the last node of the front part that passes the
test**, when the node after it fails it. -/
theorem advance_eq {fuel : ℕ} (h : Chain next a (xs ++ ys)) (hfuel : xs.length < fuel)
    (hxs : ∀ x ∈ xs, test x = some true)
    (hys : ∀ y ∈ ys.head?, test y = some false) :
    advance next test fuel a = some (xs.getLastD a) := by
  induction xs generalizing a fuel with
  | nil =>
    obtain ⟨fuel, rfl⟩ := Nat.exists_eq_add_of_lt hfuel
    cases ys with
    | nil => simp [advance, show next a = some 0 from h]
    | cons y ys =>
      obtain ⟨hy, hy0, -⟩ := h
      simp [advance, hy, hy0, hys y rfl]
  | cons x xs ih =>
    obtain ⟨hx, hx0, htail⟩ := h
    obtain ⟨fuel, rfl⟩ := Nat.exists_eq_add_of_lt hfuel
    have hstep : advance next test (xs.length + 1 + fuel) x = some (xs.getLastD x) :=
      ih htail (by omega) (fun y hy => hxs y (List.mem_cons_of_mem x hy))
    simp only [List.length_cons, advance, hx, hxs x List.mem_cons_self, hx0, hstep,
      List.getLastD_cons, Option.bind_eq_bind, Option.bind_some, if_false, if_true]

/-- The walk may start at any node of the front part. -/
theorem advance_eq_of_mem {fuel : ℕ} {cur : Ptr} (h : Chain next a (xs ++ ys))
    (hcur : cur ∈ a :: xs) (hfuel : xs.length < fuel) (hxs : ∀ x ∈ xs, test x = some true)
    (hys : ∀ y ∈ ys.head?, test y = some false) :
    advance next test fuel cur = some (xs.getLastD a) := by
  rcases List.mem_cons.mp hcur with rfl | hcur
  · exact advance_eq h hfuel hxs hys
  obtain ⟨ps, qs, rfl⟩ := List.append_of_mem hcur
  have hdrop : Chain next cur (qs ++ ys) := by
    have h' : Chain next a ((ps ++ [cur]) ++ (qs ++ ys)) := by simpa using h
    simpa using h'.drop
  rw [Chain.getLastD_append_cons]
  refine advance_eq hdrop ?_ (fun x hx => hxs x (by simp [hx])) hys
  simp only [List.length_append, List.length_cons] at hfuel
  omega

/-- **`seek` stops at the first node that passes the test**, or at `NULL`
when there is none. -/
theorem seek_eq {fuel : ℕ} {p : Ptr} (h : Linked next p (xs ++ ys))
    (hfuel : xs.length < fuel) (hxs : ∀ x ∈ xs, test x = some false)
    (hys : ∀ y ∈ ys.head?, test y = some true) :
    seek next test fuel p = some (ys.headD 0) := by
  induction xs generalizing p fuel with
  | nil =>
    obtain ⟨fuel, rfl⟩ := Nat.exists_eq_add_of_lt hfuel
    cases ys with
    | nil => simp [seek, show p = 0 from h]
    | cons y ys =>
      obtain ⟨rfl, hp0, -⟩ := h
      simp [seek, hp0, hys p rfl]
  | cons x xs ih =>
    obtain ⟨rfl, hp0, htail⟩ := h
    have hnext : next p = some ((xs ++ ys).headD 0) := htail.next_eq
    obtain ⟨fuel, rfl⟩ := Nat.exists_eq_add_of_lt hfuel
    have hstep : seek next test (xs.length + 1 + fuel) ((xs ++ ys).headD 0)
        = some (ys.headD 0) :=
      ih htail.linked (by omega) (fun y hy => hxs y (List.mem_cons_of_mem p hy))
    simp only [List.length_cons, seek, hxs p List.mem_cons_self, hp0, hnext, hstep,
      Option.bind_eq_bind, Option.bind_some, Bool.false_eq_true, if_false]

/-- Walking with less memory is within walking with more. -/
theorem seek_within {test' : Ptr → Option Bool} (h : ∀ p, Within (test' p) (test p)) :
    ∀ (fuel : ℕ) (p : Ptr), Within (seek next test' fuel p) (seek next test fuel p) := by
  intro fuel
  induction fuel with
  | zero => exact fun p => Within.refl _
  | succ fuel ih =>
    intro p
    refine .ite (.refl _) (.bind (h p) (fun b => .ite (.refl _) ?_))
    exact .bind (.refl _) ih

end Walk
