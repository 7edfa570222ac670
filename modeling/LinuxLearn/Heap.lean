import Mathlib.Tactic

/-!
# Heaps of C objects

The programs of this repository keep their data in structs obtained from
`malloc` and linked by raw pointers. A `Heap α` is the memory holding the
live objects of one struct type `α`: a pointer is an address, `0` is
`NULL`, and reading, writing or freeing through a pointer to no live
object has no result – it is the undefined behaviour of C, and every
program that runs through it runs to `none`. A program shown to return
`some` result has therefore made no access through a null, dangling or
wild pointer.

Addresses are handed out in increasing order and never reused. This is
the allocator's most revealing choice: a pointer kept past its object's
`free` stays dangling forever instead of silently naming a later object.
The number of addresses handed out also bounds every walk along distinct
live objects (`Heap.length_lt_next`), which is where the loops of the
models take their fuel from.
-/

/-- A C pointer, as an address; `0` is `NULL`. -/
abbrev Ptr := ℕ

/-- **A heap of objects of type `α`**: the live objects by address, and the
first address not handed out yet. -/
structure Heap (α : Type) where
  /-- The live object at an address. -/
  cells : ℕ → Option α
  /-- The next address `malloc` returns. -/
  next : ℕ
  /-- `malloc` does not return `NULL` for an address. -/
  next_pos : 0 < next
  /-- No object lives at `NULL`. -/
  cells_null : cells 0 = none
  /-- No object lives at an address not handed out yet. -/
  cells_fresh : ∀ p, next ≤ p → cells p = none

namespace Heap

variable {α : Type}

/-- The heap before the first allocation. -/
def empty : Heap α where
  cells := fun _ => none
  next := 1
  next_pos := Nat.one_pos
  cells_null := rfl
  cells_fresh := fun _ _ => rfl

/-- Reading the object a pointer points to. -/
def load (h : Heap α) (p : ℕ) : Option α := h.cells p

/-- A successful allocation of an object, at the next address. -/
def alloc (h : Heap α) (v : α) : Heap α where
  cells := fun q => if q = h.next then some v else h.cells q
  next := h.next + 1
  next_pos := Nat.succ_pos _
  cells_null := by
    have h0 := h.next_pos
    rw [if_neg (by omega)]
    exact h.cells_null
  cells_fresh := fun p hp => by
    rw [if_neg (by omega)]
    exact h.cells_fresh p (by omega)

/-- **`malloc`**, for an object that is initialised right away: `ok` says
whether the allocation succeeds, and a failed one returns `NULL`. -/
def malloc (h : Heap α) (ok : Bool) (v : α) : Ptr × Heap α :=
  if ok then (h.next, h.alloc v) else (0, h)

/-- Changing the object at an address, if there is one. -/
def update (h : Heap α) (p : ℕ) (f : α → α) : Heap α where
  cells := fun q => if q = p then (h.cells q).map f else h.cells q
  next := h.next
  next_pos := h.next_pos
  cells_null := by simp [h.cells_null]
  cells_fresh := fun q hq => by simp [h.cells_fresh q hq]

/-- **A store through a pointer**: undefined unless an object lives there. -/
def modify (h : Heap α) (p : ℕ) (f : α → α) : Option (Heap α) :=
  if (h.load p).isSome then some (h.update p f) else none

/-- The heap without the object at an address. -/
def erase (h : Heap α) (p : ℕ) : Heap α where
  cells := fun q => if q = p then none else h.cells q
  next := h.next
  next_pos := h.next_pos
  cells_null := by simp [h.cells_null]
  cells_fresh := fun q hq => by simp [h.cells_fresh q hq]

/-- **`free`**: nothing happens for `NULL`, and freeing anything but a live
object is undefined. -/
def free (h : Heap α) (p : ℕ) : Option (Heap α) :=
  if p = 0 then some h
  else if (h.load p).isSome then some (h.erase p) else none

/-- The addresses below a bound are handed out for objects of other types. -/
def reserve (h : Heap α) (n : ℕ) : Heap α where
  cells := h.cells
  next := max h.next n
  next_pos := lt_max_of_lt_left h.next_pos
  cells_null := h.cells_null
  cells_fresh := fun p hp => h.cells_fresh p ((le_max_left _ _).trans hp)

@[simp] theorem load_null (h : Heap α) : h.load 0 = none := h.cells_null

@[simp] theorem load_alloc (h : Heap α) (v : α) (q : ℕ) :
    (h.alloc v).load q = if q = h.next then some v else h.load q := rfl

@[simp] theorem load_update (h : Heap α) (p : ℕ) (f : α → α) (q : ℕ) :
    (h.update p f).load q = if q = p then (h.load q).map f else h.load q := rfl

theorem load_update_of_ne (h : Heap α) {p q : ℕ} (f : α → α) (hne : q ≠ p) :
    (h.update p f).load q = h.load q :=
  (h.load_update p f q).trans (if_neg hne)

theorem load_update_self {h : Heap α} {p : ℕ} {v : α} (f : α → α) (hp : h.load p = some v) :
    (h.update p f).load p = some (f v) := by
  rw [load_update, if_pos rfl, hp]
  rfl

@[simp] theorem load_erase (h : Heap α) (p q : ℕ) :
    (h.erase p).load q = if q = p then none else h.load q := rfl

@[simp] theorem load_reserve (h : Heap α) (n q : ℕ) : (h.reserve n).load q = h.load q := rfl

@[simp] theorem next_reserve (h : Heap α) (n : ℕ) : (h.reserve n).next = max h.next n := rfl

@[simp] theorem next_alloc (h : Heap α) (v : α) : (h.alloc v).next = h.next + 1 := rfl

@[simp] theorem next_update (h : Heap α) (p : ℕ) (f : α → α) :
    (h.update p f).next = h.next := rfl

@[simp] theorem next_erase (h : Heap α) (p : ℕ) : (h.erase p).next = h.next := rfl

@[simp] theorem malloc_true (h : Heap α) (v : α) : h.malloc true v = (h.next, h.alloc v) := rfl

/-- A live object sits below the next address. -/
theorem lt_next_of_load {h : Heap α} {p : ℕ} {v : α} (hp : h.load p = some v) :
    p < h.next := by
  by_contra hlt
  rw [load, h.cells_fresh p (by omega)] at hp
  cases hp

/-- A pointer to a live object is not `NULL`. -/
theorem ne_null_of_load {h : Heap α} {p : ℕ} {v : α} (hp : h.load p = some v) :
    p ≠ 0 := by
  rintro rfl
  rw [load_null] at hp
  cases hp

/-- A pointer to a live object is not the address `malloc` returns next. -/
theorem ne_next_of_load {h : Heap α} {p : ℕ} {v : α} (hp : h.load p = some v) :
    p ≠ h.next :=
  (lt_next_of_load hp).ne

theorem next_ne_null (h : Heap α) : h.next ≠ 0 := h.next_pos.ne'

/-- An allocation keeps what was live. -/
theorem load_alloc_of_load {h : Heap α} {p : ℕ} {v : α} (w : α)
    (hp : h.load p = some v) : (h.alloc w).load p = some v := by
  rw [load_alloc, if_neg (ne_next_of_load hp), hp]

/-- A store through a pointer to a live object goes through. -/
theorem modify_of_load {h : Heap α} {p : ℕ} {v : α} (f : α → α)
    (hp : h.load p = some v) : h.modify p f = some (h.update p f) := by
  simp [modify, hp]

/-- Freeing a live object goes through. -/
theorem free_of_load {h : Heap α} {p : ℕ} {v : α} (hp : h.load p = some v) :
    h.free p = some (h.erase p) := by
  simp [free, hp, ne_null_of_load hp]

/-- **Distinct live objects are fewer than the addresses handed out.** -/
theorem length_lt_next {h : Heap α} {ps : List ℕ} (hnd : ps.Nodup)
    (hlive : ∀ p ∈ ps, (h.load p).isSome) : ps.length < h.next := by
  have hsub : ps.toFinset ⊆ Finset.Ico 1 h.next := by
    intro p hp
    obtain ⟨v, hv⟩ := Option.isSome_iff_exists.mp (hlive p (List.mem_toFinset.mp hp))
    have h0 := ne_null_of_load hv
    exact Finset.mem_Ico.mpr ⟨by omega, lt_next_of_load hv⟩
  have hcard := Finset.card_le_card hsub
  rw [List.toFinset_card_of_nodup hnd, Nat.card_Ico] at hcard
  have h0 := h.next_pos
  omega

/-! ## Memories with the same objects -/

/-- **The same objects are live**, wherever the next one will be. -/
def Agrees (h h' : Heap α) : Prop := ∀ p, h.load p = h'.load p

namespace Agrees

variable {h : Heap α}

theorem refl (h : Heap α) : h.Agrees h := fun _ => rfl

/-- An object that is allocated and freed again leaves nothing behind. -/
theorem alloc_erase (h : Heap α) (v : α) : ((h.alloc v).erase h.next).Agrees h := by
  intro p
  rw [load_erase, load_alloc]
  split
  · rename_i hp
    exact (h.cells_fresh p hp.ge).symm
  · rfl

/-- What is written to an object before it is freed does not matter. -/
theorem update_erase {h h' : Heap α} {p : ℕ} (hh : (h.erase p).Agrees h') (f : α → α) :
    ((h.update p f).erase p).Agrees h' := by
  intro q
  rw [← hh q, load_erase, load_erase]
  split
  · rfl
  · rename_i hq
    exact h.load_update_of_ne f hq

end Agrees

/-- The object just allocated can be written to. -/
theorem modify_alloc_next (h : Heap α) (v : α) (f : α → α) :
    (h.alloc v).modify h.next f = some ((h.alloc v).update h.next f) :=
  modify_of_load f (v := v) (by simp)

/-! ## Objects that are listed -/

/-- **The listed objects are live**, and no two are at one address. -/
structure Has (h : Heap α) (L : List (Ptr × α)) : Prop where
  load : ∀ x ∈ L, h.load x.1 = some x.2
  nodup : (L.map Prod.fst).Nodup

namespace Has

variable {h h' : Heap α} {L L' : List (Ptr × α)} {p : Ptr} {v : α}

theorem nil (h : Heap α) : h.Has [] :=
  ⟨fun _ hx => absurd hx List.not_mem_nil, List.nodup_nil⟩

theorem perm (hL : h.Has L) (hp : L.Perm L') : h.Has L' :=
  ⟨fun x hx => hL.load x (hp.mem_iff.mpr hx), (hp.map Prod.fst).nodup_iff.mp hL.nodup⟩

theorem of_agrees (hL : h.Has L) (hh : h'.Agrees h) : h'.Has L :=
  ⟨fun x hx => (hh x.1).trans (hL.load x hx), hL.nodup⟩

/-- An object that was just allocated is one more. -/
theorem alloc (hL : h.Has L) (v : α) : (h.alloc v).Has ((h.next, v) :: L) where
  load := fun x hx => by
    rcases List.mem_cons.mp hx with rfl | hx
    · rw [load_alloc, if_pos rfl]
    · exact load_alloc_of_load v (hL.load x hx)
  nodup := by
    refine List.nodup_cons.mpr ⟨fun hm => ?_, hL.nodup⟩
    obtain ⟨x, hx, he⟩ := List.mem_map.mp hm
    exact ne_next_of_load (hL.load x hx) he

/-- **A listed object can be freed**, and the others stay. -/
theorem free (hL : h.Has ((p, v) :: L)) : h.free p = some (h.erase p) ∧ (h.erase p).Has L := by
  obtain ⟨hp, hnd⟩ := List.nodup_cons.mp hL.nodup
  refine ⟨free_of_load (hL.load (p, v) List.mem_cons_self), fun x hx => ?_, hnd⟩
  have hne : x.1 ≠ p := fun he => hp (List.mem_map.mpr ⟨x, hx, he⟩)
  rw [load_erase, if_neg hne]
  exact hL.load x (List.mem_cons_of_mem _ hx)

end Has

/-! ## What every object satisfies -/

/-- **Every live object satisfies `P`.** -/
def All (P : α → Prop) (h : Heap α) : Prop := ∀ p v, h.load p = some v → P v

namespace All

variable {P : α → Prop} {h : Heap α}

theorem empty : (Heap.empty : Heap α).All P := fun _ _ hp => nomatch hp

theorem alloc (hall : h.All P) {v : α} (hv : P v) : (h.alloc v).All P := by
  intro p w hp
  rw [load_alloc] at hp
  by_cases he : p = h.next
  · rw [if_pos he] at hp
    exact Option.some.inj hp ▸ hv
  · rw [if_neg he] at hp
    exact hall p w hp

theorem malloc (hall : h.All P) (ok : Bool) {v : α} (hv : P v) : (h.malloc ok v).2.All P := by
  cases ok with
  | false => exact hall
  | true => exact hall.alloc hv

theorem erase (hall : h.All P) (q : ℕ) : (h.erase q).All P := by
  intro p w hp
  rw [load_erase] at hp
  by_cases he : p = q
  · rw [if_pos he] at hp
    cases hp
  · rw [if_neg he] at hp
    exact hall p w hp

end All

end Heap

/-! ## Programs -/

/-- **Running a program one step**: a step that returns is followed by what
comes after it. -/
theorem bind_of_eq {α β : Type} {o : Option α} {a : α} {f : α → Option β} {r : Option β}
    (h : o = some a) (hf : f a = r) : (o >>= f) = r := by
  rw [h]
  exact hf

/-- **A postcondition**: if a program returns, what it returns satisfies `Q`. -/
def Post {α : Type} (o : Option α) (Q : α → Prop) : Prop := ∀ a, o = some a → Q a

namespace Post

variable {α β : Type} {o o' : Option α} {a : α} {f : α → Option β} {Q R : α → Prop} {S : β → Prop}

theorem pure (h : Q a) : Post (some a) Q := fun _ he => Option.some.inj he ▸ h

/-- A step, and then what follows from its postcondition. -/
theorem bind (ho : Post o R) (hf : ∀ a, R a → Post (f a) S) : Post (o >>= f) S := by
  intro b hb
  obtain ⟨a, ha, hb⟩ := Option.bind_eq_some_iff.mp hb
  exact hf a (ho a ha) b hb

/-- A step of which nothing is used. -/
theorem after (hf : ∀ a, Post (f a) S) : Post (o >>= f) S :=
  bind (R := fun _ => True) (fun _ _ => trivial) (fun a _ => hf a)

theorem ite {c : Prop} [Decidable c] (ht : Post o Q) (he : Post o' Q) :
    Post (if c then o else o') Q := by
  split
  · exact ht
  · exact he

theorem map {g : α → β} (ho : Post o (fun a => S (g a))) : Post (o.map g) S := by
  intro b hb
  obtain ⟨a, ha, rfl⟩ := Option.map_eq_some_iff.mp hb
  exact ho a ha

theorem mono (ho : Post o R) (h : ∀ a, R a → Q a) : Post o Q := fun a ha => h a (ho a ha)

end Post

/-- What is left after a `free` is what was there. -/
theorem Heap.All.free {α : Type} {P : α → Prop} {h : Heap α} (hall : h.All P) (p : ℕ) :
    Post (h.free p) (Heap.All P) :=
  .ite (.pure hall) (.ite (.pure (hall.erase p)) (fun _ he => nomatch he))

/-! ## Programs in less memory -/

/-- **A program within another**: what the one returns, the other returns too.
With fewer live objects a program still does the same, or does not return. -/
def Within {α : Type} (o o' : Option α) : Prop := Post o (fun a => o' = some a)

namespace Within

variable {α β : Type} {o o' p p' : Option α} {f f' : α → Option β}

theorem refl (o : Option α) : Within o o := fun _ h => h

/-- A step within a step, and what follows within what follows. -/
theorem bind (ho : Within o o') (hf : ∀ a, Within (f a) (f' a)) :
    Within (o >>= f) (o' >>= f') :=
  Post.bind ho (fun a ha b hb => bind_of_eq ha (hf a b hb))

theorem ite {c : Prop} [Decidable c] (ho : Within o o') (hp : Within p p') :
    Within (if c then o else p) (if c then o' else p') := by
  split
  · exact ho
  · exact hp

theorem map (ho : Within o o') (g : α → β) : Within (o.map g) (o'.map g) :=
  Post.map (ho.mono (fun a ha => by rw [ha]; rfl))

end Within

/-- Reading is within reading before a `free`. -/
theorem Heap.load_erase_within {α : Type} (h : Heap α) (p q : ℕ) :
    Within ((h.erase p).load q) (h.load q) := by
  intro v hv
  rw [Heap.load_erase] at hv
  split at hv
  · cases hv
  · exact hv

/-! ## Loops -/

/-- **A loop that ends.** `body` goes round once: it returns nothing where the
behaviour is undefined, and no next state where the condition of the loop
fails. `Ends body P n s t` says that from `s` the loop goes round `n` times
and stops at `t`, and that `P` holds each time it goes round. -/
inductive Ends {σ : Type} (body : σ → Option (Option σ)) (P : σ → Prop) : ℕ → σ → σ → Prop
  | stop {s : σ} : body s = some none → Ends body P 0 s s
  | round {n : ℕ} {s s' t : σ} : P s → body s = some (some s') → Ends body P n s' t →
      Ends body P (n + 1) s t

/-- A loop whose body does not stop at once goes round. -/
theorem Ends.exists_succ {σ : Type} {body : σ → Option (Option σ)} {P : σ → Prop} {n : ℕ} {s t : σ}
    (h : Ends body P n s t) (hround : (body s).map Option.isSome = some true) :
    ∃ m, n = m + 1 := by
  cases h with
  | stop hstop =>
    rw [hstop] at hround
    cases hround
  | round => exact ⟨_, rfl⟩

/-- **A loop on fuel**, as the programs of the models run it. -/
def loopOn {σ : Type} (body : σ → Option (Option σ)) : ℕ → σ → Option σ
  | 0, _ => none
  | fuel + 1, s => do
    match ← body s with
    | some s' => loopOn body fuel s'
    | none => return s

/-- **A loop that ends does so on enough fuel**, and on any more. -/
theorem Ends.loopOn_eq {σ : Type} {body : σ → Option (Option σ)} {P : σ → Prop} {n fuel : ℕ}
    {s t : σ} (h : Ends body P n s t) (hfuel : n < fuel) : loopOn body fuel s = some t := by
  induction h generalizing fuel with
  | stop hstop =>
    obtain ⟨fuel, rfl⟩ := Nat.exists_eq_add_of_lt hfuel
    rw [loopOn, hstop]
    rfl
  | round _ hround _ ih =>
    obtain ⟨fuel, rfl⟩ := Nat.exists_eq_add_of_lt hfuel
    rw [loopOn, hround]
    exact ih (by omega)
