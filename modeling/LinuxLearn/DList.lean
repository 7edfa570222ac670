import LinuxLearn.Chain
import LinuxLearn.NodeList

/-!
# Doubly linked lists

An intrusive doubly linked list is a pointer to its first object; each of
its objects links to the one before it and to the one after it. The three
operations here are the macros such lists are edited with: an object is
put in front, or at the end, or taken out through its own two links.

What the list holds is a `NodeList`, and `DList.Repr h head t` says that
`head` is the list `t` in the heap `h`. It is made of segments:
`Seg h q t r` are objects linked both ways, the first of them back to `q`
and the last of them on to `r`. A segment splits anywhere (`seg_append`),
and a link between two of them is written without a look at the rest
(`Seg.setNext`, `Seg.setPrev`).
-/

namespace DList

/-- **An object of a list**: what it holds, and its two links. -/
structure Node (α : Type) where
  val : α
  prev : Ptr
  next : Ptr

variable {α : Type}

/-! ## Operations -/

/-- `p->prev = q`. -/
def setPrev (h : Heap (Node α)) (p q : Ptr) : Option (Heap (Node α)) :=
  h.modify p (fun node => { node with prev := q })

/-- `p->next = q`. -/
def setNext (h : Heap (Node α)) (p q : Ptr) : Option (Heap (Node α)) :=
  h.modify p (fun node => { node with next := q })

/-- `p->next`. -/
def next (h : Heap (Node α)) (p : Ptr) : Option Ptr := (h.load p).map Node.next

/-- `p->prev`. -/
def prev (h : Heap (Node α)) (p : Ptr) : Option Ptr := (h.load p).map Node.prev

/-- **Putting an object in front** of a list: the list after it, and the heap. -/
def insertHead (h : Heap (Node α)) (item list : Ptr) : Option (Ptr × Heap (Node α)) := do
  let h ← setPrev h item 0
  let h ← setNext h item list
  let h ← (if list ≠ 0 then setPrev h list item else some h)
  return (item, h)

/-- **Putting an object at the end** of a list, which is walked through. -/
def insertTail (h : Heap (Node α)) (item list : Ptr) : Option (Ptr × Heap (Node α)) := do
  let h ← setNext h item 0
  let h ← setPrev h item 0
  if list = 0 then
    return (item, h)
  else
    let tail ← advance (next h) (fun _ => some true) h.next list
    let h ← setNext h tail item
    let h ← setPrev h item tail
    return (list, h)

/-- **Taking an object out** of a list. -/
def remove (h : Heap (Node α)) (item list : Ptr) : Option (Ptr × Heap (Node α)) := do
  let node ← h.load item
  let h ← (if node.prev ≠ 0 then setNext h node.prev node.next else some h)
  let node ← h.load item
  let h ← (if node.next ≠ 0 then setPrev h node.next node.prev else some h)
  let node ← h.load item
  let list := if list = item then node.next else list
  let h ← setNext h item 0
  let h ← setPrev h item 0
  return (list, h)

/-- What an object holds is written. -/
def write (h : Heap (Node α)) (p : Ptr) (v : α) : Option (Heap (Node α)) :=
  h.modify p (fun node => { node with val := v })

/-- Objects are written to, one after another. -/
def writeAll (h : Heap (Node α)) (t : NodeList α) : Option (Heap (Node α)) :=
  t.foldlM (fun h x => write h x.1 x.2) h

/-- **Searching a list**, from its first object on; `NULL` where the test fails for
all. -/
def find (h : Heap (Node α)) (list : Ptr) (test : α → Bool) : Option Ptr :=
  seek (next h) (fun iter => (h.load iter).map (fun node => test node.val)) h.next list

/-- What the objects hold from a pointer on. -/
def valuesFrom (h : Heap (Node α)) : ℕ → Ptr → Option (List α)
  | 0, _ => none
  | fuel + 1, p =>
    if p = 0 then some []
    else do
      let node ← h.load p
      let rest ← valuesFrom h fuel node.next
      return node.val :: rest

/-- **Walking through a list**, from its first object to `NULL`. -/
def values (h : Heap (Node α)) (list : Ptr) : Option (List α) := valuesFrom h h.next list

/-! ## What a list holds -/

/-- The first address of a list, or the one that follows it. -/
def headD (t : NodeList α) (r : Ptr) : Ptr := (t.map Prod.fst).headD r

/-- The last address of a list, or the one before it. -/
def lastD (t : NodeList α) (q : Ptr) : Ptr := (t.map Prod.fst).getLastD q

/-- **A segment** between `q` and `r`: every object links back to the one before
it, and on to the one after it. -/
def Seg (h : Heap (Node α)) : Ptr → NodeList α → Ptr → Prop
  | _, [], _ => True
  | q, x :: t, r => h.load x.1 = some ⟨x.2, q, headD t r⟩ ∧ Seg h x.1 t r

/-- **A well-formed doubly linked list**, and what it holds. -/
structure Repr (h : Heap (Node α)) (head : Ptr) (t : NodeList α) : Prop where
  head_eq : head = headD t 0
  seg : Seg h 0 t 0
  distinct : t.Distinct

variable {h h' : Heap (Node α)} {q r p : Ptr} {t u : NodeList α} {x : Ptr × α}

theorem headD_cons : headD (x :: t) r = x.1 := rfl

theorem headD_append : headD (t ++ u) r = headD t (headD u r) := by
  cases t with
  | nil => rfl
  | cons x t => rfl

theorem lastD_cons : lastD (x :: t) q = lastD t x.1 := List.getLastD_cons ..

/-- **A segment splits**, and its two parts link to each other. -/
theorem seg_append : Seg h q (t ++ u) r ↔ Seg h q t (headD u r) ∧ Seg h (lastD t q) u r := by
  induction t generalizing q with
  | nil => exact (and_iff_right trivial).symm
  | cons x t ih =>
    show (h.load x.1 = some ⟨x.2, q, headD (t ++ u) r⟩ ∧ Seg h x.1 (t ++ u) r) ↔ _
    rw [ih, headD_append, lastD_cons, ← and_assoc]
    rfl

/-- Every object of a segment is live, and holds what it is said to hold. -/
theorem Seg.load (hseg : Seg h q t r) (hx : x ∈ t) :
    ∃ node, h.load x.1 = some node ∧ node.val = x.2 := by
  induction t generalizing q with
  | nil => exact absurd hx List.not_mem_nil
  | cons y t ih =>
    rcases List.mem_cons.mp hx with rfl | hx
    · exact ⟨_, hseg.1, rfl⟩
    · exact ih hseg.2 hx

theorem Seg.ne_null (hseg : Seg h q t r) (hx : x ∈ t) : x.1 ≠ 0 := by
  obtain ⟨node, hload, -⟩ := hseg.load hx
  exact Heap.ne_null_of_load hload

/-- A segment only depends on its own objects. -/
theorem Seg.congr (hseg : Seg h q t r) (hload : ∀ x ∈ t, h'.load x.1 = h.load x.1) :
    Seg h' q t r := by
  induction t generalizing q with
  | nil => trivial
  | cons x t ih =>
    obtain ⟨hx, ht⟩ := List.forall_mem_cons.mp hload
    exact ⟨hx.trans hseg.1, ih hseg.2 ht⟩

/-- The next links of a segment are a chain, from an owner that links to it. -/
theorem Seg.chain (hseg : Seg h q t 0) {a : Ptr} (ha : next h a = some (headD t 0)) :
    Chain (next h) a (t.map Prod.fst) := by
  induction t generalizing q a with
  | nil => exact ha
  | cons x t ih =>
    refine ⟨ha, hseg.ne_null List.mem_cons_self, ih hseg.2 ?_⟩
    unfold next
    rw [hseg.1]
    rfl

theorem mem_fst (hx : x ∈ t) : x.1 ∈ t.map Prod.fst := List.mem_map_of_mem hx

theorem lastD_mem (hne : t ≠ []) : lastD t q ∈ t.map Prod.fst := by
  cases t with
  | nil => exact absurd rfl hne
  | cons x t =>
    rw [lastD_cons]
    exact Chain.getLastD_mem_cons x.1 (t.map Prod.fst)

/-- A link is written to a live object, and nothing else changes. -/
theorem modify_eq {node : Node α} (hload : h.load p = some node) (f : Node α → Node α) :
    ∃ h', h.modify p f = some h' ∧ h'.load p = some (f node)
      ∧ (∀ q, q ≠ p → h'.load q = h.load q) ∧ h'.next = h.next := by
  refine ⟨_, Heap.modify_of_load f hload, ?_, fun q hq => ?_, rfl⟩
  · rw [Heap.load_update, if_pos rfl, hload]
    rfl
  · rw [Heap.load_update, if_neg hq]

/-- **The last object of a segment is linked to something else.** -/
theorem Seg.setNext (hseg : Seg h q t r) (hd : t.Distinct) (hne : t ≠ []) (r' : Ptr) :
    ∃ h', DList.setNext h (lastD t q) r' = some h' ∧ Seg h' q t r'
      ∧ (∀ p, p ≠ lastD t q → h'.load p = h.load p) ∧ h'.next = h.next := by
  obtain ⟨u, x, rfl⟩ := List.eq_nil_or_concat t |>.resolve_left hne
  rw [List.concat_eq_append] at hseg hd ⊢
  have hlast : lastD (u ++ [x]) q = x.1 := by simp [lastD]
  obtain ⟨hu, hx, -⟩ := seg_append.mp hseg
  obtain ⟨h', hset, hload, hother, hnext⟩ := modify_eq hx (fun node => { node with next := r' })
  rw [hlast]
  refine ⟨h', hset, seg_append.mpr ⟨hu.congr (fun y hy => hother y.1 ?_), hload, trivial⟩, hother,
    hnext⟩
  intro heq
  unfold NodeList.Distinct at hd
  rw [List.map_append, List.nodup_append] at hd
  exact hd.2.2 y.1 (mem_fst hy) x.1 List.mem_cons_self heq

/-- **The first object of a segment is linked back to something else.** -/
theorem Seg.setPrev (hseg : Seg h q t r) (hd : t.Distinct) (hne : t ≠ []) (q' : Ptr) :
    ∃ h', DList.setPrev h (headD t r) q' = some h' ∧ Seg h' q' t r
      ∧ (∀ p, p ≠ headD t r → h'.load p = h.load p) ∧ h'.next = h.next := by
  cases t with
  | nil => exact absurd rfl hne
  | cons x t =>
    obtain ⟨h', hset, hload, hother, hnext⟩ :=
      modify_eq hseg.1 (fun node => { node with prev := q' })
    refine ⟨h', hset, ⟨hload, hseg.2.congr (fun y hy => hother y.1 ?_)⟩, hother, hnext⟩
    rintro heq
    exact (List.nodup_cons.mp hd).1 (heq ▸ mem_fst hy)

/-! ## Lists -/

/-- The empty list. -/
theorem Repr.empty (h : Heap (Node α)) : Repr h 0 [] := ⟨rfl, trivial, List.nodup_nil⟩

section Edit

variable {head : Ptr} {node : Node α}

theorem Repr.headD_ne_null (hrepr : Repr h head t) (hne : t ≠ []) : headD t 0 ≠ 0 := by
  cases t with
  | nil => exact absurd rfl hne
  | cons x t => exact hrepr.seg.ne_null List.mem_cons_self

/-- A list is empty exactly where its pointer is null. -/
theorem Repr.head_eq_zero (hrepr : Repr h head t) : head = 0 ↔ t = [] := by
  rw [hrepr.head_eq]
  constructor
  · intro hnull
    by_contra hne
    exact hrepr.headD_ne_null hne hnull
  · rintro rfl
    rfl

/-- A list only depends on its own objects. -/
theorem Repr.congr (hrepr : Repr h head t) (hload : ∀ x ∈ t, h'.load x.1 = h.load x.1) :
    Repr h' head t := ⟨hrepr.head_eq, hrepr.seg.congr hload, hrepr.distinct⟩

/-- The links of an object are overwritten. -/
theorem relink (hload : h.load p = some node) :
    ∃ h₁ h₂, DList.setNext h p q = some h₁ ∧ DList.setPrev h₁ p r = some h₂
      ∧ h₂.load p = some ⟨node.val, r, q⟩ ∧ (∀ p', p' ≠ p → h₂.load p' = h.load p')
      ∧ h₂.next = h.next := by
  obtain ⟨h₁, hset₁, hload₁, hother₁, hnext₁⟩ := modify_eq hload (fun n => { n with next := q })
  obtain ⟨h₂, hset₂, hload₂, hother₂, hnext₂⟩ := modify_eq hload₁ (fun n => { n with prev := r })
  exact ⟨h₁, h₂, hset₁, hset₂, hload₂, fun p' hp' => (hother₂ p' hp').trans (hother₁ p' hp'),
    hnext₂.trans hnext₁⟩

/-- **An object is put in front.** -/
theorem Repr.insertHead (hrepr : Repr h head t) (hload : h.load p = some node)
    (hp : p ∉ t.map Prod.fst) :
    ∃ h', DList.insertHead h p head = some (p, h') ∧ Repr h' p ((p, node.val) :: t)
      ∧ (∀ p', p' ≠ p → p' ∉ t.map Prod.fst → h'.load p' = h.load p') ∧ h'.next = h.next := by
  obtain ⟨h₁, hset₁, hload₁, hother₁, hnext₁⟩ := modify_eq hload (fun n => { n with prev := 0 })
  obtain ⟨h₂, hset₂, hload₂, hother₂, hnext₂⟩ := modify_eq hload₁ (fun n => { n with next := head })
  have hother : ∀ p', p' ≠ p → h₂.load p' = h.load p' :=
    fun p' hp' => (hother₂ p' hp').trans (hother₁ p' hp')
  have hdistinct : NodeList.Distinct ((p, node.val) :: t) :=
    List.nodup_cons.mpr ⟨hp, hrepr.distinct⟩
  have hmem : ∀ x ∈ t, x.1 ≠ p := fun x hx heq => hp (heq ▸ mem_fst hx)
  by_cases hne : t = []
  · obtain rfl := hrepr.head_eq_zero.mpr hne
    subst hne
    refine ⟨h₂, bind_of_eq hset₁ (bind_of_eq hset₂ rfl), ⟨rfl, ⟨hload₂, trivial⟩, hdistinct⟩,
      fun p' hp' _ => hother p' hp', hnext₂.trans hnext₁⟩
  · obtain ⟨h₃, hset₃, hseg₃, hother₃, hnext₃⟩ := (hrepr.seg.congr (fun x hx =>
      hother x.1 (hmem x hx))).setPrev hrepr.distinct hne p
    have hhead : headD t 0 ∈ t.map Prod.fst := by
      cases t with
      | nil => exact absurd rfl hne
      | cons x t => exact List.mem_cons_self
    rw [← hrepr.head_eq] at hset₃ hother₃ hhead
    have hhead0 : head ≠ 0 := fun h0 => hne (hrepr.head_eq_zero.mp h0)
    have hset : (if head ≠ 0 then DList.setPrev h₂ head p else some h₂) = some h₃ := by
      rw [if_pos hhead0]
      exact hset₃
    refine ⟨h₃, bind_of_eq hset₁ (bind_of_eq hset₂ (bind_of_eq hset rfl)),
      ⟨rfl, ⟨?_, hseg₃⟩, hdistinct⟩, fun p' hp' hmem' => ?_, hnext₃.trans (hnext₂.trans hnext₁)⟩
    · rw [hother₃ p (fun heq => hp (heq ▸ hhead)), hload₂, ← hrepr.head_eq]
    · rw [hother₃ p' (fun heq => hmem' (heq ▸ hhead)), hother p' hp']

/-- **An object is put at the end.** -/
theorem Repr.insertTail (hrepr : Repr h head t) (hload : h.load p = some node)
    (hp : p ∉ t.map Prod.fst) :
    ∃ h', DList.insertTail h p head = some (headD (t ++ [(p, node.val)]) 0, h')
      ∧ Repr h' (headD (t ++ [(p, node.val)]) 0) (t ++ [(p, node.val)])
      ∧ (∀ p', p' ≠ p → p' ∉ t.map Prod.fst → h'.load p' = h.load p') ∧ h'.next = h.next := by
  obtain ⟨h₁, h₂, hset₁, hset₂, hload₂, hother₂, hnext₂⟩ := relink (q := 0) (r := 0) hload
  have hmem : ∀ x ∈ t, x.1 ≠ p := fun x hx heq => hp (heq ▸ mem_fst hx)
  have hdistinct : NodeList.Distinct (t ++ [(p, node.val)]) := by
    unfold NodeList.Distinct
    rw [List.map_append, List.nodup_append]
    refine ⟨hrepr.distinct, List.nodup_singleton _, ?_⟩
    rintro a ha b hb rfl
    obtain rfl : a = p := List.mem_singleton.mp hb
    exact hp ha
  have hseg₂ : Seg h₂ 0 t 0 := hrepr.seg.congr (fun x hx => hother₂ x.1 (hmem x hx))
  by_cases hne : t = []
  · obtain rfl := hrepr.head_eq_zero.mpr hne
    subst hne
    exact ⟨h₂, bind_of_eq hset₁ (bind_of_eq hset₂ rfl), ⟨rfl, ⟨hload₂, trivial⟩, hdistinct⟩,
      fun p' hp' _ => hother₂ p' hp', hnext₂⟩
  · have hlast : lastD t 0 ∈ t.map Prod.fst := lastD_mem hne
    have hlast' : lastD t 0 ≠ p := fun heq => hp (heq ▸ hlast)
    -- the walk from the first object stops at the last one
    have hwalk : advance (next h₂) (fun _ => some true) h₂.next head = some (lastD t 0) := by
      obtain ⟨x, u, rfl⟩ := List.exists_cons_of_ne_nil hne
      have hlive : ∀ p ∈ ((x :: u).map Prod.fst), (h₂.load p).isSome := by
        intro p' hp'
        obtain ⟨y, hy, rfl⟩ := List.mem_map.mp hp'
        obtain ⟨n, hn, -⟩ := hseg₂.load hy
        exact Option.isSome_of_mem hn
      have hlength := Heap.length_lt_next hrepr.distinct hlive
      have hchain : Chain (next h₂) x.1 (u.map Prod.fst) := by
        refine hseg₂.2.chain ?_
        unfold next
        rw [hseg₂.1]
        rfl
      rw [hrepr.head_eq, headD_cons, lastD_cons]
      have hend : Chain (next h₂) x.1 (u.map Prod.fst ++ []) := by
        rw [List.append_nil]
        exact hchain
      refine advance_eq hend ?_ (fun _ _ => rfl) (fun y hy => nomatch hy)
      · rw [List.map_cons, List.length_cons] at hlength
        omega
    obtain ⟨h₃, hset₃, hseg₃, hother₃, hnext₃⟩ := hseg₂.setNext hrepr.distinct hne p
    have hload₃ : h₃.load p = some ⟨node.val, 0, 0⟩ := (hother₃ p hlast'.symm).trans hload₂
    obtain ⟨h₄, hset₄, hload₄, hother₄, hnext₄⟩ :=
      modify_eq hload₃ (fun n => { n with prev := lastD t 0 })
    have hhead0 : head ≠ 0 := fun h0 => hne (hrepr.head_eq_zero.mp h0)
    have hhead : headD (t ++ [(p, node.val)]) 0 = head := by
      rw [hrepr.head_eq, headD_append]
      cases t with
      | nil => exact absurd rfl hne
      | cons x t => rfl
    rw [hhead]
    refine ⟨h₄, bind_of_eq hset₁ (bind_of_eq hset₂ ?_), ⟨hhead.symm, ?_, hdistinct⟩,
      fun p' hp' hmem' => ?_, hnext₄.trans (hnext₃.trans hnext₂)⟩
    · rw [if_neg hhead0]
      exact bind_of_eq hwalk (bind_of_eq hset₃ (bind_of_eq hset₄ rfl))
    · exact seg_append.mpr ⟨hseg₃.congr (fun x hx => hother₄ x.1 (hmem x hx)), hload₄, trivial⟩
    · rw [hother₄ p' hp', hother₃ p' (fun heq => hmem' (heq ▸ hlast)), hother₂ p' hp']

/-- **An object is taken out**, and its links are cleared. -/
theorem Repr.remove {a b : NodeList α} {v : α} (hrepr : Repr h head (a ++ (p, v) :: b)) :
    ∃ h', DList.remove h p head = some (headD (a ++ b) 0, h')
      ∧ Repr h' (headD (a ++ b) 0) (a ++ b) ∧ h'.load p = some ⟨v, 0, 0⟩
      ∧ (∀ p', p' ∉ (a ++ (p, v) :: b).map Prod.fst → h'.load p' = h.load p')
      ∧ h'.next = h.next := by
  obtain ⟨ha, hload, hb⟩ := seg_append.mp hrepr.seg
  have hdistinct := hrepr.distinct
  unfold NodeList.Distinct at hdistinct
  rw [List.map_append, List.map_cons, List.nodup_append, List.nodup_cons] at hdistinct
  obtain ⟨hda, ⟨hpb, hdb⟩, hab⟩ := hdistinct
  have hpa : p ∉ a.map Prod.fst := fun hp => hab p hp p List.mem_cons_self rfl
  have hdisj : ∀ x ∈ a.map Prod.fst, x ∉ b.map Prod.fst :=
    fun x hx hx' => hab x hx x (List.mem_cons_of_mem _ hx') rfl
  have hp0 : p ≠ 0 := Heap.ne_null_of_load hload
  -- the object before it is linked to the one after it
  obtain ⟨h₁, hset₁, ha₁, hother₁, hnext₁⟩ : ∃ h₁,
      (if lastD a 0 ≠ 0 then DList.setNext h (lastD a 0) (headD b 0) else some h) = some h₁
      ∧ Seg h₁ 0 a (headD b 0) ∧ (∀ p', p' ∉ a.map Prod.fst → h₁.load p' = h.load p')
      ∧ h₁.next = h.next := by
    by_cases hne : a = []
    · subst hne
      exact ⟨h, rfl, trivial, fun _ _ => rfl, rfl⟩
    · have hmem : lastD a 0 ∈ a.map Prod.fst := lastD_mem hne
      obtain ⟨x, hx, hx'⟩ := List.mem_map.mp hmem
      rw [if_pos (hx' ▸ ha.ne_null hx)]
      obtain ⟨h₁, hset, hseg, hother, hnext⟩ := ha.setNext hda hne (headD b 0)
      exact ⟨h₁, hset, hseg, fun p' hp' => hother p' (fun heq => hp' (heq ▸ hmem)), hnext⟩
  have hload₁ : h₁.load p = some ⟨v, lastD a 0, headD b 0⟩ := (hother₁ p hpa).trans hload
  have hb₁ : Seg h₁ p b 0 :=
    hb.congr (fun x hx => hother₁ x.1 (fun hx' => hdisj x.1 hx' (mem_fst hx)))
  -- and the one after it back to the one before it
  obtain ⟨h₂, hset₂, hb₂, hother₂, hnext₂⟩ : ∃ h₂,
      (if headD b 0 ≠ 0 then DList.setPrev h₁ (headD b 0) (lastD a 0) else some h₁) = some h₂
      ∧ Seg h₂ (lastD a 0) b 0 ∧ (∀ p', p' ∉ b.map Prod.fst → h₂.load p' = h₁.load p')
      ∧ h₂.next = h₁.next := by
    by_cases hne : b = []
    · subst hne
      exact ⟨h₁, rfl, trivial, fun _ _ => rfl, rfl⟩
    · have hmem : headD b 0 ∈ b.map Prod.fst := by
        obtain ⟨x, b', rfl⟩ := List.exists_cons_of_ne_nil hne
        exact List.mem_cons_self
      obtain ⟨x, hx, hx'⟩ := List.mem_map.mp hmem
      rw [if_pos (hx' ▸ hb₁.ne_null hx)]
      obtain ⟨h₂, hset, hseg, hother, hnext⟩ := hb₁.setPrev hdb hne (lastD a 0)
      exact ⟨h₂, hset, hseg, fun p' hp' => hother p' (fun heq => hp' (heq ▸ hmem)), hnext⟩
  have hload₂ : h₂.load p = some ⟨v, lastD a 0, headD b 0⟩ := (hother₂ p hpb).trans hload₁
  have ha₂ : Seg h₂ 0 a (headD b 0) :=
    ha₁.congr (fun x hx => hother₂ x.1 (hdisj x.1 (mem_fst hx)))
  obtain ⟨h₃, h₄, hset₃, hset₄, hload₄, hother₄, hnext₄⟩ := relink (q := 0) (r := 0) hload₂
  have hhead : (if head = p then headD b 0 else head) = headD (a ++ b) 0 := by
    rw [hrepr.head_eq, headD_append, headD_append]
    cases a with
    | nil => exact if_pos rfl
    | cons x a =>
      refine if_neg (fun heq => hpa ?_)
      rw [← heq]
      exact List.mem_cons_self
  refine ⟨h₄, ?_, ⟨rfl, ?_, ?_⟩, hload₄, fun p' hp' => ?_, hnext₄.trans (hnext₂.trans hnext₁)⟩
  · rw [← hhead]
    exact bind_of_eq hload (bind_of_eq hset₁ (bind_of_eq hload₁ (bind_of_eq hset₂
      (bind_of_eq hload₂ (bind_of_eq hset₃ (bind_of_eq hset₄ rfl))))))
  · refine seg_append.mpr ⟨ha₂.congr (fun x hx => hother₄ x.1 ?_),
      hb₂.congr (fun x hx => hother₄ x.1 ?_)⟩
    · exact fun heq => hpa (heq ▸ mem_fst (x := x) hx)
    · exact fun heq => hpb (heq ▸ mem_fst (x := x) hx)
  · unfold NodeList.Distinct
    rw [List.map_append, List.nodup_append]
    exact ⟨hda, hdb, fun x hx y hy => hab x hx y (List.mem_cons_of_mem _ hy)⟩
  · rw [List.map_append, List.map_cons, List.mem_append, List.mem_cons, not_or, not_or] at hp'
    rw [hother₄ p' hp'.2.1, hother₂ p' hp'.2.2, hother₁ p' hp'.1]

/-! ## What its objects hold -/

/-- The links of a list, from its first pointer. -/
theorem Repr.linked (hrepr : Repr h head t) : Linked (next h) head (t.map Prod.fst) := by
  rw [hrepr.head_eq]
  cases t with
  | nil => exact rfl
  | cons x t =>
    refine ⟨rfl, hrepr.seg.ne_null List.mem_cons_self, hrepr.seg.2.chain ?_⟩
    unfold next
    rw [hrepr.seg.1]
    rfl

/-- An object of a list, as it is in memory. -/
theorem Repr.load (hrepr : Repr h head t) (hx : x ∈ t) :
    ∃ node, h.load x.1 = some node ∧ node.val = x.2 := hrepr.seg.load hx

/-- A list has fewer objects than there are addresses. -/
theorem Repr.length_lt_next (hrepr : Repr h head t) : (t.map Prod.fst).length < h.next := by
  refine Heap.length_lt_next hrepr.distinct (fun q hq => ?_)
  obtain ⟨y, hy, rfl⟩ := List.mem_map.mp hq
  obtain ⟨n, hn, -⟩ := hrepr.load hy
  exact Option.isSome_of_mem hn

/-- **A walk stops at the first object that passes a test**, which reads nothing but the
objects of the list. -/
theorem Repr.seek_first (hrepr : Repr h head t) (P : α → Prop) [DecidablePred P]
    {test : Ptr → Option Bool} (htest : ∀ x ∈ t, test x.1 = some (decide (P x.2))) :
    seek (next h) test h.next head = some ((t.first P).elim 0 Prod.fst) := by
  have hlength := hrepr.length_lt_next
  cases hfirst : t.first P with
  | none =>
    have hlinked := hrepr.linked
    rw [← List.append_nil (t.map Prod.fst)] at hlinked
    refine seek_eq hlinked hlength ?_ (fun y hy => nomatch hy)
    intro q hq
    obtain ⟨y, hy, rfl⟩ := List.mem_map.mp hq
    rw [htest y hy, decide_eq_false (NodeList.first_eq_none.mp hfirst y hy)]
  | some y =>
    obtain ⟨hy, a, b, rfl, ha⟩ := List.find?_eq_some_iff_append.mp hfirst
    rw [List.map_append, List.map_cons] at hlength
    have hlinked := hrepr.linked
    rw [List.map_append, List.map_cons] at hlinked
    refine seek_eq hlinked ?_ ?_ ?_
    · rw [List.length_append] at hlength
      exact (Nat.le_add_right _ _).trans_lt hlength
    · intro q hq
      obtain ⟨z, hz, rfl⟩ := List.mem_map.mp hq
      rw [htest z (List.mem_append_left _ hz)]
      exact congrArg some (by simpa using ha z hz)
    · rintro q ⟨⟩
      rw [htest y (List.mem_append_right _ List.mem_cons_self)]
      exact congrArg some hy

/-- **A search finds the first object that passes the test.** -/
theorem Repr.find (hrepr : Repr h head t) (P : α → Prop) [DecidablePred P] :
    DList.find h head (fun a => P a) = some ((t.first P).elim 0 Prod.fst) := by
  refine hrepr.seek_first P (fun y hy => ?_)
  obtain ⟨n, hn, hval⟩ := hrepr.load hy
  rw [hn, ← hval]
  rfl

theorem Seg.valuesFrom (hseg : Seg h q t 0) {fuel : ℕ} (hfuel : t.length < fuel) :
    DList.valuesFrom h fuel (headD t 0) = some (t.map Prod.snd) := by
  induction t generalizing q fuel with
  | nil =>
    obtain ⟨fuel, rfl⟩ := Nat.exists_eq_succ_of_ne_zero (Nat.ne_zero_of_lt hfuel)
    exact if_pos rfl
  | cons x t ih =>
    obtain ⟨fuel, rfl⟩ := Nat.exists_eq_succ_of_ne_zero (Nat.ne_zero_of_lt hfuel)
    have hrest := ih hseg.2 (Nat.lt_of_succ_lt_succ hfuel)
    show (if x.1 = 0 then _ else _) = _
    rw [if_neg (hseg.ne_null List.mem_cons_self)]
    exact bind_of_eq hseg.1 (bind_of_eq hrest rfl)

/-- **A walk finds what the list holds.** -/
theorem Repr.values (hrepr : Repr h head t) : DList.values h head = some (t.map Prod.snd) := by
  rw [hrepr.head_eq]
  exact hrepr.seg.valuesFrom (by simpa using hrepr.length_lt_next)

/-- **An object is written to**, and its links stay. -/
theorem Repr.write {a b : NodeList α} {v : α} (hrepr : Repr h head (a ++ (p, v) :: b)) (w : α) :
    ∃ h', DList.write h p w = some h' ∧ Repr h' head (a ++ (p, w) :: b) ∧ h'.next = h.next := by
  obtain ⟨ha, hload, hb⟩ := seg_append.mp hrepr.seg
  have hdistinct := hrepr.distinct
  unfold NodeList.Distinct at hdistinct
  rw [List.map_append, List.map_cons] at hdistinct
  obtain ⟨-, hpb, hab⟩ := List.nodup_append.mp hdistinct
  obtain ⟨h', hset, hload', hother, hnext⟩ := modify_eq hload (fun n => { n with val := w })
  refine ⟨h', hset, ⟨?_, ?_, ?_⟩, hnext⟩
  · rw [hrepr.head_eq, headD_append, headD_append]
    rfl
  · refine seg_append.mpr ⟨ha.congr (fun y hy => hother y.1 ?_), hload',
      hb.congr (fun y hy => hother y.1 ?_)⟩
    · exact hab y.1 (mem_fst hy) p List.mem_cons_self
    · exact fun heq => (List.nodup_cons.mp hpb).1 (heq ▸ mem_fst hy)
  · unfold NodeList.Distinct
    rw [List.map_append, List.map_cons]
    exact hdistinct

/-- **All objects are written to.** -/
theorem Repr.writeAll {u : NodeList α} (hrepr : Repr h head t)
    (hfst : u.map Prod.fst = t.map Prod.fst) :
    ∃ h', DList.writeAll h u = some h' ∧ Repr h' head u ∧ h'.next = h.next := by
  have hfrom : ∀ (a t u : NodeList α) (h : Heap (Node α)), Repr h head (a ++ t) →
      u.map Prod.fst = t.map Prod.fst →
      ∃ h', DList.writeAll h u = some h' ∧ Repr h' head (a ++ u) ∧ h'.next = h.next := by
    intro a t u
    induction u generalizing a t with
    | nil =>
      intro h hrepr hfst
      obtain rfl : t = [] := List.map_eq_nil_iff.mp hfst.symm
      exact ⟨h, rfl, hrepr, rfl⟩
    | cons y u ih =>
      intro h hrepr hfst
      obtain ⟨x, t, rfl, hx, hu⟩ := List.map_eq_cons_iff.mp hfst.symm
      obtain ⟨h₁, hwrite, hrepr₁, hnext₁⟩ := hrepr.write y.2
      have hy : (x.1, y.2) = y := Prod.ext hx rfl
      rw [hx] at hwrite
      rw [hy, List.append_cons] at hrepr₁
      obtain ⟨h₂, hrest, hrepr₂, hnext₂⟩ := ih _ t h₁ hrepr₁ hu.symm
      rw [← List.append_cons] at hrepr₂
      exact ⟨h₂, bind_of_eq hwrite hrest, hrepr₂, hnext₂.trans hnext₁⟩
  exact hfrom [] t u h hrepr hfst

end Edit

end DList
