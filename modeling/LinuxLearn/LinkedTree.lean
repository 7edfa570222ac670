import LinuxLearn.HeapContents
import LinuxLearn.RedBlack

/-!
# Trees with parent pointers

A node in memory has pointers to its two children and to its parent; a null pointer stands for
an empty tree, and above the root. `Rep T W next r` says that the nodes of `T` form the tree
`W`, whose elements are the addresses of the nodes and what is stored in them, and that `r` is
what else is in the memory.

Splitting `W` at a focus splits the memory (`cells_plug`): the nodes below the focus, those
around it, and the rest. The pointers that a program changes to move a subtree are the parent
pointer of its root (`Rep.reparent`) and the pointer to it from above (`relink_eq`).
-/

open RedBlack
open RedBlack.RBTree (plug branch node toList)

/-- **A node.** -/
structure LinkedNode (α : Type) where
  left : Ptr
  right : Ptr
  parent : Ptr
  color : Color
  elem : α

/-- **A tree.** -/
structure LinkedTree (α : Type) where
  root : Ptr
  /-- The memory of the nodes. -/
  nodes : Heap (LinkedNode α)

variable {α : Type}

namespace LinkedNode

/-- The child on a side. -/
def child (n : LinkedNode α) : Side → Ptr
  | .left => n.left
  | .right => n.right

/-- The node with another child on a side. -/
def withChild (n : LinkedNode α) (d : Side) (p : Ptr) : LinkedNode α :=
  match d with
  | .left => { n with left := p }
  | .right => { n with right := p }

end LinkedNode

namespace LinkedTree

/-- Reading a field. -/
def get {β : Type} (T : LinkedTree α) (p : Ptr) (f : LinkedNode α → β) : Option β :=
  (T.nodes.load p).map f

def colorOf (T : LinkedTree α) (p : Ptr) : Option Color := T.get p LinkedNode.color

def parentOf (T : LinkedTree α) (p : Ptr) : Option Ptr := T.get p LinkedNode.parent

def childOf (T : LinkedTree α) (d : Side) (p : Ptr) : Option Ptr := T.get p (fun n => n.child d)

def elemOf (T : LinkedTree α) (p : Ptr) : Option α := T.get p LinkedNode.elem

/-- Writing to a node. -/
def set (T : LinkedTree α) (p : Ptr) (f : LinkedNode α → LinkedNode α) : Option (LinkedTree α) :=
  (T.nodes.modify p f).map (fun nodes => { T with nodes := nodes })

def setColor (T : LinkedTree α) (p : Ptr) (c : Color) : Option (LinkedTree α) :=
  T.set p (fun n => { n with color := c })

def setParent (T : LinkedTree α) (p q : Ptr) : Option (LinkedTree α) :=
  T.set p (fun n => { n with parent := q })

def setChild (T : LinkedTree α) (d : Side) (p q : Ptr) : Option (LinkedTree α) :=
  T.set p (fun n => n.withChild d q)

/-! ## The nodes of a tree -/

/-- A node of the tree: its address and what is stored in it. -/
structure Entry (α : Type) where
  addr : Ptr
  elem : α

/-- The pointer to a tree. -/
def rootPtr : RBTree (Entry α) → Ptr
  | .nil => 0
  | .node _ _ e _ => e.addr

/-- The pointer to the node above the focus. -/
def parentPtr : List (Frame (Entry α)) → Ptr
  | [] => 0
  | f :: _ => f.elem.addr

/-- The pointer to the whole tree, when `p` points to the focus. -/
def topPtr (p : Ptr) : List (Frame (Entry α)) → Ptr
  | [] => p
  | f :: ctx => topPtr f.elem.addr ctx

/-- **A node in memory**, with children `p` on side `d` and `q` on the other. -/
def cell (c : Color) (e : Entry α) (par : Ptr) (d : Side) (p q : Ptr) : LinkedNode α :=
  match d with
  | .left => ⟨p, q, par, c, e.elem⟩
  | .right => ⟨q, p, par, c, e.elem⟩

section Cell

variable (c c' : Color) (e : Entry α) (par par' : Ptr) (d : Side) (p q x : Ptr)

@[simp] theorem color_cell : (cell c e par d p q).color = c := by
  cases d <;> rfl

@[simp] theorem parent_cell : (cell c e par d p q).parent = par := by
  cases d <;> rfl

@[simp] theorem elem_cell : (cell c e par d p q).elem = e.elem := by
  cases d <;> rfl

@[simp] theorem child_cell : (cell c e par d p q).child d = p := by
  cases d <;> rfl

@[simp] theorem child_flip_cell : (cell c e par d p q).child d.flip = q := by
  cases d <;> rfl

@[simp] theorem withChild_cell : (cell c e par d p q).withChild d x = cell c e par d x q := by
  cases d <;> rfl

@[simp] theorem withChild_flip_cell :
    (cell c e par d p q).withChild d.flip x = cell c e par d p x := by
  cases d <;> rfl

theorem withParent_cell : { cell c e par d p q with parent := par' } = cell c e par' d p q := by
  cases d <;> rfl

theorem withColor_cell : { cell c e par d p q with color := c' } = cell c' e par d p q := by
  cases d <;> rfl

end Cell

/-- **The nodes of a tree**, below the node at `par`. -/
def cells (par : Ptr) : RBTree (Entry α) → Multiset (Ptr × LinkedNode α)
  | .nil => 0
  | .node c l e r =>
    {(e.addr, cell c e par .left (rootPtr l) (rootPtr r))} + (cells e.addr l + cells e.addr r)

/-- **The nodes around the focus**, when `p` points to it. -/
def around (p : Ptr) : List (Frame (Entry α)) → Multiset (Ptr × LinkedNode α)
  | [] => 0
  | f :: ctx =>
    {(f.elem.addr, cell f.color f.elem (parentPtr ctx) f.side p (rootPtr f.sibling))}
      + (cells f.elem.addr f.sibling + around f.elem.addr ctx)

section Cells

variable {d : Side} {c : Color} {e : Entry α} {par p q : Ptr} {t s : RBTree (Entry α)}
  {ctx : List (Frame (Entry α))}

@[simp] theorem rootPtr_branch : rootPtr (branch d c e t s) = e.addr := by
  cases d <;> rfl

theorem rootPtr_plug : rootPtr (plug t ctx) = topPtr (rootPtr t) ctx := by
  induction ctx generalizing t with
  | nil => rfl
  | cons f ctx ih =>
    show rootPtr (plug (branch f.side f.color f.elem t f.sibling) ctx) = _
    rw [ih, rootPtr_branch]
    rfl

theorem cells_branch : cells par (branch d c e t s)
    = {(e.addr, cell c e par d (rootPtr t) (rootPtr s))} + (cells e.addr t + cells e.addr s) := by
  cases d with
  | left => rfl
  | right =>
    show {(e.addr, cell c e par .left (rootPtr s) (rootPtr t))} + (cells e.addr s + cells e.addr t) = _
    rw [add_comm (cells e.addr s)]
    rfl

/-- **The nodes of a tree that is split at the focus.** -/
theorem cells_plug : cells 0 (plug t ctx) = cells (parentPtr ctx) t + around (rootPtr t) ctx := by
  induction ctx generalizing t with
  | nil => exact (add_zero _).symm
  | cons f ctx ih =>
    show cells 0 (plug (branch f.side f.color f.elem t f.sibling) ctx) = _
    rw [ih, cells_branch, rootPtr_branch]
    show _ = cells f.elem.addr t + ({(f.elem.addr, _)} + (cells f.elem.addr f.sibling + around f.elem.addr ctx))
    abel

/-- The pointer to a tree is null, or there is a node at it. -/
theorem rootPtr_cases (par : Ptr) (t : RBTree (Entry α)) :
    t = .nil ∨ ∃ n, (rootPtr t, n) ∈ cells par t := by
  cases t with
  | nil => exact Or.inl rfl
  | node c l e r => exact Or.inr ⟨_, Multiset.mem_add.mpr (Or.inl (Multiset.mem_singleton_self _))⟩

/-- A tree has as many nodes as elements. -/
theorem card_cells : Multiset.card (cells par t) = t.toList.length := by
  induction t generalizing par with
  | nil => rfl
  | node c l e r ihl ihr =>
    rw [cells, Multiset.card_add, Multiset.card_add, Multiset.card_singleton, ihl, ihr, toList,
      List.length_append, List.length_cons]
    omega

/-- The addresses of the nodes. -/
theorem map_fst_cells : (cells par t).map Prod.fst = (t.toList.map Entry.addr : Multiset Ptr) := by
  induction t generalizing par with
  | nil => rfl
  | node c l e r ihl ihr =>
    rw [cells, Multiset.map_add, Multiset.map_add, Multiset.map_singleton, ihl, ihr, toList, List.map_append,
      List.map_cons, ← Multiset.coe_add, ← Multiset.cons_coe, Multiset.add_cons, Multiset.singleton_add]

/-- The nodes of a tree store its elements. -/
theorem mem_cells_iff {p : Ptr} {a : α} :
    (∃ n, (p, n) ∈ cells par t ∧ n.elem = a) ↔ ⟨p, a⟩ ∈ t.toList := by
  induction t generalizing par with
  | nil => exact iff_of_false (fun ⟨_, h, _⟩ => Multiset.notMem_zero _ h) List.not_mem_nil
  | node c l e r ihl ihr =>
    rw [toList, List.mem_append, List.mem_cons, ← @ihl e.addr, ← @ihr e.addr]
    constructor
    · rintro ⟨n, hn, rfl⟩
      rw [cells, Multiset.mem_add, Multiset.mem_add, Multiset.mem_singleton] at hn
      rcases hn with heq | hn | hn
      · obtain ⟨rfl, rfl⟩ := Prod.mk.inj heq
        exact Or.inr (Or.inl rfl)
      · exact Or.inl ⟨n, hn, rfl⟩
      · exact Or.inr (Or.inr ⟨n, hn, rfl⟩)
    · rw [cells]
      rintro (⟨n, hn, ha⟩ | rfl | ⟨n, hn, ha⟩)
      · exact ⟨n, Multiset.mem_add.mpr (Or.inr (Multiset.mem_add.mpr (Or.inl hn))), ha⟩
      · exact ⟨_, Multiset.mem_add.mpr (Or.inl (Multiset.mem_singleton_self _)), rfl⟩
      · exact ⟨n, Multiset.mem_add.mpr (Or.inr (Multiset.mem_add.mpr (Or.inr hn))), ha⟩

end Cells

/-! ## The whole tree -/

/-- **The nodes of `T` form the tree `W`**, and the rest of the memory is `r`. -/
structure Rep (T : LinkedTree α) (W : RBTree (Entry α)) (next : Ptr)
    (r : Multiset (Ptr × LinkedNode α)) : Prop where
  root_eq : T.root = rootPtr W
  holds : T.nodes.Holds next (cells 0 W + r)

/-- **The nodes of `T'` form `W'`**, which has the elements of `W` in the order of `W`. -/
structure Reshaped (T' : LinkedTree α) (W' W : RBTree (Entry α)) (next : Ptr)
    (r : Multiset (Ptr × LinkedNode α)) : Prop where
  rep : Rep T' W' next r
  toList_eq : W'.toList = W.toList

theorem Reshaped.trans {T₁ T₂ : LinkedTree α} {W W₁ W₂ : RBTree (Entry α)} {next : Ptr}
    {r : Multiset (Ptr × LinkedNode α)} (h₁ : Reshaped T₁ W₁ W next r) (h₂ : Reshaped T₂ W₂ W₁ next r) :
    Reshaped T₂ W₂ W next r :=
  ⟨h₂.rep, h₂.toList_eq.trans h₁.toList_eq⟩

theorem Rep.reshaped {T : LinkedTree α} {W : RBTree (Entry α)} {next : Ptr}
    {r : Multiset (Ptr × LinkedNode α)} (h : Rep T W next r) : Reshaped T W W next r :=
  ⟨h, rfl⟩

section Reading

variable {T : LinkedTree α} {p : Ptr} {n : LinkedNode α}

theorem parentOf_eq (hp : T.nodes.load p = some n) : T.parentOf p = some n.parent := by
  unfold parentOf get
  rw [hp]
  rfl

theorem colorOf_eq (hp : T.nodes.load p = some n) : T.colorOf p = some n.color := by
  unfold colorOf get
  rw [hp]
  rfl

theorem childOf_eq (hp : T.nodes.load p = some n) (d : Side) : T.childOf d p = some (n.child d) := by
  unfold childOf get
  rw [hp]
  rfl

theorem elemOf_eq (hp : T.nodes.load p = some n) : T.elemOf p = some n.elem := by
  unfold elemOf get
  rw [hp]
  rfl

theorem set_eq (hp : T.nodes.load p = some n) (f : LinkedNode α → LinkedNode α) :
    T.set p f = some { T with nodes := T.nodes.update p f } := by
  unfold set
  rw [Heap.modify_of_load f hp]
  rfl

/-- **A write to a node**, whatever else is in the memory. -/
theorem exists_set {next : Ptr} {m : Multiset (Ptr × LinkedNode α)}
    (h : T.nodes.Holds next ({(p, n)} + m)) (f : LinkedNode α → LinkedNode α) :
    ∃ T', T.set p f = some T' ∧ T'.root = T.root ∧ T'.nodes.Holds next ({(p, f n)} + m) :=
  ⟨_, set_eq h.load f, rfl, h.update f⟩

end Reading

namespace Rep

variable {T T' : LinkedTree α} {W t s A B C : RBTree (Entry α)} {ctx : List (Frame (Entry α))} {d : Side}
  {c c' : Color} {e x y : Entry α} {next : Ptr} {r : Multiset (Ptr × LinkedNode α)}

/-- **The memory split at the focus.** -/
theorem split (h : Rep T (plug t ctx) next r) :
    T.nodes.Holds next (cells (parentPtr ctx) t + around (rootPtr t) ctx + r) := by
  have hh := h.holds
  rwa [cells_plug] at hh

/-- The tree put together again. -/
theorem of_split (hroot : T.root = topPtr (rootPtr t) ctx)
    (h : T.nodes.Holds next (cells (parentPtr ctx) t + around (rootPtr t) ctx + r)) :
    Rep T (plug t ctx) next r :=
  ⟨hroot.trans rootPtr_plug.symm, by rwa [cells_plug]⟩

/-- **The memory split at a node.** -/
theorem split_branch (h : Rep T (plug (branch d c e t s) ctx) next r) :
    T.nodes.Holds next ({(e.addr, cell c e (parentPtr ctx) d (rootPtr t) (rootPtr s))}
      + (cells e.addr t + cells e.addr s + around e.addr ctx + r)) := by
  have hh := h.split
  rw [cells_branch, rootPtr_branch] at hh
  rwa [← add_assoc, ← add_assoc]

theorem of_split_branch (hroot : T.root = topPtr e.addr ctx)
    (h : T.nodes.Holds next ({(e.addr, cell c e (parentPtr ctx) d (rootPtr t) (rootPtr s))}
      + (cells e.addr t + cells e.addr s + around e.addr ctx + r))) :
    Rep T (plug (branch d c e t s) ctx) next r := by
  refine of_split (by rw [rootPtr_branch]; exact hroot) ?_
  rw [cells_branch, rootPtr_branch]
  rwa [← add_assoc, ← add_assoc] at h

/-- The node at the focus. -/
theorem load_focus (h : Rep T (plug (branch d c e t s) ctx) next r) :
    T.nodes.load e.addr = some (cell c e (parentPtr ctx) d (rootPtr t) (rootPtr s)) := h.split_branch.load

theorem root_branch (h : Rep T (plug (branch d c e t s) ctx) next r) : T.root = topPtr e.addr ctx := by
  rw [h.root_eq, rootPtr_plug, rootPtr_branch]

theorem addr_ne_zero (h : Rep T (plug (branch d c e t s) ctx) next r) : e.addr ≠ 0 :=
  Heap.ne_null_of_load h.load_focus

theorem parentOf_focus (h : Rep T (plug (branch d c e t s) ctx) next r) :
    T.parentOf e.addr = some (parentPtr ctx) :=
  (parentOf_eq h.load_focus).trans (congrArg some (parent_cell ..))

theorem childOf_focus (h : Rep T (plug (branch d c e t s) ctx) next r) :
    T.childOf d e.addr = some (rootPtr t) :=
  (childOf_eq h.load_focus d).trans (congrArg some (child_cell ..))

theorem childOf_flip_focus (h : Rep T (plug (branch d c e t s) ctx) next r) :
    T.childOf d.flip e.addr = some (rootPtr s) :=
  (childOf_eq h.load_focus d.flip).trans (congrArg some (child_flip_cell ..))

theorem colorOf_focus (h : Rep T (plug (branch d c e t s) ctx) next r) : T.colorOf e.addr = some c :=
  (colorOf_eq h.load_focus).trans (congrArg some (color_cell ..))

theorem elemOf_focus (h : Rep T (plug (branch d c e t s) ctx) next r) :
    T.elemOf e.addr = some e.elem :=
  (elemOf_eq h.load_focus).trans (congrArg some (elem_cell ..))

/-- The pointer to the focus is null only if there is nothing. -/
theorem rootPtr_eq_zero (h : Rep T (plug t ctx) next r) : rootPtr t = 0 ↔ t = .nil := by
  cases t with
  | nil => exact iff_of_true rfl rfl
  | node c l e r =>
    have hne : e.addr ≠ 0 := addr_ne_zero (d := .left) h
    exact iff_of_false hne (fun h => nomatch h)

/-- The two children of a node are at different pointers, unless both are absent. -/
theorem rootPtr_ne (h : Rep T (plug (branch d c e t s) ctx) next r) (hne : t ≠ .nil ∨ s ≠ .nil) :
    rootPtr t ≠ rootPtr s := by
  have hh : T.nodes.Holds next (cells e.addr t
      + (cells e.addr s + ({(e.addr, cell c e (parentPtr ctx) d (rootPtr t) (rootPtr s))}
        + around e.addr ctx + r))) := by
    have hsplit := h.split_branch
    rwa [show cells e.addr t + (cells e.addr s + ({(e.addr, cell c e (parentPtr ctx) d (rootPtr t) (rootPtr s))}
        + around e.addr ctx + r))
      = {(e.addr, cell c e (parentPtr ctx) d (rootPtr t) (rootPtr s))}
      + (cells e.addr t + cells e.addr s + around e.addr ctx + r) by abel]
  have hnull : ∀ {p : Ptr} {n : LinkedNode α} {u : RBTree (Entry α)}, (p, n) ∈ cells e.addr u →
      (p, n) ∈ cells e.addr t + (cells e.addr s
        + ({(e.addr, cell c e (parentPtr ctx) d (rootPtr t) (rootPtr s))} + around e.addr ctx + r)) → p ≠ 0 :=
    fun _ hmem => hh.ne_null hmem
  rcases rootPtr_cases e.addr t with rfl | ⟨n, hn⟩
  · rcases rootPtr_cases e.addr s with rfl | ⟨m, hm⟩
    · exact absurd rfl (hne.elim id id)
    · exact (hnull hm (Multiset.mem_add.mpr (Or.inr (Multiset.mem_add.mpr (Or.inl hm))))).symm
  · rcases rootPtr_cases e.addr s with rfl | ⟨m, hm⟩
    · exact hnull hn (Multiset.mem_add.mpr (Or.inl hn))
    · intro heq
      have hnd := hh.nodup
      rw [Multiset.map_add] at hnd
      refine Multiset.disjoint_left.mp (Multiset.nodup_add.mp hnd).2.2 (Multiset.mem_map_of_mem Prod.fst hn) ?_
      have hs : rootPtr s ∈ (cells e.addr s).map Prod.fst := Multiset.mem_map_of_mem Prod.fst hm
      rw [Multiset.map_add, show (rootPtr t, n).1 = rootPtr s from heq]
      exact Multiset.mem_add.mpr (Or.inl hs)

/-- **The test for the side of the focus** compares with the left child of the node above. -/
theorem side_eq (h : Rep T (plug t (⟨d, c, e, s⟩ :: ctx)) next r) (hne : t ≠ .nil ∨ s ≠ .nil) :
    ∃ l, T.childOf .left e.addr = some l ∧ (if rootPtr t = l then Side.left else .right) = d := by
  have hbranch : Rep T (plug (branch d c e t s) ctx) next r := h
  have hptr := hbranch.rootPtr_ne hne
  cases d with
  | left => exact ⟨_, hbranch.childOf_focus, if_pos rfl⟩
  | right => exact ⟨_, hbranch.childOf_flip_focus, if_neg hptr⟩

/-- **The focus is not the root**, if there is something around it. -/
theorem rootPtr_ne_root {f : Frame (Entry α)} (h : Rep T (plug t (f :: ctx)) next r) :
    rootPtr t ≠ T.root := by
  have htop : ∀ (ctx : List (Frame (Entry α))) (f : Frame (Entry α)) (p : Ptr),
      ∃ n, (topPtr p (f :: ctx), n) ∈ around p (f :: ctx) := by
    intro ctx
    induction ctx with
    | nil => exact fun f p => ⟨_, Multiset.mem_add.mpr (Or.inl (Multiset.mem_singleton_self _))⟩
    | cons g ctx ih =>
      intro f p
      obtain ⟨n, hn⟩ := ih g f.elem.addr
      exact ⟨n, Multiset.mem_add.mpr (Or.inr (Multiset.mem_add.mpr (Or.inr hn)))⟩
  obtain ⟨n, hn⟩ := htop ctx f (rootPtr t)
  have hsplit := h.split
  rw [h.root_eq, rootPtr_plug]
  cases t with
  | nil =>
    exact (hsplit.ne_null (Multiset.mem_add.mpr (Or.inl (Multiset.mem_add.mpr (Or.inr hn))))).symm
  | node c l e u =>
    have hfocus := split_branch (d := .left) h
    exact (hfocus.ne (Multiset.mem_add.mpr (Or.inl (Multiset.mem_add.mpr (Or.inr hn))))).symm

/-- There are fewer nodes than addresses handed out. -/
theorem length_lt (h : Rep T W next r) : W.toList.length < next := by
  have hcard := h.holds.card_lt
  rw [Multiset.card_add, card_cells] at hcard
  omega

theorem length_ctx_lt (h : Rep T (plug t ctx) next r) : ctx.length < next :=
  (length_le_toList_plug t ctx).trans_lt h.length_lt

theorem next_eq (h : Rep T W next r) : T.nodes.next = next := h.holds.next_eq

/-- **Another colour** for the node at the focus. -/
theorem recolor (h : Rep T (plug (branch d c e t s) ctx) next r) (c' : Color) :
    ∃ T', T.setColor e.addr c' = some T'
      ∧ Reshaped T' (plug (branch d c' e t s) ctx) (plug (branch d c e t s) ctx) next r := by
  obtain ⟨T', hset, hroot, hT'⟩ := exists_set h.split_branch (fun n => { n with color := c' })
  rw [withColor_cell] at hT'
  exact ⟨T', hset, of_split_branch (hroot.trans h.root_branch) hT',
    toList_plug_congr (RBTree.toList_branch_color d c' c e t s) ctx⟩

end Rep

/-! ## Moving a subtree -/

section Move

variable {T : LinkedTree α} {t s : RBTree (Entry α)} {ctx : List (Frame (Entry α))} {par p q next : Ptr}
  {n : LinkedNode α} {m : Multiset (Ptr × LinkedNode α)}

/-- **Another parent** for a subtree, unless it is empty. -/
theorem reparent_eq (h : T.nodes.Holds next (cells par t + m)) (q : Ptr) :
    ∃ T', (if rootPtr t ≠ 0 then T.setParent (rootPtr t) q else some T) = some T' ∧ T'.root = T.root
      ∧ T'.nodes.Holds next (cells q t + m) := by
  cases t with
  | nil => exact ⟨T, if_neg (not_not.mpr rfl), rfl, h⟩
  | node c l e r =>
    rw [cells, add_assoc] at h
    have hne : e.addr ≠ 0 := Heap.ne_null_of_load h.load
    obtain ⟨T', hset, hroot, hT'⟩ := exists_set h (fun n => { n with parent := q })
    rw [withParent_cell, ← add_assoc] at hT'
    exact ⟨T', (if_pos hne).trans hset, hroot, hT'⟩

/-- What points from above, at `parent` or as the root, to `old`, points to `new` then. -/
def relink (T : LinkedTree α) (parent old new : Ptr) : Option (LinkedTree α) := do
  if parent ≠ 0 then
    if (← T.childOf .left parent) = old then T.setChild .left parent new
    else T.setChild .right parent new
  else
    return { T with root := new }

/-- **Another subtree** at the focus. -/
theorem relink_eq (h : T.nodes.Holds next ({(p, n)} + (around p ctx + m))) (hroot : T.root = topPtr p ctx)
    (q : Ptr) : ∃ T', T.relink (parentPtr ctx) p q = some T' ∧ T'.root = topPtr q ctx
      ∧ T'.nodes.Holds next ({(p, n)} + (around q ctx + m)) := by
  cases ctx with
  | nil => exact ⟨{ T with root := q }, if_neg (not_not.mpr rfl), rfl, h⟩
  | cons f ctx =>
    obtain ⟨d, c, e, s⟩ := f
    have hnode : T.nodes.Holds next ({(e.addr, cell c e (parentPtr ctx) d p (rootPtr s))}
        + ({(p, n)} + (cells e.addr s + around e.addr ctx + m))) := by
      rw [around] at h
      rwa [show {(e.addr, cell c e (parentPtr ctx) d p (rootPtr s))}
          + ({(p, n)} + (cells e.addr s + around e.addr ctx + m))
        = {(p, n)} + (({(e.addr, cell c e (parentPtr ctx) d p (rootPtr s))}
          + (cells e.addr s + around e.addr ctx)) + m) by abel]
    have hne : e.addr ≠ 0 := Heap.ne_null_of_load hnode.load
    -- the other child is not `p`, at which there is a node already
    have hsib : rootPtr s ≠ p := by
      rcases rootPtr_cases e.addr s with rfl | ⟨k, hk⟩
      · exact (Heap.ne_null_of_load h.load).symm
      · refine h.ne (Multiset.mem_add.mpr (Or.inl ?_)) (w := k)
        exact Multiset.mem_add.mpr (Or.inr (Multiset.mem_add.mpr (Or.inl hk)))
    obtain ⟨T', hset, hroot', hT'⟩ := exists_set hnode (fun n => n.withChild d q)
    rw [withChild_cell] at hT'
    refine ⟨T', ?_, hroot'.trans hroot, ?_⟩
    · refine (if_pos hne).trans (bind_of_eq (childOf_eq hnode.load .left) ?_)
      cases d with
      | left => exact (if_pos rfl).trans hset
      | right => exact (if_neg hsib).trans hset
    · rw [around]
      rwa [show {(p, n)} + (({(e.addr, cell c e (parentPtr ctx) d q (rootPtr s))}
          + (cells e.addr s + around e.addr ctx)) + m)
        = {(e.addr, cell c e (parentPtr ctx) d q (rootPtr s))}
          + ({(p, n)} + (cells e.addr s + around e.addr ctx + m)) by abel]

end Move

end LinkedTree
