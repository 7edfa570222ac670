import LinuxLearn.KvsRbtree

/-!
# The red-black tree in memory

`Rep T W` says that the nodes of `T` form the tree `W`, whose elements are
the nodes' addresses and entries: the child pointers go down the tree, the
parent pointers back up, and `nil` stands for every empty tree and above
the root.

All of the engine's work on the tree happens around one node. Splitting
`W` there (`sub_plug`) leaves the subtrees at the focus and the nodes
around it. The pointer writes that move a subtree are of two kinds, and
each has its rule: giving a subtree a new parent (`Sub.reparent`), and
giving the node above the focus a new child (`Around.rehang`).
-/

open RedBlack
open RedBlack.RBTree (plug branch node toList)

namespace KvsRbtree

/-- A node of the tree: its address and its entry. -/
structure RbEntry where
  addr : Ptr
  item : Item

/-- How a colour is stored. -/
def colorCode : Color → UInt8
  | .red => RED
  | .black => BLACK

@[simp] theorem colorCode_red : colorCode .red = RED := rfl

@[simp] theorem colorCode_black : colorCode .black = BLACK := rfl

theorem colorCode_eq_red {c : Color} : colorCode c = RED ↔ c = .red := by
  cases c <;> decide

theorem colorCode_eq_black {c : Color} : colorCode c = BLACK ↔ c = .black := by
  cases c <;> decide

/-- The pointer to a tree. -/
def rootPtr (nil : Ptr) : RBTree RbEntry → Ptr
  | .nil => nil
  | .node _ _ e _ => e.addr

/-- The pointer to the node above the focus. -/
def parentPtr (nil : Ptr) : List (Frame RbEntry) → Ptr
  | [] => nil
  | f :: _ => f.elem.addr

/-- The pointer to the whole tree, when `p` points to the focus. -/
def topPtr (p : Ptr) : List (Frame RbEntry) → Ptr
  | [] => p
  | f :: ctx => topPtr f.elem.addr ctx

/-- The addresses of some nodes. -/
def addrs (L : List RbEntry) : List Ptr := L.map RbEntry.addr

theorem mem_addrs {L : List RbEntry} {e : RbEntry} (h : e ∈ L) : e.addr ∈ addrs L :=
  List.mem_map_of_mem h

theorem addrs_append (L L' : List RbEntry) : addrs (L ++ L') = addrs L ++ addrs L' :=
  List.map_append

theorem addrs_cons (e : RbEntry) (L : List RbEntry) : addrs (e :: L) = e.addr :: addrs L := rfl

section Perm

variable (d : Side) (c c' : Color) (e x y : RbEntry) (t s A B C : RBTree RbEntry)
  (ctx : List (Frame RbEntry))

theorem perm_addrs_branch :
    (addrs (branch d c e t s).toList).Perm (e.addr :: (addrs t.toList ++ addrs s.toList)) := by
  rw [← addrs_append]
  exact (perm_branch d c e t s).map RbEntry.addr

theorem perm_addrs_plug :
    (addrs (plug t ctx).toList).Perm (addrs t.toList ++ addrs (outer ctx)) := by
  rw [← addrs_append]
  exact (perm_plug t ctx).map RbEntry.addr

/-- The pointers of a rotation. -/
theorem perm_addrs_rotate :
    (addrs (plug (branch d c x A (branch d c' y B C)) ctx).toList).Perm
      (x.addr :: y.addr :: (addrs B.toList ++ addrs A.toList ++ addrs C.toList
        ++ addrs (outer ctx))) := by
  refine (perm_addrs_plug _ ctx).trans ?_
  refine ((perm_addrs_branch d c x A _).append_right _).trans (List.Perm.cons _ ?_)
  refine (((perm_addrs_branch d c' y B C).append_left _).append_right _).trans ?_
  refine (List.perm_middle.append_right _).trans (List.Perm.cons _ (List.Perm.append_right _ ?_))
  rw [← List.append_assoc]
  exact List.perm_append_comm.append_right _

end Perm

/-- **A node in memory**, with children `p` on side `d` and `q` on the other. -/
def cell (c : Color) (e : RbEntry) (par : Ptr) (d : Side) (p q : Ptr) : RbNode :=
  match d with
  | .left => ⟨colorCode c, q, p, par, e.item.key, e.item.value⟩
  | .right => ⟨colorCode c, p, q, par, e.item.key, e.item.value⟩

section Cell

variable (c c' : Color) (e : RbEntry) (par par' : Ptr) (d : Side) (p q r : Ptr)

@[simp] theorem color_cell : (cell c e par d p q).color = colorCode c := by
  cases d <;> rfl

@[simp] theorem parent_cell : (cell c e par d p q).parent = par := by
  cases d <;> rfl

@[simp] theorem key_cell : (cell c e par d p q).key = e.item.key := by
  cases d <;> rfl

@[simp] theorem value_cell : (cell c e par d p q).value = e.item.value := by
  cases d <;> rfl

@[simp] theorem child_cell : (cell c e par d p q).child d = p := by
  cases d <;> rfl

@[simp] theorem child_flip_cell : (cell c e par d p q).child d.flip = q := by
  cases d <;> rfl

@[simp] theorem withChild_cell : (cell c e par d p q).withChild d r = cell c e par d r q := by
  cases d <;> rfl

@[simp] theorem withChild_flip_cell :
    (cell c e par d p q).withChild d.flip r = cell c e par d p r := by
  cases d <;> rfl

theorem withParent_cell :
    { cell c e par d p q with parent := par' } = cell c e par' d p q := by
  cases d <;> rfl

theorem withColor_cell :
    { cell c e par d p q with color := colorCode c' } = cell c' e par d p q := by
  cases d <;> rfl

end Cell

@[simp] theorem rootPtr_branch (nil : Ptr) (d : Side) (c : Color) (e : RbEntry)
    (t s : RBTree RbEntry) : rootPtr nil (branch d c e t s) = e.addr := by
  cases d <;> rfl

/-- The pointer to a tree is `nil`, or to one of its nodes. -/
theorem rootPtr_cases (nil : Ptr) (t : RBTree RbEntry) :
    (rootPtr nil t = nil ∧ t = .nil) ∨ rootPtr nil t ∈ addrs t.toList := by
  cases t with
  | nil => exact Or.inl ⟨rfl, rfl⟩
  | node c l e r => exact Or.inr (mem_addrs (by simp [toList]))

theorem rootPtr_plug (nil : Ptr) (t : RBTree RbEntry) (ctx : List (Frame RbEntry)) :
    rootPtr nil (plug t ctx) = topPtr (rootPtr nil t) ctx := by
  induction ctx generalizing t with
  | nil => rfl
  | cons f ctx ih =>
    show rootPtr nil (plug (branch f.side f.color f.elem t f.sibling) ctx) = _
    rw [ih, rootPtr_branch]
    rfl

/-- **A subtree in memory**, below the node `par`. -/
def Sub (nodes : Heap RbNode) (nil : Ptr) : Ptr → RBTree RbEntry → Prop
  | _, .nil => True
  | par, .node c l e r =>
    nodes.load e.addr = some (cell c e par .left (rootPtr nil l) (rootPtr nil r))
      ∧ Sub nodes nil e.addr l ∧ Sub nodes nil e.addr r

/-- **The nodes around the focus in memory**, when `p` points to the focus. -/
def Around (nodes : Heap RbNode) (nil : Ptr) : Ptr → List (Frame RbEntry) → Prop
  | _, [] => True
  | p, f :: ctx =>
    nodes.load f.elem.addr
        = some (cell f.color f.elem (parentPtr nil ctx) f.side p (rootPtr nil f.sibling))
      ∧ Sub nodes nil f.elem.addr f.sibling ∧ Around nodes nil f.elem.addr ctx

section Memory

variable {nodes nodes' : Heap RbNode} {nil par p q : Ptr} {t : RBTree RbEntry}
  {ctx : List (Frame RbEntry)}

theorem sub_branch {d : Side} {c : Color} {e : RbEntry} {s : RBTree RbEntry} :
    Sub nodes nil par (branch d c e t s)
      ↔ nodes.load e.addr = some (cell c e par d (rootPtr nil t) (rootPtr nil s))
        ∧ Sub nodes nil e.addr t ∧ Sub nodes nil e.addr s := by
  cases d with
  | left => exact Iff.rfl
  | right =>
    show _ = some (cell c e par .left (rootPtr nil s) (rootPtr nil t)) ∧ _ ∧ _ ↔ _
    rw [and_comm (a := Sub nodes nil e.addr s)]
    exact Iff.rfl

/-- **A tree in memory splits at the focus.** -/
theorem sub_plug : Sub nodes nil nil (plug t ctx)
    ↔ Sub nodes nil (parentPtr nil ctx) t ∧ Around nodes nil (rootPtr nil t) ctx := by
  induction ctx generalizing t with
  | nil => exact (and_iff_left trivial).symm
  | cons f ctx ih =>
    show Sub nodes nil nil (plug (branch f.side f.color f.elem t f.sibling) ctx) ↔ _
    rw [ih, sub_branch, rootPtr_branch]
    exact ⟨fun ⟨⟨h, ht, hs⟩, hrest⟩ => ⟨ht, h, hs, hrest⟩,
      fun ⟨ht, h, hs, hrest⟩ => ⟨⟨h, ht, hs⟩, hrest⟩⟩

/-- A subtree only depends on its own nodes. -/
theorem Sub.congr (h : Sub nodes nil par t)
    (hload : ∀ q ∈ addrs t.toList, nodes'.load q = nodes.load q) : Sub nodes' nil par t := by
  induction t generalizing par with
  | nil => trivial
  | node c l e r ihl ihr =>
    have hmem : ∀ x, x ∈ l.toList ∨ x = e ∨ x ∈ r.toList → x.addr ∈ addrs (node c l e r).toList :=
      fun x hx => mem_addrs (by simpa [toList] using hx)
    refine ⟨(hload _ (hmem e (Or.inr (Or.inl rfl)))).trans h.1, ihl h.2.1 ?_, ihr h.2.2 ?_⟩
    · intro q hq
      obtain ⟨x, hx, rfl⟩ := List.mem_map.mp hq
      exact hload _ (hmem x (Or.inl hx))
    · intro q hq
      obtain ⟨x, hx, rfl⟩ := List.mem_map.mp hq
      exact hload _ (hmem x (Or.inr (Or.inr hx)))

/-- The surroundings only depend on their own nodes. -/
theorem Around.congr (h : Around nodes nil p ctx)
    (hload : ∀ q ∈ addrs (outer ctx), nodes'.load q = nodes.load q) : Around nodes' nil p ctx := by
  induction ctx generalizing p with
  | nil => trivial
  | cons f ctx ih =>
    have hcons : addrs (outer (f :: ctx))
        = f.elem.addr :: (addrs f.sibling.toList ++ addrs (outer ctx)) := by
      rw [outer, addrs_cons, addrs_append]
    rw [hcons] at hload
    refine ⟨(hload _ List.mem_cons_self).trans h.1, h.2.1.congr ?_, ih h.2.2 ?_⟩
    · exact fun q hq => hload q (List.mem_cons_of_mem _ (List.mem_append_left _ hq))
    · exact fun q hq => hload q (List.mem_cons_of_mem _ (List.mem_append_right _ hq))

/-- The memory with another parent for a subtree. -/
def reparent (nodes : Heap RbNode) (t : RBTree RbEntry) (par : Ptr) : Heap RbNode :=
  match t with
  | .nil => nodes
  | .node _ _ e _ => nodes.update e.addr (fun n => { n with parent := par })

/-- The memory with another child for the node above the focus. -/
def rehang (nodes : Heap RbNode) (ctx : List (Frame RbEntry)) (p : Ptr) : Heap RbNode :=
  match ctx with
  | [] => nodes
  | f :: _ => nodes.update f.elem.addr (fun n => n.withChild f.side p)

@[simp] theorem next_reparent : (reparent nodes t par).next = nodes.next := by
  cases t <;> rfl

@[simp] theorem next_rehang : (rehang nodes ctx p).next = nodes.next := by
  cases ctx <;> rfl

theorem load_reparent (hq : q ∉ addrs t.toList) :
    (reparent nodes t par).load q = nodes.load q := by
  cases t with
  | nil => rfl
  | node c l e r =>
    have hne : q ≠ e.addr := fun he => hq (he ▸ mem_addrs (by simp [toList]))
    exact Heap.load_update_of_ne _ _ hne

theorem load_rehang (hq : q ∉ addrs (outer ctx)) :
    (rehang nodes ctx p).load q = nodes.load q := by
  cases ctx with
  | nil => rfl
  | cons f ctx =>
    have hne : q ≠ f.elem.addr := fun he => hq (he ▸ List.mem_cons_self)
    exact Heap.load_update_of_ne _ _ hne

/-- **Giving a subtree another parent.** -/
theorem Sub.reparent {par' : Ptr} (h : Sub nodes nil par t) (hnd : (addrs t.toList).Nodup) :
    Sub (reparent nodes t par') nil par' t := by
  cases t with
  | nil => trivial
  | node c l e r =>
    obtain ⟨he, hl, hr⟩ := h
    obtain ⟨hne, -⟩ := List.nodup_cons.mp ((perm_addrs_branch .left c e l r).nodup_iff.mp hnd)
    have hother : ∀ q, q ≠ e.addr →
        (KvsRbtree.reparent nodes (node c l e r) par').load q = nodes.load q :=
      fun q hq => Heap.load_update_of_ne _ _ hq
    refine ⟨?_, hl.congr (fun q hq => hother q ?_), hr.congr (fun q hq => hother q ?_)⟩
    · exact Heap.load_update_self _ he
    · exact fun heq => hne (heq ▸ List.mem_append_left _ hq)
    · exact fun heq => hne (heq ▸ List.mem_append_right _ hq)

/-- **Giving the node above the focus another child.** -/
theorem Around.rehang {p' : Ptr} (h : Around nodes nil p ctx) (hnd : (addrs (outer ctx)).Nodup) :
    Around (rehang nodes ctx p') nil p' ctx := by
  cases ctx with
  | nil => trivial
  | cons f ctx =>
    obtain ⟨hf, hs, hrest⟩ := h
    rw [outer, addrs_cons, addrs_append] at hnd
    obtain ⟨hne, -⟩ := List.nodup_cons.mp hnd
    have hother : ∀ q, q ≠ f.elem.addr →
        (KvsRbtree.rehang nodes (f :: ctx) p').load q = nodes.load q :=
      fun q hq => Heap.load_update_of_ne _ _ hq
    refine ⟨?_, hs.congr (fun q hq => hother q ?_), hrest.congr (fun q hq => hother q ?_)⟩
    · refine (Heap.load_update_self _ hf).trans ?_
      simp
    · exact fun heq => hne (heq ▸ List.mem_append_left _ hq)
    · exact fun heq => hne (heq ▸ List.mem_append_right _ hq)

end Memory

/-! ## The whole tree -/

/-- **The nodes of `T` form the tree `W`.** -/
structure Rep (T : KvsRbtree) (W : RBTree RbEntry) : Prop where
  root_eq : T.root = rootPtr T.nil W
  sub : Sub T.nodes T.nil T.nil W
  nil_cell : ∃ p, T.nodes.load T.nil = some ⟨BLACK, T.nil, T.nil, p, 0, 0⟩
  nodup : (T.nil :: addrs W.toList).Nodup

/-- **Only the nodes `L` were written to.** -/
structure Keeps (T T' : KvsRbtree) (L : List RbEntry) : Prop where
  nil_eq : T'.nil = T.nil
  strs_eq : T'.strs = T.strs
  next_eq : T'.nodes.next = T.nodes.next
  load_eq : ∀ q, q ∉ addrs L → T'.nodes.load q = T.nodes.load q

theorem Keeps.refl (T : KvsRbtree) (L : List RbEntry) : Keeps T T L :=
  ⟨rfl, rfl, rfl, fun _ _ => rfl⟩

theorem Keeps.trans {T T' T'' : KvsRbtree} {L : List RbEntry} (h : Keeps T T' L)
    (h' : Keeps T' T'' L) : Keeps T T'' L where
  nil_eq := h'.nil_eq.trans h.nil_eq
  strs_eq := h'.strs_eq.trans h.strs_eq
  next_eq := h'.next_eq.trans h.next_eq
  load_eq := fun q hq => (h'.load_eq q hq).trans (h.load_eq q hq)

/-- **The tree `W` was reshaped to `W'`**: the same nodes, in the same order,
and nothing else was written to. -/
structure Reshapes (T : KvsRbtree) (W : RBTree RbEntry) (T' : KvsRbtree) (W' : RBTree RbEntry) :
    Prop where
  rep : Rep T' W'
  toList_eq : W'.toList = W.toList
  keeps : Keeps T T' W.toList

theorem Reshapes.trans {T T' T'' : KvsRbtree} {W W' W'' : RBTree RbEntry}
    (h : Reshapes T W T' W') (h' : Reshapes T' W' T'' W'') : Reshapes T W T'' W'' where
  rep := h'.rep
  toList_eq := h'.toList_eq.trans h.toList_eq
  keeps := h.keeps.trans (h.toList_eq ▸ h'.keeps)

theorem Rep.refl_reshapes {T : KvsRbtree} {W : RBTree RbEntry} (h : Rep T W) : Reshapes T W T W :=
  ⟨h, rfl, Keeps.refl T _⟩

/-- Writes to the nodes of a tree reshape it, where the nodes hang as another tree then. -/
theorem Rep.reshapes {T T' : KvsRbtree} {W W' : RBTree RbEntry} (h : Rep T W)
    (hkeeps : Keeps T T' W.toList) (hlist : W'.toList = W.toList)
    (hroot : T'.root = rootPtr T.nil W') (hsub : Sub T'.nodes T.nil T.nil W') :
    Reshapes T W T' W' := by
  rw [← hkeeps.nil_eq] at hroot hsub
  refine ⟨⟨hroot, hsub, ?_, ?_⟩, hlist, hkeeps⟩
  · obtain ⟨hnil, -⟩ := List.nodup_cons.mp h.nodup
    obtain ⟨p, hp⟩ := h.nil_cell
    rw [hkeeps.nil_eq]
    exact ⟨p, (hkeeps.load_eq _ hnil).trans hp⟩
  · rw [hkeeps.nil_eq, hlist]
    exact h.nodup

/-- The tree after a write, where there is a node to write to. -/
def put (T : KvsRbtree) (p : Ptr) (f : RbNode → RbNode) : KvsRbtree :=
  { T with nodes := T.nodes.update p f }

theorem load_put_of_ne (T : KvsRbtree) {p q : Ptr} (f : RbNode → RbNode) (hq : q ≠ p) :
    (T.put p f).nodes.load q = T.nodes.load q :=
  Heap.load_update_of_ne _ _ hq

theorem load_put_self {T : KvsRbtree} {p : Ptr} {n : RbNode} (f : RbNode → RbNode)
    (hp : T.nodes.load p = some n) : (T.put p f).nodes.load p = some (f n) :=
  Heap.load_update_self _ hp

theorem write_eq {T : KvsRbtree} {p : Ptr} {n : RbNode} (hp : T.nodes.load p = some n)
    (f : RbNode → RbNode) : T.write p f = some (T.put p f) := by
  unfold write put
  rw [Heap.modify_of_load f hp]
  rfl

theorem parentOf_eq {T : KvsRbtree} {p : Ptr} {n : RbNode} (hp : T.nodes.load p = some n) :
    T.parentOf p = some n.parent := by
  unfold parentOf
  rw [hp]
  rfl

theorem colorOf_eq {T : KvsRbtree} {p : Ptr} {n : RbNode} (hp : T.nodes.load p = some n) :
    T.colorOf p = some n.color := by
  unfold colorOf
  rw [hp]
  rfl

theorem childOf_eq {T : KvsRbtree} {p : Ptr} {n : RbNode} (hp : T.nodes.load p = some n)
    (d : Side) : T.childOf d p = some (n.child d) := by
  unfold childOf
  rw [hp]
  rfl

/-- Giving a subtree another parent, where the program tests for `nil` first. -/
theorem setParent_eq {T : KvsRbtree} {t : RBTree RbEntry} {par : Ptr} (h : Sub T.nodes T.nil par t)
    (hnil : T.nil ∉ addrs t.toList) (p : Ptr) :
    (if rootPtr T.nil t ≠ T.nil then T.setParent (rootPtr T.nil t) p else some T)
      = some { T with nodes := reparent T.nodes t p } := by
  cases t with
  | nil => exact if_neg (not_not.mpr rfl)
  | node c l e r =>
    have hne : e.addr ≠ T.nil := fun heq => hnil (heq ▸ mem_addrs (by simp [toList]))
    exact (if_pos hne).trans (write_eq h.1 _)

/-- **Putting `y` where `x` is**: the node above, or the root, points to it. -/
theorem relink_eq {T : KvsRbtree} {ctx : List (Frame RbEntry)} {x : Ptr}
    (hparent : T.parentOf x = some (parentPtr T.nil ctx)) (h : Around T.nodes T.nil x ctx)
    (hroot : T.root = topPtr x ctx) (hnil : T.nil ∉ addrs (outer ctx))
    (hx : x ∉ addrs (outer ctx)) (hxnil : x ≠ T.nil) (d : Side) (y : Ptr) :
    rbtreeRelink d T x y
      = some { T with root := topPtr y ctx, nodes := rehang T.nodes ctx y } := by
  unfold rbtreeRelink
  rw [hparent]
  cases ctx with
  | nil => exact if_pos rfl
  | cons f ctx =>
    obtain ⟨hf, -, -⟩ := h
    have hfnil : f.elem.addr ≠ T.nil := fun heq => hnil (heq ▸ List.mem_cons_self)
    have hsib : rootPtr T.nil f.sibling ≠ x := by
      cases hs : f.sibling with
      | nil => exact hxnil.symm
      | node c l e r =>
        refine fun heq => hx (heq ▸ mem_addrs ?_)
        simp [outer, hs, toList]
    -- the side the program tries first is the one of `x`, or the other one
    have hside : (if x = (cell f.color f.elem (parentPtr T.nil ctx) f.side x
          (rootPtr T.nil f.sibling)).child d then T.setChild d f.elem.addr y
        else T.setChild d.flip f.elem.addr y) = T.setChild f.side f.elem.addr y := by
      by_cases hd : d = f.side
      · subst hd
        rw [child_cell, if_pos rfl]
      · obtain rfl := Side.eq_flip_of_ne hd
        rw [child_flip_cell, if_neg hsib.symm, Side.flip_flip]
    show (if f.elem.addr = T.nil then _ else _) = _
    rw [if_neg hfnil]
    show (T.childOf d f.elem.addr).bind _ = _
    rw [childOf_eq hf d, Option.bind_some]
    refine (hside.trans (write_eq hf _)).trans ?_
    rw [show topPtr y (f :: ctx) = T.root from hroot.symm]
    rfl

namespace Rep

variable {T T' : KvsRbtree} {W t s A B C : RBTree RbEntry} {ctx : List (Frame RbEntry)} {d : Side}
  {c c' : Color} {e x y : RbEntry}

/-- The pointers at the focus and around it are distinct. -/
theorem nodup_plug (h : Rep T (plug t ctx)) :
    (T.nil :: (addrs t.toList ++ addrs (outer ctx))).Nodup :=
  ((perm_addrs_plug t ctx).cons T.nil).nodup_iff.mp h.nodup

/-- The pointers to a node, to its subtrees and around it are distinct. -/
theorem nodup_branch (h : Rep T (plug (branch d c e t s) ctx)) :
    (T.nil :: e.addr :: (addrs t.toList ++ addrs s.toList ++ addrs (outer ctx))).Nodup :=
  (((perm_addrs_branch d c e t s).append_right _).cons T.nil).nodup_iff.mp h.nodup_plug

/-- The node at the focus. -/
theorem load_focus (h : Rep T (plug (branch d c e t s) ctx)) :
    T.nodes.load e.addr
      = some (cell c e (parentPtr T.nil ctx) d (rootPtr T.nil t) (rootPtr T.nil s)) :=
  (sub_branch.mp (sub_plug.mp h.sub).1).1

theorem parentOf_focus (h : Rep T (plug (branch d c e t s) ctx)) :
    T.parentOf e.addr = some (parentPtr T.nil ctx) :=
  (parentOf_eq h.load_focus).trans (congrArg some (parent_cell ..))

theorem childOf_focus (h : Rep T (plug (branch d c e t s) ctx)) :
    T.childOf d e.addr = some (rootPtr T.nil t) :=
  (childOf_eq h.load_focus d).trans (congrArg some (child_cell ..))

theorem childOf_flip_focus (h : Rep T (plug (branch d c e t s) ctx)) :
    T.childOf d.flip e.addr = some (rootPtr T.nil s) :=
  (childOf_eq h.load_focus d.flip).trans (congrArg some (child_flip_cell ..))

/-- The parent of a child of the focus. -/
theorem parentOf_child {d' : Side} {A B : RBTree RbEntry}
    (h : Rep T (plug (branch d c e (branch d' c' x A B) s) ctx)) :
    T.parentOf x.addr = some e.addr :=
  parentOf_focus (show Rep T (plug (branch d' c' x A B) (⟨d, c, e, s⟩ :: ctx)) from h)

/-- The focus is not `nil`. -/
theorem addr_ne_nil (h : Rep T (plug (branch d c e t s) ctx)) : e.addr ≠ T.nil := by
  intro heq
  have hnd := h.nodup_branch
  rw [heq] at hnd
  exact (List.nodup_cons.mp hnd).1 List.mem_cons_self

/-- The colour at the focus, `nil` being black. -/
theorem colorOf_focus (h : Rep T (plug t ctx)) :
    T.colorOf (rootPtr T.nil t) = some (colorCode t.color) := by
  cases t with
  | nil =>
    obtain ⟨p, hp⟩ := h.nil_cell
    exact colorOf_eq hp
  | node c l e r => exact colorOf_eq (load_focus (d := .left) h)

/-- The two children of a node are at different pointers, unless both are
absent. -/
theorem rootPtr_ne (h : Rep T (plug (branch d c e t s) ctx)) (ht : t ≠ .nil ∨ s ≠ .nil) :
    rootPtr T.nil t ≠ rootPtr T.nil s := by
  obtain ⟨hnil, hnd⟩ := List.nodup_cons.mp h.nodup_branch
  have hdisj := (List.nodup_append'.mp (List.nodup_append'.mp (List.nodup_cons.mp hnd).2).1).2.2
  simp only [List.mem_cons, List.mem_append, not_or] at hnil
  intro heq
  rcases rootPtr_cases T.nil t with ⟨hpt, rfl⟩ | hmt
  · rcases rootPtr_cases T.nil s with ⟨hps, rfl⟩ | hms
    · exact ht.elim (fun h => h rfl) (fun h => h rfl)
    · exact hnil.2.1.2 (hpt ▸ heq ▸ hms)
  · rcases rootPtr_cases T.nil s with ⟨hps, rfl⟩ | hms
    · rw [heq, hps] at hmt
      exact hnil.2.1.1 hmt
    · rw [heq] at hmt
      exact hdisj hmt hms

/-- The node above the focus. -/
theorem load_parent (h : Rep T (plug t (⟨d, c, e, s⟩ :: ctx))) :
    T.nodes.load e.addr
      = some (cell c e (parentPtr T.nil ctx) d (rootPtr T.nil t) (rootPtr T.nil s)) :=
  load_focus (d := d) (c := c) (e := e) h

/-- **The test for the side of the focus** compares with the left child of the
node above. -/
theorem side_eq (h : Rep T (plug t (⟨d, c, e, s⟩ :: ctx))) (ht : t ≠ .nil ∨ s ≠ .nil) :
    ∃ l, T.childOf .left e.addr = some l
      ∧ (if rootPtr T.nil t = l then Side.left else Side.right) = d := by
  have hne := rootPtr_ne (d := d) (c := c) (e := e) h ht
  refine ⟨_, childOf_eq h.load_parent _, ?_⟩
  cases d with
  | left => exact if_pos rfl
  | right => exact if_neg hne

/-- A tree only depends on its own nodes and on `nil`. -/
theorem congr (h : Rep T W) (hroot : T'.root = T.root) (hnil : T'.nil = T.nil)
    (hload : ∀ q ∈ T.nil :: addrs W.toList, T'.nodes.load q = T.nodes.load q) : Rep T' W where
  root_eq := by rw [hroot, hnil, h.root_eq]
  sub := by
    rw [hnil]
    exact h.sub.congr (fun q hq => hload q (List.mem_cons_of_mem _ hq))
  nil_cell := by
    obtain ⟨p, hp⟩ := h.nil_cell
    exact ⟨p, by rw [hnil, hload _ List.mem_cons_self, hp]⟩
  nodup := by
    rw [hnil]
    exact h.nodup

/-- The nodes of the tree are live. -/
theorem load_of_mem (h : Rep T W) (he : e ∈ W.toList) :
    ∃ n, T.nodes.load e.addr = some n ∧ n.key = e.item.key ∧ n.value = e.item.value := by
  obtain ⟨c, l, r, ctx, rfl⟩ := exists_focus he
  exact ⟨_, load_focus (d := .left) h, rfl, rfl⟩

/-- There are fewer nodes than addresses handed out. -/
theorem length_lt (h : Rep T W) : W.toList.length < T.nodes.next := by
  have hlen := Heap.length_lt_next h.nodup (h := T.nodes) (fun p hp => by
    rcases List.mem_cons.mp hp with rfl | hp
    · obtain ⟨q, hq⟩ := h.nil_cell
      rw [hq]
      rfl
    · obtain ⟨e, he, rfl⟩ := List.mem_map.mp hp
      obtain ⟨n, hn, -⟩ := h.load_of_mem he
      rw [hn]
      rfl)
  rw [List.length_cons, addrs, List.length_map] at hlen
  exact (Nat.lt_succ_self _).trans hlen

/-! ### Recolouring -/

/-- **Recolouring the focus.** -/
theorem recolor (h : Rep T (plug (branch d c e t s) ctx)) (c' : Color) :
    ∃ T', T.setColor e.addr (colorCode c') = some T'
      ∧ Reshapes T (plug (branch d c e t s) ctx) T' (plug (branch d c' e t s) ctx) := by
  have hload := h.load_focus
  obtain ⟨hsub, haround⟩ := sub_plug.mp h.sub
  obtain ⟨-, ht, hs⟩ := sub_branch.mp hsub
  obtain ⟨hnil, hnd⟩ := List.nodup_cons.mp h.nodup_branch
  obtain ⟨he, -⟩ := List.nodup_cons.mp hnd
  simp only [List.mem_append, not_or] at he
  have hother : ∀ q, q ≠ e.addr →
      (T.put e.addr (fun n => { n with color := colorCode c' })).nodes.load q = T.nodes.load q :=
    fun q hq => load_put_of_ne _ _ hq
  have hlist : (plug (branch d c' e t s) ctx).toList = (plug (branch d c e t s) ctx).toList :=
    toList_plug_congr (RBTree.toList_branch_color d c' c e t s) ctx
  have hkeeps : Keeps T (T.put e.addr (fun n => { n with color := colorCode c' }))
      (plug (branch d c e t s) ctx).toList := by
    refine ⟨rfl, rfl, rfl, fun q hq => hother q (fun heq => hq ?_)⟩
    rw [heq]
    exact mem_addrs ((perm_plug _ _).mem_iff.mpr (List.mem_append_left _
      ((perm_branch _ _ _ _ _).mem_iff.mpr List.mem_cons_self)))
  refine ⟨_, write_eq hload _, h.reshapes hkeeps hlist ?_
    (sub_plug.mpr ⟨sub_branch.mpr ⟨?_, ?_, ?_⟩, ?_⟩)⟩
  · exact h.root_eq.trans (by simp [rootPtr_plug])
  · exact (load_put_self _ hload).trans (congrArg some (withColor_cell ..))
  · exact ht.congr (fun q hq => hother q (fun heq => he.1.1 (heq ▸ hq)))
  · exact hs.congr (fun q hq => hother q (fun heq => he.1.2 (heq ▸ hq)))
  · rw [rootPtr_branch]
    rw [rootPtr_branch] at haround
    exact haround.congr (fun q hq => hother q (fun heq => he.2 (heq ▸ hq)))

/-! ### Exchanging an entry -/

/-- **Giving the focus another entry**, at the same address. -/
theorem setItem (h : Rep T (plug (branch d c e t s) ctx)) {it : Item}
    (hroot : T'.root = T.root) (hnil : T'.nil = T.nil)
    (hload : T'.nodes.load e.addr = some (cell c ⟨e.addr, it⟩ (parentPtr T.nil ctx) d
      (rootPtr T.nil t) (rootPtr T.nil s)))
    (hother : ∀ q ∈ T.nil :: addrs (plug (branch d c e t s) ctx).toList, q ≠ e.addr →
      T'.nodes.load q = T.nodes.load q) :
    Rep T' (plug (branch d c ⟨e.addr, it⟩ t s) ctx) := by
  obtain ⟨hsub, haround⟩ := sub_plug.mp h.sub
  obtain ⟨-, ht, hs⟩ := sub_branch.mp hsub
  obtain ⟨-, hnd⟩ := List.nodup_cons.mp h.nodup_branch
  obtain ⟨he, -⟩ := List.nodup_cons.mp hnd
  simp only [List.mem_append, not_or] at he
  have hperm := (perm_addrs_plug (branch d c e t s) ctx).trans
    ((perm_addrs_branch d c e t s).append_right _)
  have hsame : ∀ q ∈ addrs t.toList ++ addrs s.toList ++ addrs (outer ctx),
      T'.nodes.load q = T.nodes.load q := by
    intro q hq
    refine hother q (List.mem_cons_of_mem _ (hperm.mem_iff.mpr (List.mem_cons_of_mem _ hq)))
      (fun heq => ?_)
    rw [heq, List.mem_append, List.mem_append] at hq
    exact hq.elim (fun h => h.elim he.1.1 he.1.2) he.2
  have haddrs : addrs (plug (branch d c ⟨e.addr, it⟩ t s) ctx).toList
      = addrs (plug (branch d c e t s) ctx).toList := by
    rw [toList_plug, toList_plug]
    cases d <;> simp [addrs, branch, toList]
  refine ⟨?_, ?_, ?_, ?_⟩
  · rw [hroot, hnil, h.root_eq, rootPtr_plug, rootPtr_plug, rootPtr_branch, rootPtr_branch]
  · rw [hnil]
    refine sub_plug.mpr ⟨sub_branch.mpr ⟨hload, ?_, ?_⟩, ?_⟩
    · exact ht.congr (fun q hq => hsame q (by simp [hq]))
    · exact hs.congr (fun q hq => hsame q (by simp [hq]))
    · rw [rootPtr_branch] at haround ⊢
      exact haround.congr (fun q hq => hsame q (by simp [hq]))
  · obtain ⟨p, hp⟩ := h.nil_cell
    exact ⟨p, by rw [hnil, hother _ List.mem_cons_self h.addr_ne_nil.symm, hp]⟩
  · rw [hnil, haddrs]
    exact h.nodup

/-! ### Rotation -/

/-- **What a rotation writes**: the cells of the two nodes it turns, the link from above,
and the parent of the subtree that changes hands. -/
theorem rotate_cells (h : Rep T (plug (branch d c x A (branch d c' y B C)) ctx)) :
    ∃ T', rbtreeRotate d T x.addr = some T'
      ∧ Keeps T T' (plug (branch d c x A (branch d c' y B C)) ctx).toList
      ∧ T'.root = topPtr y.addr ctx
      ∧ T'.nodes.load x.addr = some (cell c x y.addr d (rootPtr T.nil A) (rootPtr T.nil B))
      ∧ T'.nodes.load y.addr
        = some (cell c' y (parentPtr T.nil ctx) d x.addr (rootPtr T.nil C))
      ∧ Sub T'.nodes T.nil x.addr A ∧ Sub T'.nodes T.nil x.addr B ∧ Sub T'.nodes T.nil y.addr C
      ∧ Around T'.nodes T.nil y.addr ctx := by
  have hperm := perm_addrs_rotate d c c' x y A B C ctx
  have hnd := (hperm.cons T.nil).nodup_iff.mp h.nodup
  obtain ⟨hsub, haround⟩ := sub_plug.mp h.sub
  obtain ⟨hx, hA, hsub'⟩ := sub_branch.mp hsub
  obtain ⟨hy, hB, hC⟩ := sub_branch.mp hsub'
  rw [rootPtr_branch] at hx haround
  simp only [List.nodup_cons, List.mem_cons, List.mem_append, not_or, List.nodup_append',
    List.disjoint_append_left] at hnd
  obtain ⟨⟨hnx, hny, ⟨⟨hnB, hnA⟩, hnC⟩, hnO⟩, ⟨hxy, ⟨⟨hxB, hxA⟩, hxC⟩, hxO⟩,
    ⟨⟨⟨hyB, hyA⟩, hyC⟩, hyO⟩, ⟨⟨hBnd, hAnd, hBA⟩, hCnd, hBC, hAC⟩, hOnd, ⟨hBO, hAO⟩, hCO⟩ := hnd
  -- the writes, in the order of the program
  let T₁ := T.put x.addr (fun n => n.withChild d.flip (rootPtr T.nil B))
  let T₂ : KvsRbtree := { T₁ with nodes := KvsRbtree.reparent T₁.nodes B x.addr }
  let T₃ := T₂.put y.addr (fun n => { n with parent := parentPtr T.nil ctx })
  let T₄ : KvsRbtree :=
    { T₃ with root := topPtr y.addr ctx, nodes := KvsRbtree.rehang T₃.nodes ctx y.addr }
  let T₅ := T₄.put y.addr (fun n => n.withChild d x.addr)
  let T₆ := T₅.put x.addr (fun n => { n with parent := y.addr })
  have hload₁ : ∀ q, q ≠ x.addr → T₁.nodes.load q = T.nodes.load q :=
    fun q hq => load_put_of_ne _ _ hq
  have hload₂ : ∀ q, q ∉ addrs B.toList → T₂.nodes.load q = T₁.nodes.load q :=
    fun q hq => load_reparent hq
  have hload₃ : ∀ q, q ≠ y.addr → T₃.nodes.load q = T₂.nodes.load q :=
    fun q hq => load_put_of_ne _ _ hq
  have hload₄ : ∀ q, q ∉ addrs (outer ctx) → T₄.nodes.load q = T₃.nodes.load q :=
    fun q hq => load_rehang hq
  have hload₅ : ∀ q, q ≠ y.addr → T₅.nodes.load q = T₄.nodes.load q :=
    fun q hq => load_put_of_ne _ _ hq
  have hload₆ : ∀ q, q ≠ x.addr → T₆.nodes.load q = T₅.nodes.load q :=
    fun q hq => load_put_of_ne _ _ hq
  -- the rotated nodes on the way
  have hx₁ : T₁.nodes.load x.addr
      = some (cell c x (parentPtr T.nil ctx) d (rootPtr T.nil A) (rootPtr T.nil B)) :=
    (load_put_self _ hx).trans (congrArg some (withChild_flip_cell ..))
  have hx₂ := (hload₂ _ hxB).trans hx₁
  have hx₃ := (hload₃ _ hxy).trans hx₂
  have hx₄ := (hload₄ _ hxO).trans hx₃
  have hx₅ := (hload₅ _ hxy).trans hx₄
  have hx₆ : T₆.nodes.load x.addr
      = some (cell c x y.addr d (rootPtr T.nil A) (rootPtr T.nil B)) :=
    (load_put_self _ hx₅).trans (congrArg some (withParent_cell ..))
  have hy₁ := (hload₁ _ (Ne.symm hxy)).trans hy
  have hy₂ := (hload₂ _ hyB).trans hy₁
  have hy₃ : T₃.nodes.load y.addr
      = some (cell c' y (parentPtr T.nil ctx) d (rootPtr T.nil B) (rootPtr T.nil C)) :=
    (load_put_self _ hy₂).trans (congrArg some (withParent_cell ..))
  have hy₄ := (hload₄ _ hyO).trans hy₃
  have hy₅ : T₅.nodes.load y.addr
      = some (cell c' y (parentPtr T.nil ctx) d x.addr (rootPtr T.nil C)) :=
    (load_put_self _ hy₄).trans (congrArg some (withChild_cell ..))
  have hy₆ := (hload₆ _ (Ne.symm hxy)).trans hy₅
  have hB₁ : Sub T₁.nodes T.nil y.addr B :=
    hB.congr (fun q hq => hload₁ q (fun heq => hxB (heq ▸ hq)))
  have haround₃ : Around T₃.nodes T.nil x.addr ctx := haround.congr (fun q hq => by
    rw [hload₃ q (fun heq => hyO (heq ▸ hq)), hload₂ q (fun hqB => hBO hqB hq),
      hload₁ q (fun heq => hxO (heq ▸ hq))])
  have hrun : rbtreeRotate d T x.addr = some T₆ := by
    unfold rbtreeRotate
    refine bind_of_eq ((childOf_eq hx _).trans (congrArg some (child_flip_cell ..))) ?_
    refine bind_of_eq ((childOf_eq hy _).trans (congrArg some (child_cell ..))) ?_
    refine bind_of_eq (write_eq hx _) ?_
    refine bind_of_eq ((childOf_eq hy₁ _).trans (congrArg some (child_cell ..))) ?_
    refine bind_of_eq (setParent_eq (T := T₁) hB₁ hnB x.addr) ?_
    refine bind_of_eq ((parentOf_eq hx₂).trans (congrArg some (parent_cell ..))) ?_
    refine bind_of_eq (write_eq hy₂ _) ?_
    refine bind_of_eq (relink_eq (T := T₃) ((parentOf_eq hx₃).trans
      (congrArg some (parent_cell ..))) haround₃ ?_ hnO hxO (Ne.symm hnx) d y.addr) ?_
    · exact h.root_eq.trans ((rootPtr_plug _ _ _).trans (by rw [rootPtr_branch]))
    refine bind_of_eq (write_eq hy₄ _) ?_
    exact write_eq hx₅ _
  -- away from the rotated nodes
  have hfar : ∀ q, q ≠ x.addr → q ≠ y.addr → q ∉ addrs B.toList → q ∉ addrs (outer ctx) →
      T₆.nodes.load q = T.nodes.load q := fun q hqx hqy hqB hqO => by
    rw [hload₆ q hqx, hload₅ q hqy, hload₄ q hqO, hload₃ q hqy, hload₂ q hqB, hload₁ q hqx]
  have hA₆ : Sub T₆.nodes T.nil x.addr A := hA.congr (fun q hq =>
    hfar q (fun heq => hxA (heq ▸ hq)) (fun heq => hyA (heq ▸ hq)) (fun hqB => hBA hqB hq)
      (hAO hq))
  have hC₆ : Sub T₆.nodes T.nil y.addr C := hC.congr (fun q hq =>
    hfar q (fun heq => hxC (heq ▸ hq)) (fun heq => hyC (heq ▸ hq)) (fun hqB => hBC hqB hq)
      (hCO hq))
  have hB₆ : Sub T₆.nodes T.nil x.addr B := (hB₁.reparent hBnd).congr (fun q hq => by
    have hqx : q ≠ x.addr := fun heq => hxB (heq ▸ hq)
    have hqy : q ≠ y.addr := fun heq => hyB (heq ▸ hq)
    rw [hload₆ q hqx, hload₅ q hqy, hload₄ q (hBO hq), hload₃ q hqy])
  have haround₆ : Around T₆.nodes T.nil y.addr ctx := (haround₃.rehang hOnd).congr (fun q hq => by
    have hqx : q ≠ x.addr := fun heq => hxO (heq ▸ hq)
    have hqy : q ≠ y.addr := fun heq => hyO (heq ▸ hq)
    rw [hload₆ q hqx, hload₅ q hqy])
  refine ⟨T₆, hrun, ⟨rfl, rfl, ?_, ?_⟩, rfl, hx₆, hy₆, hA₆, hB₆, hC₆, haround₆⟩
  · simp [T₆, T₅, T₄, T₃, T₂, T₁, put]
  · intro q hq
    rw [hperm.mem_iff] at hq
    simp only [List.mem_cons, List.mem_append, not_or] at hq
    exact hfar q hq.1 hq.2.1 hq.2.2.1.1.1 hq.2.2.2

/-- **A rotation.** -/
theorem rotate (h : Rep T (plug (branch d c x A (branch d c' y B C)) ctx)) :
    ∃ T', rbtreeRotate d T x.addr = some T'
      ∧ Reshapes T (plug (branch d c x A (branch d c' y B C)) ctx)
        T' (plug (branch d c' y (branch d c x A B) C) ctx) := by
  obtain ⟨T', hrun, hkeeps, hroot, hx, hy, hA, hB, hC, haround⟩ := h.rotate_cells
  have hlist : (plug (branch d c' y (branch d c x A B) C) ctx).toList
      = (plug (branch d c x A (branch d c' y B C)) ctx).toList :=
    toList_plug_congr (RBTree.toList_rotate d c c' c' c x y A B C).symm ctx
  refine ⟨T', hrun, h.reshapes hkeeps hlist ?_
    (sub_plug.mpr ⟨sub_branch.mpr ⟨?_, sub_branch.mpr ⟨hx, hA, hB⟩, hC⟩, ?_⟩)⟩
  · rw [hroot, rootPtr_plug, rootPtr_branch]
  · rw [rootPtr_branch]
    exact hy
  · rw [rootPtr_branch]
    exact haround

/-- **A rotation towards the other side.** -/
theorem rotate_flip (h : Rep T (plug (branch d c x (branch d c' y C B) A) ctx)) :
    ∃ T', rbtreeRotate d.flip T x.addr = some T'
      ∧ Reshapes T (plug (branch d c x (branch d c' y C B) A) ctx)
        T' (plug (branch d c' y C (branch d c x B A)) ctx) := by
  rw [← RBTree.branch_flip d c x, ← RBTree.branch_flip d c' y] at h
  obtain ⟨T', hT', hR⟩ := h.rotate
  refine ⟨T', hT', ?_⟩
  simpa only [RBTree.branch_flip] using hR

end Rep

end KvsRbtree
