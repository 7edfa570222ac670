import LinuxLearn.NtyTree
import LinuxLearn.SearchTree

/-!
# Rotation and insertion

A new node is red, so what `RB_INSERT` can break is that a red node has black children, and only
between the new node and its parent. The loop of `RB_INSERT_COLOR` moves this one defect up by
two levels while the uncle is red, and removes it by one or two rotations as soon as there is
no red uncle. Its invariant is `Inserting`.
-/

open RedBlack LinkedTree SearchTree
open RedBlack.RBTree (plug branch node toList)

namespace NtyTree

variable {α : Type} {T : LinkedTree α} {t s u A B C : RBTree (Entry α)} {ctx : List (Frame (Entry α))}
  {d d' : Side} {c c' : Color} {e x y p g : Entry α} {next : Ptr} {r : Multiset (Ptr × LinkedNode α)} {n : ℕ}

/-! ## Rotation -/

/-- **A rotation.** -/
theorem rotate_eq (h : Rep T (plug (branch d c x A (branch d c' y B C)) ctx) next r) :
    ∃ T', rbRotate d T x.addr = some T'
      ∧ Reshaped T' (plug (branch d c' y (branch d c x A B) C) ctx)
        (plug (branch d c x A (branch d c' y B C)) ctx) next r := by
  have hsplit := h.split_branch
  rw [cells_branch, rootPtr_branch] at hsplit
  -- the child of `y` is moved to `x`
  obtain ⟨T₁, hset₁, hroot₁, h₁⟩ := exists_set hsplit (fun n => n.withChild d.flip (rootPtr B))
  rw [withChild_flip_cell] at h₁
  have hy : T.nodes.load y.addr = some (cell c' y x.addr d (rootPtr B) (rootPtr C)) :=
    hsplit.mem (by simp)
  obtain ⟨T₂, hset₂, hroot₂, h₂⟩ := reparent_eq (h₁.of_eq (cells y.addr B
    + ({(x.addr, cell c x (parentPtr ctx) d (rootPtr A) (rootPtr B))}
      + ({(y.addr, cell c' y x.addr d (rootPtr B) (rootPtr C))}
        + (cells x.addr A + cells y.addr C + around x.addr ctx + r)))) (by abel)) x.addr
  have hx₂ : T₂.nodes.load x.addr = some (cell c x (parentPtr ctx) d (rootPtr A) (rootPtr B)) :=
    h₂.mem (by simp)
  -- `y` is put in the place of `x`
  obtain ⟨T₃, hset₃, hroot₃, h₃⟩ := exists_set (h₂.of_eq
    ({(y.addr, cell c' y x.addr d (rootPtr B) (rootPtr C))}
      + ({(x.addr, cell c x (parentPtr ctx) d (rootPtr A) (rootPtr B))}
        + (cells x.addr A + cells x.addr B + cells y.addr C + around x.addr ctx + r))) (by abel))
    (fun n => { n with parent := parentPtr ctx })
  rw [withParent_cell] at h₃
  obtain ⟨T₄, hset₄, hroot₄, h₄⟩ := relink_eq (h₃.of_eq
    ({(x.addr, cell c x (parentPtr ctx) d (rootPtr A) (rootPtr B))}
      + (around x.addr ctx + ({(y.addr, cell c' y (parentPtr ctx) d (rootPtr B) (rootPtr C))}
        + (cells x.addr A + cells x.addr B + cells y.addr C + r)))) (by abel))
    (hroot₃.trans (hroot₂.trans (hroot₁.trans h.root_branch))) y.addr
  -- `x` is put below it
  obtain ⟨T₅, hset₅, hroot₅, h₅⟩ := exists_set (h₄.of_eq
    ({(y.addr, cell c' y (parentPtr ctx) d (rootPtr B) (rootPtr C))}
      + ({(x.addr, cell c x (parentPtr ctx) d (rootPtr A) (rootPtr B))}
        + (cells x.addr A + cells x.addr B + cells y.addr C + around y.addr ctx + r))) (by abel))
    (fun n => n.withChild d x.addr)
  rw [withChild_cell] at h₅
  obtain ⟨T₆, hset₆, hroot₆, h₆⟩ := exists_set (h₅.of_eq
    ({(x.addr, cell c x (parentPtr ctx) d (rootPtr A) (rootPtr B))}
      + ({(y.addr, cell c' y (parentPtr ctx) d x.addr (rootPtr C))}
        + (cells x.addr A + cells x.addr B + cells y.addr C + around y.addr ctx + r))) (by abel))
    (fun n => { n with parent := y.addr })
  rw [withParent_cell] at h₆
  have hlist := toList_plug_congr (RBTree.toList_rotate d c c' c' c x y A B C).symm ctx
  refine ⟨T₆, ?_, Rep.of_split_branch (hroot₆.trans (hroot₅.trans hroot₄)) (h₆.of_eq _ ?_), hlist⟩
  · unfold rbRotate
    refine bind_of_eq h.childOf_flip_focus ?_
    rw [rootPtr_branch]
    refine bind_of_eq ((childOf_eq hy d).trans (congrArg some (child_cell ..))) ?_
    refine bind_of_eq hset₁ (bind_of_eq hset₂ ?_)
    refine bind_of_eq ((parentOf_eq hx₂).trans (congrArg some (parent_cell ..))) ?_
    exact bind_of_eq hset₃ (bind_of_eq hset₄ (bind_of_eq hset₅ hset₆))
  · rw [cells_branch, rootPtr_branch]
    abel

/-- **A rotation towards the other side.** -/
theorem rotate_flip_eq (h : Rep T (plug (branch d c x (branch d c' y C B) A) ctx) next r) :
    ∃ T', rbRotate d.flip T x.addr = some T'
      ∧ Reshaped T' (plug (branch d c' y C (branch d c x B A)) ctx)
        (plug (branch d c x (branch d c' y C B) A) ctx) next r := by
  rw [← RBTree.branch_flip d c x, ← RBTree.branch_flip d c' y] at h
  obtain ⟨T', hrun, h'⟩ := rotate_eq h
  refine ⟨T', hrun, ?_⟩
  rwa [RBTree.branch_flip, RBTree.branch_flip, RBTree.branch_flip, RBTree.branch_flip] at h'

/-! ## Colours -/

/-- The test for a black node, or none. -/
theorem isBlack_eq (h : Rep T (plug t ctx) next r) :
    isBlack T (rootPtr t) = some (decide (t.color = .black)) := by
  unfold isBlack
  cases t with
  | nil => exact if_pos rfl
  | node c l e r =>
    have hfocus : Rep T (plug (branch .left c e l r) ctx) _ _ := h
    exact (if_neg hfocus.addr_ne_zero).trans (bind_of_eq hfocus.colorOf_focus rfl)

/-- The focus as seen from its sibling. -/
theorem rep_sibling (h : Rep T (plug t (⟨d, c, p, s⟩ :: ctx)) next r) :
    Rep T (plug s (⟨d.flip, c, p, t⟩ :: ctx)) next r := by
  rwa [plug_flip]

/-- **Another colour** for the sibling of the focus. -/
theorem recolor_sibling {e : Entry α} (h : Rep T (plug t (⟨d, c, p, branch d' c' e A B⟩ :: ctx)) next r)
    (k : Color) : ∃ T', T.setColor e.addr k = some T'
      ∧ Reshaped T' (plug t (⟨d, c, p, branch d' k e A B⟩ :: ctx))
        (plug t (⟨d, c, p, branch d' c' e A B⟩ :: ctx)) next r := by
  have hs : Rep T (plug (branch d' c' e A B) (⟨d.flip, c, p, t⟩ :: ctx)) next r := rep_sibling h
  obtain ⟨T', hset, h'⟩ := hs.recolor k
  rw [plug_flip, plug_flip] at h'
  exact ⟨T', hset, h'⟩

/-- **A black parent and a red grandparent**, which is what a repair leaves. -/
theorem setBlackred_eq (h : Rep T (plug (branch d' c' g (branch d c p t s) u) ctx) next r) :
    ∃ T', rbSetBlackred T p.addr g.addr = some T'
      ∧ Reshaped T' (plug (branch d' .red g (branch d .black p t s) u) ctx)
        (plug (branch d' c' g (branch d c p t s) u) ctx) next r := by
  obtain ⟨T₁, hset₁, h₁⟩ := (show Rep T (plug (branch d c p t s) (⟨d', c', g, u⟩ :: ctx)) next r from
    h).recolor .black
  obtain ⟨T₂, hset₂, h₂⟩ := (show Rep T₁ (plug (branch d' c' g (branch d .black p t s) u) ctx) next r from
    h₁.rep).recolor .red
  exact ⟨T₂, bind_of_eq hset₁ hset₂, Reshaped.trans h₁ h₂⟩

/-! ## Repairing after an insertion -/

/-- **The invariant of the insertion loop**: the focus `elm` is a balanced red subtree, in a
context for a black one. -/
structure Inserting (T : LinkedTree α) (elm : Ptr) (t : RBTree (Entry α)) (ctx : List (Frame (Entry α)))
    (n : ℕ) (next : Ptr) (r : Multiset (Ptr × LinkedNode α)) : Prop where
  rep : Rep T (plug t ctx) next r
  elm_eq : elm = rootPtr t
  bal : Balanced t .red n
  fits : Fits ctx .black n

theorem Inserting.parentOf_eq {elm : Ptr} (h : Inserting T elm t ctx n next r) :
    T.parentOf elm = some (parentPtr ctx) := by
  obtain ⟨e, x, y, rfl, -⟩ := h.bal.exists_branch_red .left
  rw [h.elm_eq, rootPtr_branch]
  exact h.rep.parentOf_focus

/-- **A red uncle**: the parent and the uncle become black and the grandparent red, and the
defect is now at the grandparent. -/
theorem insertStep_red {elm : Ptr}
    (h : Inserting T elm t (⟨d, .red, p, s⟩ :: ⟨d', .black, g, u⟩ :: ctx) n next r)
    (hs : Balanced s .black n) (hu : Balanced u .red n) (hctx : Fits ctx .black (n + 1)) :
    ∃ T' t', rbInsertColorStep d' T elm p.addr g.addr = some (T', g.addr)
      ∧ Inserting T' g.addr t' ctx (n + 1) next r
      ∧ (plug t' ctx).toList = (plug t (⟨d, .red, p, s⟩ :: ⟨d', .black, g, u⟩ :: ctx)).toList := by
  have hrep : Rep T (plug (branch d' .black g (branch d .red p t s) u) ctx) next r := h.rep
  have huncle := isBlack_eq (rep_sibling (show Rep T (plug (branch d .red p t s) (⟨d', .black, g, u⟩ :: ctx))
    next r from hrep))
  rw [hu.color_eq] at huncle
  obtain ⟨ue, u₁, u₂, rfl, hu₁, hu₂⟩ := hu.exists_branch_red .left
  -- the uncle becomes black, then the other two
  obtain ⟨T₁, hset₁, h₁⟩ := recolor_sibling (show Rep T (plug (branch d .red p t s)
    (⟨d', .black, g, branch .left .red ue u₁ u₂⟩ :: ctx)) next r from hrep) .black
  obtain ⟨T₂, hset₂, h₂⟩ := setBlackred_eq (show Rep T₁ (plug (branch d' .black g (branch d .red p t s)
    (branch .left .black ue u₁ u₂)) ctx) next r from h₁.rep)
  refine ⟨T₂, _, ?_, ⟨h₂.rep, (rootPtr_branch ..).symm, ?_, hctx⟩, (Reshaped.trans h₁ h₂).toList_eq⟩
  · unfold rbInsertColorStep
    refine bind_of_eq hrep.childOf_flip_focus (bind_of_eq huncle ?_)
    rw [rootPtr_branch]
    exact bind_of_eq hset₁ (bind_of_eq hset₂ rfl)
  · exact (h.bal.branch_black hs).branch_red (hu₁.branch_black hu₂)

/-- **The focus on the outer side**: a focus on the inner side is rotated with its parent, and
the former parent is the focus then. -/
theorem insertInner_eq {elm : Ptr} (h : Inserting T elm t (⟨d, .red, p, s⟩ :: ctx) n next r)
    (hs : Balanced s .black n) (d' : Side) :
    ∃ T' t' p' s', rbInsertInner d' T elm p.addr = some (T', rootPtr t', p'.addr)
      ∧ Balanced t' .red n ∧ Balanced s' .black n
      ∧ Reshaped T' (plug t' (⟨d', .red, p', s'⟩ :: ctx)) (plug t (⟨d, .red, p, s⟩ :: ctx)) next r := by
  have hrep : Rep T (plug (branch d .red p t s) ctx) next r := h.rep
  have hne : t ≠ .nil := by
    rintro rfl
    cases h.bal
  unfold rbInsertInner
  by_cases hd : d = d'
  · subst hd
    refine ⟨T, t, p, s, bind_of_eq hrep.childOf_flip_focus ?_, h.bal, hs, h.rep.reshaped⟩
    rw [h.elm_eq]
    exact if_neg (hrep.rootPtr_ne (Or.inl hne)).symm
  · obtain rfl := Side.eq_flip_of_ne hd
    obtain ⟨ze, B, C, rfl, hB, hC⟩ := h.bal.exists_branch_red d'
    have hrep' : Rep T (plug (branch d' .red p s (branch d' .red ze B C)) ctx) next r := by
      rw [← RBTree.branch_flip]
      exact hrep
    obtain ⟨T', hrun, h'⟩ := rotate_eq hrep'
    refine ⟨T', branch d' .red p s B, ze, C, bind_of_eq hrep.childOf_focus ?_, hs.branch_red hB, hC, ?_⟩
    · have helm : elm = ze.addr := h.elm_eq.trans rootPtr_branch
      rw [rootPtr_branch, rootPtr_branch, helm]
      exact (if_pos rfl).trans (bind_of_eq hrun rfl)
    · rw [plug_flip]
      exact h'

/-- **No red uncle**: the parent takes the place of the grandparent, and the tree is repaired. -/
theorem insertStep_black {elm : Ptr}
    (h : Inserting T elm t (⟨d, .red, p, s⟩ :: ⟨d', .black, g, u⟩ :: ctx) n next r)
    (hs : Balanced s .black n) (hu : Balanced u .black n) (hctx : Fits ctx .black (n + 1)) :
    ∃ T' elm' t' p' s', rbInsertColorStep d' T elm p.addr g.addr = some (T', elm')
      ∧ Inserting T' elm' t' (⟨d', .black, p', s'⟩ :: ctx) n next r
      ∧ (plug t' (⟨d', .black, p', s'⟩ :: ctx)).toList
        = (plug t (⟨d, .red, p, s⟩ :: ⟨d', .black, g, u⟩ :: ctx)).toList := by
  have hrep : Rep T (plug (branch d' .black g (branch d .red p t s) u) ctx) next r := h.rep
  have huncle := isBlack_eq (rep_sibling (show Rep T (plug (branch d .red p t s) (⟨d', .black, g, u⟩ :: ctx))
    next r from hrep))
  rw [hu.color_eq] at huncle
  obtain ⟨T₁, t', p', s', hinner, ht', hs', h₁⟩ := insertInner_eq h hs d'
  obtain ⟨T₂, hset₂, h₂⟩ := setBlackred_eq (show Rep T₁ (plug (branch d' .black g (branch d' .red p' t' s') u)
    ctx) next r from h₁.rep)
  obtain ⟨T₃, hrun₃, h₃⟩ := rotate_flip_eq h₂.rep
  refine ⟨T₃, rootPtr t', t', p', branch d' .red g s' u, ?_, ⟨h₃.rep, rfl, ht', ?_, hctx⟩,
    ((Reshaped.trans h₁ h₂).trans h₃).toList_eq⟩
  · unfold rbInsertColorStep
    refine bind_of_eq hrep.childOf_flip_focus (bind_of_eq huncle ?_)
    exact bind_of_eq hinner (bind_of_eq hset₂ (bind_of_eq hrun₃ rfl))
  · exact ⟨_, hs'.branch_red hu⟩

/-- **The loop of `RB_INSERT_COLOR`** ends with the tree repaired, but for the colour of the root. -/
theorem insertColorLoop_eq (k : ℕ) : ∀ {T : LinkedTree α} {elm : Ptr} {t : RBTree (Entry α)}
    {ctx : List (Frame (Entry α))} {n fuel : ℕ}, Inserting T elm t ctx n next r → ctx.length ≤ k →
    ctx.length < fuel → ∃ T' W' m, rbInsertColorLoop fuel T elm = some T'
      ∧ Reshaped T' W' (plug t ctx) next r ∧ Balanced (W'.recolor .black) .black m := by
  induction k using Nat.strong_induction_on with
  | _ k ih =>
    intro T elm t ctx n fuel h hk hfuel
    obtain ⟨fuel, rfl⟩ := Nat.exists_eq_add_of_lt hfuel
    have hparent := h.parentOf_eq
    unfold rbInsertColorLoop
    cases ctx with
    | nil =>
      exact ⟨T, t, n + 1, bind_of_eq hparent (if_pos rfl), h.rep.reshaped, h.bal.recolor_black⟩
    | cons f ctx =>
      obtain ⟨d, fc, p, s⟩ := f
      have hp : Rep T (plug (branch d fc p t s) ctx) next r := h.rep
      cases fc with
      | black =>
        -- the parent is black, so the tree is balanced
        obtain ⟨⟨cs, hs⟩, hrest⟩ := h.fits
        obtain ⟨m, hm⟩ := (h.bal.branch_black hs (d := d) (a := p)).plug hrest
        refine ⟨T, _, m, ?_, h.rep.reshaped, ?_⟩
        · refine bind_of_eq hparent ((if_neg hp.addr_ne_zero).trans ?_)
          exact bind_of_eq hp.colorOf_focus (if_pos (by decide))
        · rw [show plug t (⟨d, .black, p, s⟩ :: ctx) = plug (branch d .black p t s) ctx from rfl, hm.recolor_self]
          exact hm
      | red =>
        obtain ⟨-, hs, hrest⟩ := h.fits
        obtain ⟨d', g, u, ctx', rfl, ⟨cu, hu⟩, hctx⟩ := hrest.of_red
        have hg : Rep T (plug (branch d' .black g (branch d .red p t s) u) ctx') next r := h.rep
        have hgp : T.parentOf p.addr = some g.addr := hp.parentOf_focus
        have hparent : T.parentOf elm = some p.addr := hparent
        obtain ⟨l, hl, hside⟩ := Rep.side_eq (show Rep T (plug (branch d .red p t s)
          (⟨d', .black, g, u⟩ :: ctx')) next r from hg) (Or.inl (fun h => RBTree.branch_ne_nil _ _ _ _ _ h))
        rw [rootPtr_branch] at hside
        -- a red uncle leaves the defect at the grandparent, and otherwise it is gone in the next round
        have hround : ∃ T₁ elm₁ t₁ ctx₁ n₁, rbInsertColorStep d' T elm p.addr g.addr = some (T₁, elm₁)
            ∧ Inserting T₁ elm₁ t₁ ctx₁ n₁ next r ∧ ctx₁.length ≤ ctx'.length + 1
            ∧ (plug t₁ ctx₁).toList = (plug t (⟨d, .red, p, s⟩ :: ⟨d', .black, g, u⟩ :: ctx')).toList := by
          cases cu with
          | red =>
            obtain ⟨T₁, t₁, hrun, h₁, hlist⟩ := insertStep_red h hs hu hctx
            exact ⟨T₁, g.addr, t₁, ctx', n + 1, hrun, h₁, Nat.le_succ _, hlist⟩
          | black =>
            obtain ⟨T₁, elm₁, t₁, p₁, s₁, hrun, h₁, hlist⟩ := insertStep_black h hs hu hctx
            exact ⟨T₁, elm₁, t₁, _, n, hrun, h₁, le_rfl, hlist⟩
        obtain ⟨T₁, elm₁, t₁, ctx₁, n₁, hrun, h₁, hlen, hlist⟩ := hround
        rw [List.length_cons, List.length_cons] at hk
        obtain ⟨T', W', m, hloop, hW', hbal⟩ := ih (k - 1) (by omega) h₁ (by omega)
          (show ctx₁.length < (⟨d, .red, p, s⟩ :: ⟨d', .black, g, u⟩ :: ctx').length + fuel by
            rw [List.length_cons, List.length_cons]
            omega)
        refine ⟨T', W', m, ?_, ⟨hW'.rep, hW'.toList_eq.trans hlist⟩, hbal⟩
        refine bind_of_eq hparent ((if_neg hp.addr_ne_zero).trans (bind_of_eq hp.colorOf_focus ?_))
        refine (if_neg (not_not.mpr rfl)).trans (bind_of_eq hgp (bind_of_eq hl ?_))
        rw [hside]
        exact bind_of_eq hrun hloop

/-- **`RB_INSERT_COLOR`** leaves a red-black tree. -/
theorem insertColor_eq {elm : Ptr} (h : Inserting T elm t ctx n next r) :
    ∃ T' W' m, rbInsertColor T elm = some T' ∧ Reshaped T' W' (plug t ctx) next r
      ∧ Balanced W' .black m := by
  obtain ⟨T₁, W₁, m, hloop, h₁, hbal⟩ := insertColorLoop_eq ctx.length h le_rfl
    (h.rep.length_ctx_lt.trans_eq h.rep.next_eq.symm)
  cases W₁ with
  | nil =>
    -- the focus is an element
    have hlist := h₁.toList_eq
    rw [toList_plug] at hlist
    obtain ⟨e, x, y, rfl, -⟩ := h.bal.exists_branch_red .left
    have hlen := congrArg List.length hlist
    simp [branch, toList] at hlen
  | node c l e u =>
    have hfocus : Rep T₁ (plug (branch .left c e l u) []) next r := h₁.rep
    obtain ⟨T₂, hset, h₂⟩ := hfocus.recolor .black
    refine ⟨T₂, _, m, bind_of_eq hloop ?_, Reshaped.trans h₁ h₂, hbal⟩
    rw [h₁.rep.root_eq]
    exact hset

/-! ## Going down -/

/-- **A comparison orders by a key.** -/
structure Orders {κ : Type} [LinearOrder κ] (cmp : α → α → ℤ) (key : α → κ) : Prop where
  neg_iff : ∀ a b, cmp a b < 0 ↔ key a < key b
  pos_iff : ∀ a b, 0 < cmp a b ↔ key b < key a

/-- The key of an entry. -/
def entryKey {κ : Type} (key : α → κ) (e : Entry α) : κ := key e.elem

/-- The last comparison tells the side that the focus is on. -/
def Turned (comp : ℤ) : List (Frame (Entry α)) → Prop
  | [] => True
  | f :: _ => comp < 0 ↔ f.side = .left

/-- The pointer to the first of some nodes, or null. -/
def firstPtr (l : List (Entry α)) : Ptr := (l.head?.map Entry.addr).getD 0

section Descend

variable {κ : Type} [LinearOrder κ] {cmp : α → α → ℤ} {key : α → κ} {elm : Ptr} {nd : LinkedNode α} {comp : ℤ}

/-- The three ways a loop goes on are told apart by the keys. -/
theorem Orders.branch_eq {β : Type} (ho : Orders cmp key) (a b : α) (x y z : β) :
    (if cmp a b < 0 then x else if cmp a b > 0 then y else z)
      = if key a < key b then x else if key b < key a then y else z := by
  simp only [gt_iff_lt, ho.neg_iff, ho.pos_iff]

/-- **The loop of `RB_INSERT`** ends where the key belongs. -/
theorem insertDescend_eq (ho : Orders cmp key) (helm : T.nodes.load elm = some nd) (t : RBTree (Entry α))
    (ctx : List (Frame (Entry α))) : ∀ (comp : ℤ) (fuel : ℕ), Rep T (plug t ctx) next r →
      Turned comp ctx → t.toList.length < fuel →
      ∃ place, rbInsertDescend cmp T elm fuel (rootPtr t) (parentPtr ctx) comp = some place
        ∧ ((∃ c l e u, (zoom (entryKey key) (key nd.elem) t ctx).1 = node c l e u ∧ place = .found e.addr)
          ∨ ((zoom (entryKey key) (key nd.elem) t ctx).1 = .nil ∧ ∃ comp',
            place = .below (parentPtr (zoom (entryKey key) (key nd.elem) t ctx).2) comp'
            ∧ Turned comp' (zoom (entryKey key) (key nd.elem) t ctx).2)) := by
  have hstep : ∀ {c : Color} {l : RBTree (Entry α)} {e : Entry α} {u : RBTree (Entry α)}
      {ctx : List (Frame (Entry α))} {comp : ℤ} {fuel : ℕ}, Rep T (plug (node c l e u) ctx) next r →
      rbInsertDescend cmp T elm (fuel + 1) e.addr (parentPtr ctx) comp
        = if key nd.elem < key e.elem then
            rbInsertDescend cmp T elm fuel (rootPtr l) e.addr (cmp nd.elem e.elem)
          else if key e.elem < key nd.elem then
            rbInsertDescend cmp T elm fuel (rootPtr u) e.addr (cmp nd.elem e.elem)
          else some (.found e.addr) := by
    intro c l e u ctx comp fuel h
    have hfocus : Rep T (plug (branch .left c e l u) ctx) next r := h
    have hright : T.childOf .right e.addr = some (rootPtr u) := hfocus.childOf_flip_focus
    rw [← ho.branch_eq]
    refine (if_neg hfocus.addr_ne_zero).trans (bind_of_eq (elemOf_eq helm) ?_)
    refine bind_of_eq hfocus.elemOf_focus ?_
    simp only [hfocus.childOf_focus, hright, Option.bind_eq_bind, Option.bind_some]
    rfl
  fun_induction zoom (entryKey key) (key nd.elem) t ctx with
  | case1 ctx =>
    intro comp fuel h hcomp hfuel
    obtain ⟨fuel, rfl⟩ := Nat.exists_eq_add_of_lt hfuel
    exact ⟨_, if_pos rfl, Or.inr ⟨rfl, comp, rfl, hcomp⟩⟩
  | case2 c l e u ctx hlt ih =>
    intro comp fuel h hcomp hfuel
    simp only [toList, List.length_append, List.length_cons] at hfuel
    obtain ⟨fuel, rfl⟩ := Nat.exists_eq_add_of_lt hfuel
    obtain ⟨place, hrun, hplace⟩ := ih (cmp nd.elem e.elem)
      (l.toList.length + (u.toList.length + 1) + fuel) h
      (iff_of_true ((ho.neg_iff _ _).mpr hlt) rfl) (by omega)
    exact ⟨place, (hstep h).trans ((if_pos hlt).trans hrun), hplace⟩
  | case3 c l e u ctx hlt hgt ih =>
    intro comp fuel h hcomp hfuel
    simp only [toList, List.length_append, List.length_cons] at hfuel
    obtain ⟨fuel, rfl⟩ := Nat.exists_eq_add_of_lt hfuel
    obtain ⟨place, hrun, hplace⟩ := ih (cmp nd.elem e.elem)
      (l.toList.length + (u.toList.length + 1) + fuel) h
      (iff_of_false (fun h => hlt ((ho.neg_iff _ _).mp h)) Side.noConfusion) (by omega)
    exact ⟨place, (hstep h).trans ((if_neg hlt).trans ((if_pos hgt).trans hrun)), hplace⟩
  | case4 c l e u ctx hlt hgt =>
    intro comp fuel h hcomp hfuel
    simp only [toList, List.length_append, List.length_cons] at hfuel
    obtain ⟨fuel, rfl⟩ := Nat.exists_eq_add_of_lt hfuel
    exact ⟨_, (hstep h).trans ((if_neg hlt).trans (if_neg hgt)), Or.inl ⟨c, l, e, u, rfl, rfl⟩⟩

end Descend

/-! ## A new node -/

/-- **`RB_SET`** makes a red leaf of a node. -/
theorem rbSet_eq {elm : Ptr} {nd : LinkedNode α} {m : Multiset (Ptr × LinkedNode α)}
    (h : T.nodes.Holds next ({(elm, nd)} + m)) (parent : Ptr) :
    ∃ T', rbSet T elm parent = some T' ∧ T'.root = T.root
      ∧ T'.nodes.Holds next ({(elm, cell .red ⟨elm, nd.elem⟩ parent .left 0 0)} + m) := by
  obtain ⟨T₁, hset₁, hroot₁, h₁⟩ := exists_set h (fun n => { n with parent := parent })
  obtain ⟨T₂, hset₂, hroot₂, h₂⟩ := exists_set h₁ (fun n => n.withChild .right 0)
  obtain ⟨T₃, hset₃, hroot₃, h₃⟩ := exists_set h₂ (fun n => n.withChild .left 0)
  obtain ⟨T₄, hset₄, hroot₄, h₄⟩ := exists_set h₃ (fun n => { n with color := RB_RED })
  exact ⟨T₄, bind_of_eq hset₁ (bind_of_eq hset₂ (bind_of_eq hset₃ hset₄)),
    hroot₄.trans (hroot₃.trans (hroot₂.trans hroot₁)), h₄⟩

/-- **A node is linked** where the last comparison has led. -/
theorem link_eq {comp : ℤ} {p : Ptr} {m : Multiset (Ptr × LinkedNode α)}
    (h : T.nodes.Holds next (around p ctx + m)) (hroot : T.root = topPtr p ctx) (hcomp : Turned comp ctx)
    (q : Ptr) : ∃ T', (if parentPtr ctx ≠ 0 then
        if comp < 0 then T.setChild .left (parentPtr ctx) q else T.setChild .right (parentPtr ctx) q
      else some { T with root := q }) = some T' ∧ T'.root = topPtr q ctx
      ∧ T'.nodes.Holds next (around q ctx + m) := by
  cases ctx with
  | nil => exact ⟨{ T with root := q }, if_neg (not_not.mpr rfl), rfl, h⟩
  | cons f ctx =>
    obtain ⟨d, c, e, s⟩ := f
    have hnode := h.of_eq ({(e.addr, cell c e (parentPtr ctx) d p (rootPtr s))}
      + (cells e.addr s + around e.addr ctx + m)) (by rw [around]; abel)
    have hne : e.addr ≠ 0 := Heap.ne_null_of_load hnode.load
    obtain ⟨T', hset, hroot', hT'⟩ := exists_set hnode (fun n => n.withChild d q)
    rw [withChild_cell] at hT'
    refine ⟨T', (if_pos hne).trans ?_, hroot'.trans hroot, hT'.of_eq _ (by rw [around]; abel)⟩
    cases d with
    | left => exact (if_pos (hcomp.mpr rfl)).trans hset
    | right => exact (if_neg (fun h => Side.noConfusion (hcomp.mp h))).trans hset

section Insert

variable {κ : Type} [LinearOrder κ] {cmp : α → α → ℤ} {key : α → κ} {W : RBTree (Entry α)} {elm : Ptr}
  {nd : LinkedNode α} {m : ℕ}

/-- **`RB_INSERT` of a key that is there** gives the node that has it, and changes nothing. -/
theorem insert_found (ho : Orders cmp key) (h : Rep T W next r) (helm : T.nodes.load elm = some nd)
    (hs : Sorted (entryKey key) W.toList) (he : e ∈ W.toList) (hkey : key e.elem = key nd.elem) :
    rbInsert cmp T elm = some (e.addr, T) := by
  obtain ⟨place, hrun, hplace⟩ := insertDescend_eq ho helm W [] 0 T.nodes.next h
    trivial (h.length_lt.trans_eq h.next_eq.symm)
  obtain ⟨c, l, u, hz⟩ := zoom_eq_node hs he hkey
  rw [hz] at hplace
  rcases hplace with ⟨c', l', e', u', heq, rfl⟩ | ⟨heq, -⟩
  · obtain ⟨-, -, rfl, -⟩ := RBTree.node.inj heq
    unfold rbInsert
    rw [h.root_eq]
    exact bind_of_eq hrun rfl
  · cases heq

/-- **`RB_INSERT` of a new key** puts the node in its place in a red-black tree. -/
theorem insert_new (ho : Orders cmp key) (h : Rep T W next ({(elm, nd)} + r))
    (hbal : Balanced W .black m) (hs : Sorted (entryKey key) W.toList)
    (hnew : ∀ e ∈ W.toList, key e.elem ≠ key nd.elem) :
    ∃ T' W' m' xs ys, rbInsert cmp T elm = some (0, T') ∧ Rep T' W' next r ∧ Balanced W' .black m'
      ∧ Sorted (entryKey key) W'.toList
      ∧ W.toList = xs ++ ys ∧ W'.toList = xs ++ ⟨elm, nd.elem⟩ :: ys := by
  have helm : T.nodes.load elm = some nd := h.holds.mem (by simp)
  obtain ⟨place, hrun, hplace⟩ := insertDescend_eq ho helm W [] 0 T.nodes.next h
    trivial (h.length_lt.trans_eq h.next_eq.symm)
  have hz : (zoom (entryKey key) (key nd.elem) W []).1 = .nil := zoom_eq_nil hnew
  have haround := (around_nil (entryKey key) (key nd.elem)).zoom hs
  have hplug := plug_zoom (entryKey key) (key nd.elem) W []
  rw [hz] at hplace hplug
  generalize (zoom (entryKey key) (key nd.elem) W []).2 = ctx at hplace haround hplug
  obtain ⟨c, l, e', u, heq, -⟩ | ⟨-, comp, rfl, hcomp⟩ := hplace
  · cases heq
  obtain rfl : plug .nil ctx = W := hplug
  obtain ⟨c, n, hnil, hfits⟩ := exists_fits hbal
  cases hnil
  -- the node becomes a red leaf, and is linked where the key belongs
  have hsplit := h.split
  obtain ⟨T₁, hset₁, hroot₁, h₁⟩ := rbSet_eq (hsplit.of_eq ({(elm, nd)} + (around 0 ctx + r))
    (by rw [cells, rootPtr]; abel)) (parentPtr ctx)
  obtain ⟨T₂, hset₂, hroot₂, h₂⟩ := link_eq (h₁.of_eq (around 0 ctx
    + ({(elm, cell .red ⟨elm, nd.elem⟩ (parentPtr ctx) .left 0 0)} + r)) (by abel))
    (hroot₁.trans (h.root_eq.trans rootPtr_plug)) hcomp elm
  have hrep₂ : Rep T₂ (plug (branch .left .red ⟨elm, nd.elem⟩ .nil .nil) ctx) next r := by
    refine Rep.of_split_branch hroot₂ (h₂.of_eq _ ?_)
    show _ = {(elm, cell .red ⟨elm, nd.elem⟩ (parentPtr ctx) .left 0 0)} + (0 + 0 + around elm ctx + r)
    abel
  have hI : Inserting T₂ elm (branch .left .red ⟨elm, nd.elem⟩ .nil .nil) ctx 0 next r :=
    ⟨hrep₂, rfl, Balanced.nil.branch_red .nil, hfits⟩
  obtain ⟨T₃, W', m', hcolor, h₃, hbal'⟩ := insertColor_eq hI
  have hW' : W'.toList = before ctx ++ ⟨elm, nd.elem⟩ :: after ctx := by
    rw [h₃.toList_eq, toList_plug]
    simp [branch, toList]
  have hW : (plug .nil ctx).toList = before ctx ++ after ctx := by
    rw [toList_plug, toList, List.append_nil]
  refine ⟨T₃, W', m', before ctx, after ctx, ?_, h₃.rep, hbal', ?_, hW, hW'⟩
  · unfold rbInsert
    rw [h.root_eq]
    exact bind_of_eq hrun (bind_of_eq hset₁ (bind_of_eq hset₂ (bind_of_eq hcolor rfl)))
  · rw [hW] at hs
    rw [hW']
    exact hs.insert haround.before haround.after

end Insert

end NtyTree
