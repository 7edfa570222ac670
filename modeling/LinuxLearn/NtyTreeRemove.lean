import LinuxLearn.NtyTreeWalk

/-!
# Removal

`RB_REMOVE` unlinks a node with at most one child, or puts the successor of the node, which is
unlinked for that, in its place. Unlinking a black node leaves the subtree that takes its place
one black node short. The loop of `RB_REMOVE_COLOR` moves this defect up while the sibling and
its children are black, and removes it by rotations when one of them is red. Its invariant is
`Removing`. The focus may be empty, and a null pointer has no parent, so the loop carries the
parent along.
-/

open RedBlack LinkedTree SearchTree
open RedBlack.RBTree (plug branch node toList)

namespace NtyTree

variable {α : Type} {T : LinkedTree α} {t s u a b W : RBTree (Entry α)} {ctx : List (Frame (Entry α))}
  {d : Side} {c c' : Color} {e p w : Entry α} {next : Ptr} {r : Multiset (Ptr × LinkedNode α)} {n : ℕ}

/-! ## Repairing after a removal -/

/-- **The invariant of the removal loop**: the focus is a balanced black subtree one short of its
context, or has a red root and is not short once that is black. -/
structure Removing (T : LinkedTree α) (t : RBTree (Entry α)) (ctx : List (Frame (Entry α))) (n : ℕ)
    (next : Ptr) (r : Multiset (Ptr × LinkedNode α)) : Prop where
  rep : Rep T (plug t ctx) next r
  short : Balanced t .black n ∨ (t.color = .red ∧ Balanced (t.recolor .black) .black (n + 1))
  fits : Fits ctx .black (n + 1)

/-- **A red sibling** is rotated above the parent, and the new sibling is black. -/
theorem removeRedSibling_eq (h : Rep T (plug t (⟨d, c, p, s⟩ :: ctx)) next r)
    (hfits : Fits (⟨d, c, p, s⟩ :: ctx) .black (n + 1)) :
    ∃ T' c' s' ctx', rbRemoveRedSibling d T p.addr = some (T', rootPtr s')
      ∧ Reshaped T' (plug t (⟨d, c', p, s'⟩ :: ctx')) (plug t (⟨d, c, p, s⟩ :: ctx)) next r
      ∧ Balanced s' .black (n + 1) ∧ Fits (⟨d, c', p, s'⟩ :: ctx') .black (n + 1)
      ∧ (c' = .red ∨ ctx'.length ≤ ctx.length) := by
  have hp : Rep T (plug (branch d c p t s) ctx) next r := h
  unfold rbRemoveRedSibling
  obtain hbal | ⟨rfl, hbal, hctx⟩ : Balanced s .black (n + 1)
      ∨ c = .black ∧ Balanced s .red (n + 1) ∧ Fits ctx .black (n + 1 + 1) := by
    cases c with
    | red => exact Or.inl hfits.2.1
    | black =>
      obtain ⟨⟨k, hbal⟩, hctx⟩ := hfits
      cases k with
      | black => exact Or.inl hbal
      | red => exact Or.inr ⟨rfl, hbal, hctx⟩
  · obtain ⟨w, x, y, -, -, rfl, -⟩ := hbal.exists_branch_black d
    refine ⟨T, c, _, ctx, bind_of_eq hp.childOf_flip_focus ?_, h.reshaped, hbal, hfits, Or.inr le_rfl⟩
    rw [rootPtr_branch]
    exact bind_of_eq (rep_sibling h).colorOf_focus (if_neg (by decide))
  · obtain ⟨w, x, y, rfl, hx, hy⟩ := hbal.exists_branch_red d
    -- the sibling becomes black, the parent red, and they are rotated
    have hflip : Rep T (plug (branch d.flip .black p (branch d .red w x y) t) ctx) next r := by
      rwa [RBTree.branch_flip]
    obtain ⟨T₁, hset, h₁⟩ := setBlackred_eq hflip
    rw [RBTree.branch_flip, RBTree.branch_flip] at h₁
    obtain ⟨T₂, hrot, h₂⟩ := rotate_eq h₁.rep
    have hp₂ : Rep T₂ (plug (branch d .red p t x) (⟨d, .black, w, y⟩ :: ctx)) next r := h₂.rep
    refine ⟨T₂, .red, x, ⟨d, .black, w, y⟩ :: ctx, bind_of_eq hp.childOf_flip_focus ?_,
      Reshaped.trans h₁ h₂, hx, ⟨rfl, hx, ⟨_, hy⟩, hctx⟩, Or.inl rfl⟩
    rw [rootPtr_branch]
    refine bind_of_eq (rep_sibling h).colorOf_focus ((if_pos rfl).trans (bind_of_eq hset ?_))
    exact bind_of_eq hrot (bind_of_eq hp₂.childOf_flip_focus rfl)

/-- The test for black children. -/
theorem childrenBlack_eq (h : Rep T (plug (branch d c w a b) ctx) next r) :
    rbChildrenBlack T w.addr = some (decide (a.color = .black ∧ b.color = .black)) := by
  have ha := isBlack_eq (show Rep T (plug a (⟨d, c, w, b⟩ :: ctx)) next r from h)
  have hb := isBlack_eq (rep_sibling (show Rep T (plug a (⟨d, c, w, b⟩ :: ctx)) next r from h))
  -- the program looks at the left child first
  have htest : ∀ {x y : RBTree (Entry α)}, T.childOf .left w.addr = some (rootPtr x) →
      T.childOf .right w.addr = some (rootPtr y) →
      isBlack T (rootPtr x) = some (decide (x.color = .black)) →
      isBlack T (rootPtr y) = some (decide (y.color = .black)) →
      rbChildrenBlack T w.addr = some (decide (x.color = .black ∧ y.color = .black)) := by
    intro x y hx hy hbx hby
    unfold rbChildrenBlack
    refine bind_of_eq hx (bind_of_eq hbx ?_)
    by_cases hxb : x.color = .black
    · rw [decide_eq_true hxb, if_pos rfl]
      refine bind_of_eq hy (hby.trans ?_)
      simp [hxb]
    · rw [decide_eq_false hxb, if_neg Bool.false_ne_true]
      simp [hxb]
  cases d with
  | left => exact htest h.childOf_focus h.childOf_flip_focus ha hb
  | right =>
    refine (htest h.childOf_flip_focus h.childOf_focus hb ha).trans ?_
    exact congrArg some (decide_eq_decide.mpr and_comm)

/-- A pointer that is tested before it is written through, to a node that is there. -/
theorem setColor_of_ne_zero {q : Ptr} (hq : q ≠ 0) (k : Color) :
    (if q ≠ 0 then T.setColor q k else some T) = T.setColor q k := if_pos hq

/-- **A far child that is black**, beside a red near child, is exchanged for a red one. -/
theorem removeFarBlack_eq (h : Rep T (plug t (⟨d, c, p, branch d .black w a b⟩ :: ctx)) next r)
    {k₁ k₂ : Color} (ha : Balanced a k₁ n) (hb : Balanced b k₂ n)
    (hred : ¬ (a.color = .black ∧ b.color = .black)) :
    ∃ T' w' a' b' k', rbRemoveFarBlack d T p.addr w.addr = some (T', w'.addr)
      ∧ Reshaped T' (plug t (⟨d, c, p, branch d .black w' a' b'⟩ :: ctx))
        (plug t (⟨d, c, p, branch d .black w a b⟩ :: ctx)) next r
      ∧ Balanced a' k' n ∧ Balanced b' .red n := by
  have hw := rep_sibling h
  have hfar := isBlack_eq (rep_sibling (show Rep T (plug a (⟨d, .black, w, b⟩ :: ⟨d.flip, c, p, t⟩ :: ctx))
    next r from hw))
  rw [hb.color_eq] at hfar
  unfold rbRemoveFarBlack
  cases k₂ with
  | red => exact ⟨T, w, a, b, k₁, bind_of_eq hw.childOf_flip_focus (bind_of_eq hfar rfl), h.reshaped, ha, hb⟩
  | black =>
    obtain rfl : k₁ = .red := by
      cases k₁ with
      | red => rfl
      | black => exact absurd ⟨ha.color_eq, hb.color_eq⟩ hred
    obtain ⟨v, x, y, rfl, hx, hy⟩ := ha.exists_branch_red d
    -- the near child becomes black, the sibling red, and they are rotated
    have hv : Rep T (plug (branch d .red v x y) (⟨d, .black, w, b⟩ :: ⟨d.flip, c, p, t⟩ :: ctx)) next r := hw
    obtain ⟨T₁, hset₁, h₁⟩ := hv.recolor .black
    obtain ⟨T₂, hset₂, h₂⟩ := (show Rep T₁ (plug (branch d .black w (branch d .black v x y) b)
      (⟨d.flip, c, p, t⟩ :: ctx)) next r from h₁.rep).recolor .red
    obtain ⟨T₃, hrot, h₃⟩ := rotate_flip_eq h₂.rep
    have hreshaped : Reshaped T₃ (plug (branch d .black v x (branch d .red w y b)) (⟨d.flip, c, p, t⟩ :: ctx))
        (plug (branch d .black w (branch d .red v x y) b) (⟨d.flip, c, p, t⟩ :: ctx)) next r :=
      Reshaped.trans h₁ (Reshaped.trans h₂ h₃)
    rw [plug_flip, plug_flip] at hreshaped
    have hp₃ : Rep T₃ (plug (branch d c p t (branch d .black v x (branch d .red w y b))) ctx) next r :=
      hreshaped.rep
    have hwv := hp₃.childOf_flip_focus
    rw [rootPtr_branch] at hwv
    refine ⟨T₃, v, x, branch d .red w y b, .black, ?_, hreshaped, hx, hy.branch_red hb⟩
    refine bind_of_eq hw.childOf_flip_focus (bind_of_eq hfar ((if_pos rfl).trans ?_))
    refine bind_of_eq hw.childOf_focus ?_
    rw [rootPtr_branch, setColor_of_ne_zero hv.addr_ne_zero]
    exact bind_of_eq hset₁ (bind_of_eq hset₂ (bind_of_eq hrot (bind_of_eq hwv rfl)))

/-- **A far child that is red** makes up for the missing black node. -/
theorem removeFarRed_eq (h : Rep T (plug t (⟨d, c, p, branch d .black w a b⟩ :: ctx)) next r)
    {k₁ : Color} (ht : Balanced t .black n) (ha : Balanced a k₁ n) (hb : Balanced b .red n)
    (hfits : Fits (⟨d, c, p, branch d .black w a b⟩ :: ctx) .black (n + 1)) :
    ∃ T' W' m, rbRemoveFarRed d T p.addr w.addr = some T'
      ∧ Reshaped T' W' (plug t (⟨d, c, p, branch d .black w a b⟩ :: ctx)) next r
      ∧ Balanced W' .black m := by
  obtain ⟨v, x, y, rfl, hx, hy⟩ := hb.exists_branch_red d
  have hp : Rep T (plug (branch d c p t (branch d .black w a (branch d .red v x y))) ctx) next r := h
  -- the sibling takes the parent's colour, the parent and the far child become black
  obtain ⟨T₁, hset₁, h₁⟩ := recolor_sibling h c
  obtain ⟨T₂, hset₂, h₂⟩ := (show Rep T₁ (plug (branch d c p t _) ctx) next r from h₁.rep).recolor .black
  have hw₂ : Rep T₂ (plug a (⟨d, c, w, branch d .red v x y⟩ :: ⟨d.flip, .black, p, t⟩ :: ctx)) next r :=
    rep_sibling (show Rep T₂ (plug t (⟨d, .black, p, branch d c w a (branch d .red v x y)⟩ :: ctx)) next r
      from h₂.rep)
  have hfar := Rep.childOf_flip_focus (show Rep T₂ (plug (branch d c w a (branch d .red v x y))
    (⟨d.flip, .black, p, t⟩ :: ctx)) next r from hw₂)
  rw [rootPtr_branch] at hfar
  obtain ⟨T₃, hset₃, h₃⟩ := recolor_sibling hw₂ .black
  have h₃' : Reshaped T₃ (plug (branch d c w a (branch d .black v x y)) (⟨d.flip, .black, p, t⟩ :: ctx))
      (plug (branch d c w a (branch d .red v x y)) (⟨d.flip, .black, p, t⟩ :: ctx)) next r := h₃
  rw [plug_flip, plug_flip] at h₃'
  obtain ⟨T₄, hrot, h₄⟩ := rotate_eq (show Rep T₃ (plug (branch d .black p t
    (branch d c w a (branch d .black v x y))) ctx) next r from h₃'.rep)
  have hnear := ht.branch_black ha (d := d) (a := p)
  have houter := hx.branch_black hy (d := d) (a := v)
  obtain ⟨m, hm⟩ : ∃ m, Balanced (plug (branch d c w (branch d .black p t a) (branch d .black v x y)) ctx)
      .black m := by
    cases c with
    | red => exact (hnear.branch_red houter).plug hfits.2.2
    | black => exact (hnear.branch_black houter).plug hfits.2
  refine ⟨T₄, _, m, ?_, Reshaped.trans h₁ (Reshaped.trans h₂ (Reshaped.trans h₃' h₄)), hm⟩
  unfold rbRemoveFarRed
  refine bind_of_eq hp.colorOf_focus (bind_of_eq hset₁ (bind_of_eq hset₂ (bind_of_eq hfar ?_)))
  rw [setColor_of_ne_zero (rep_sibling hw₂).addr_ne_zero]
  exact bind_of_eq hset₃ hrot

/-- **One round of the loop**: the defect is gone, or it is closer to the root, or at a red node. -/
theorem removeColorStep_eq (h : Removing T t (⟨d, c, p, s⟩ :: ctx) n next r) (ht : Balanced t .black n) :
    (∃ T' t' ctx' n', rbRemoveColorStep d T p.addr = some (T', some (parentPtr ctx', rootPtr t'))
      ∧ Removing T' t' ctx' n' next r ∧ (t'.color = .red ∨ ctx'.length ≤ ctx.length)
      ∧ (plug t' ctx').toList = (plug t (⟨d, c, p, s⟩ :: ctx)).toList)
    ∨ ∃ T' W' m, rbRemoveColorStep d T p.addr = some (T', none)
      ∧ Reshaped T' W' (plug t (⟨d, c, p, s⟩ :: ctx)) next r ∧ Balanced W' .black m := by
  obtain ⟨T₁, c₁, s₁, ctx₁, hrun₁, h₁, hs₁, hfits₁, hmeas⟩ := removeRedSibling_eq h.rep h.fits
  obtain ⟨w, a, b, ka, kb, rfl, ha, hb⟩ := hs₁.exists_branch_black d
  rw [rootPtr_branch] at hrun₁
  have hchildren := childrenBlack_eq (rep_sibling h₁.rep)
  by_cases hblack : a.color = .black ∧ b.color = .black
  · -- the sibling becomes red, and the parent is the focus
    rw [decide_eq_true hblack] at hchildren
    obtain rfl : ka = .black := ha.color_eq.symm.trans hblack.1
    obtain rfl : kb = .black := hb.color_eq.symm.trans hblack.2
    obtain ⟨T₂, hset₂, h₂⟩ := recolor_sibling h₁.rep .red
    have hp₂ : Rep T₂ (plug (branch d c₁ p t (branch d .red w a b)) ctx₁) next r := h₂.rep
    have hred := ha.branch_red hb (d := d) (a := w)
    refine Or.inl ⟨T₂, branch d c₁ p t (branch d .red w a b), ctx₁, ?_⟩
    have hrun : rbRemoveColorStep d T p.addr
        = some (T₂, some (parentPtr ctx₁, rootPtr (branch d c₁ p t (branch d .red w a b)))) := by
      unfold rbRemoveColorStep
      rw [rootPtr_branch]
      refine bind_of_eq hrun₁ (bind_of_eq hchildren ((if_pos rfl).trans (bind_of_eq hset₂ ?_)))
      exact bind_of_eq hp₂.parentOf_focus rfl
    cases c₁ with
    | red =>
      refine ⟨n, hrun, ⟨hp₂, Or.inr ⟨RBTree.color_branch .., ?_⟩, hfits₁.2.2.to_black⟩,
        Or.inl (RBTree.color_branch ..), (Reshaped.trans h₁ h₂).toList_eq⟩
      rw [RBTree.recolor_branch]
      exact ht.branch_black hred
    | black =>
      exact ⟨n + 1, hrun, ⟨hp₂, Or.inl (ht.branch_black hred), hfits₁.2⟩,
        Or.inr (hmeas.resolve_left (by decide)), (Reshaped.trans h₁ h₂).toList_eq⟩
  · -- a red child of the sibling ends the loop
    rw [decide_eq_false hblack] at hchildren
    obtain ⟨T₂, w₂, a₂, b₂, ka₂, hrun₂, h₂, ha₂, hb₂⟩ := removeFarBlack_eq h₁.rep ha hb hblack
    have hfits₂ : Fits (⟨d, c₁, p, branch d .black w₂ a₂ b₂⟩ :: ctx₁) .black (n + 1) := by
      cases c₁ with
      | red => exact ⟨rfl, ha₂.branch_black hb₂, hfits₁.2.2⟩
      | black => exact ⟨⟨_, ha₂.branch_black hb₂⟩, hfits₁.2⟩
    obtain ⟨T₃, W₃, m, hrun₃, h₃, hbal⟩ := removeFarRed_eq h₂.rep ht ha₂ hb₂ hfits₂
    refine Or.inr ⟨T₃, W₃, m, ?_, (Reshaped.trans h₁ h₂).trans h₃, hbal⟩
    unfold rbRemoveColorStep
    refine bind_of_eq hrun₁ (bind_of_eq hchildren ((if_neg Bool.false_ne_true).trans ?_))
    exact bind_of_eq hrun₂ (bind_of_eq hrun₃ rfl)

/-- **The loop of `RB_REMOVE_COLOR`** ends with the tree repaired, but for the colour of the node
that it ends at. -/
theorem removeColorLoop_eq (k : ℕ) : ∀ {T : LinkedTree α} {t : RBTree (Entry α)}
    {ctx : List (Frame (Entry α))} {n fuel : ℕ}, Removing T t ctx n next r → ctx.length ≤ k → k < fuel →
    ∃ T' t' ctx' m, rbRemoveColorLoop fuel T (parentPtr ctx) (rootPtr t) = some (T', rootPtr t')
      ∧ Reshaped T' (plug t' ctx') (plug t ctx) next r ∧ Balanced (plug (t'.recolor .black) ctx') .black m := by
  -- a red focus ends the loop
  have hend : ∀ {T : LinkedTree α} {t : RBTree (Entry α)} {ctx : List (Frame (Entry α))} {n fuel : ℕ},
      Removing T t ctx n next r → t.color = .red → 0 < fuel →
      ∃ T' t' ctx' m, rbRemoveColorLoop fuel T (parentPtr ctx) (rootPtr t) = some (T', rootPtr t')
        ∧ Reshaped T' (plug t' ctx') (plug t ctx) next r
        ∧ Balanced (plug (t'.recolor .black) ctx') .black m := by
    intro T t ctx n fuel h hred hfuel
    obtain ⟨fuel, rfl⟩ := Nat.exists_eq_add_of_lt hfuel
    have hbal : Balanced (t.recolor .black) .black (n + 1) := by
      rcases h.short with hb | ⟨-, hb⟩
      · exact absurd (hred.symm.trans hb.color_eq) (by decide)
      · exact hb
    obtain ⟨m, hm⟩ := hbal.plug h.fits
    refine ⟨T, t, ctx, m, bind_of_eq (isBlack_eq h.rep) ?_, h.rep.reshaped, hm⟩
    rw [hred]
    rfl
  induction k using Nat.strong_induction_on with
  | _ k ih =>
    intro T t ctx n fuel h hk hfuel
    rcases h.short with ht | ⟨hred, -⟩
    · obtain ⟨fuel, rfl⟩ := Nat.exists_eq_add_of_lt hfuel
      have hblack := isBlack_eq h.rep
      rw [decide_eq_true ht.color_eq] at hblack
      unfold rbRemoveColorLoop
      cases ctx with
      | nil =>
        -- the defect has reached the root, and the whole tree is short
        refine ⟨T, t, [], n, bind_of_eq hblack ?_, h.rep.reshaped, by rw [ht.recolor_self]; exact ht⟩
        exact (if_neg (by decide)).trans (if_pos h.rep.root_eq.symm)
      | cons f ctx =>
        obtain ⟨d, c, p, s⟩ := f
        obtain ⟨l, hl, hside⟩ := h.rep.side_eq (Or.inr h.fits.sibling_ne_nil)
        rw [List.length_cons] at hk
        rcases removeColorStep_eq h ht with ⟨T₁, t₁, ctx₁, n₁, hrun, h₁, hmeas, hlist⟩ | ⟨T₁, W₁, m, hrun, h₁, hbal⟩
        · obtain ⟨T', t', ctx', m, hloop, h', hbal⟩ : ∃ T' t' ctx' m,
              rbRemoveColorLoop (k + fuel) T₁ (parentPtr ctx₁) (rootPtr t₁) = some (T', rootPtr t')
                ∧ Reshaped T' (plug t' ctx') (plug t₁ ctx₁) next r
                ∧ Balanced (plug (t'.recolor .black) ctx') .black m := by
            rcases hmeas with hred | hlen
            · exact hend h₁ hred (by omega)
            · exact ih (k - 1) (by omega) h₁ (by omega) (by omega)
          refine ⟨T', t', ctx', m, ?_, ⟨h'.rep, h'.toList_eq.trans hlist⟩, hbal⟩
          refine bind_of_eq hblack ((if_neg (by decide)).trans ((if_neg h.rep.rootPtr_ne_root).trans ?_))
          refine bind_of_eq hl ?_
          simp only [eq_comm (a := l), hside]
          exact bind_of_eq hrun hloop
        · refine ⟨T₁, W₁, [], m, ?_, h₁, by rw [hbal.recolor_self]; exact hbal⟩
          refine bind_of_eq hblack ((if_neg (by decide)).trans ((if_neg h.rep.rootPtr_ne_root).trans ?_))
          refine bind_of_eq hl ?_
          simp only [eq_comm (a := l), hside]
          refine bind_of_eq hrun ?_
          rw [← h₁.rep.root_eq]
          rfl
    · exact hend h hred (Nat.zero_lt_of_lt hfuel)

/-- **`RB_REMOVE_COLOR`** leaves a red-black tree. -/
theorem removeColor_eq (h : Removing T t ctx n next r) :
    ∃ T' W' m, rbRemoveColor T (parentPtr ctx) (rootPtr t) = some T' ∧ Reshaped T' W' (plug t ctx) next r
      ∧ Balanced W' .black m := by
  obtain ⟨T₁, t₁, ctx₁, m, hloop, h₁, hbal⟩ := removeColorLoop_eq ctx.length h le_rfl
    (h.rep.length_ctx_lt.trans_eq h.rep.next_eq.symm)
  cases t₁ with
  | nil => exact ⟨T₁, _, m, bind_of_eq hloop (if_neg (not_not.mpr rfl)), h₁, hbal⟩
  | node c l e u =>
    have hfocus : Rep T₁ (plug (branch .left c e l u) ctx₁) next r := h₁.rep
    obtain ⟨T₂, hset, h₂⟩ := hfocus.recolor .black
    refine ⟨T₂, _, m, bind_of_eq hloop ((if_pos hfocus.addr_ne_zero).trans hset), Reshaped.trans h₁ h₂, hbal⟩

/-! ## Unlinking -/

/-- **A node with at most one child** is replaced by it, and is outside of the tree then. -/
theorem splice_eq (h : Rep T (plug (branch d c e t .nil) ctx) next r) :
    ∃ T', rbSplice T e.addr (rootPtr t) = some T'
      ∧ Rep T' (plug t ctx) next ({(e.addr, cell c e (parentPtr ctx) d (rootPtr t) 0)} + r) := by
  obtain ⟨T₁, hset₁, hroot₁, h₁⟩ := reparent_eq (h.split_branch.of_eq (cells e.addr t
    + ({(e.addr, cell c e (parentPtr ctx) d (rootPtr t) 0)} + (around e.addr ctx + r)))
    (by show {(e.addr, cell c e (parentPtr ctx) d (rootPtr t) 0)} + (cells e.addr t + 0 + around e.addr ctx + r) = _
        abel)) (parentPtr ctx)
  obtain ⟨T₂, hset₂, hroot₂, h₂⟩ := relink_eq (h₁.of_eq ({(e.addr, cell c e (parentPtr ctx) d (rootPtr t) 0)}
    + (around e.addr ctx + (cells (parentPtr ctx) t + r))) (by abel)) (hroot₁.trans h.root_branch) (rootPtr t)
  refine ⟨T₂, ?_, Rep.of_split hroot₂ (h₂.of_eq _ (by abel))⟩
  exact bind_of_eq h.parentOf_focus (bind_of_eq hset₁ hset₂)

/-- **A node outside of the tree takes the place** of one with two children. -/
theorem replace_eq {o : Entry α} {nd : LinkedNode α} (hl : t ≠ .nil)
    (h : Rep T (plug (branch .left c o t u) ctx) next ({(e.addr, nd)} + r)) (he : nd.elem = e.elem) :
    ∃ T', rbReplace T o.addr e.addr = some T'
      ∧ Rep T' (plug (branch .left c e t u) ctx) next
        ({(o.addr, cell c o (parentPtr ctx) .left (rootPtr t) (rootPtr u))} + r) := by
  have htrep : Rep T (plug t (⟨.left, c, o, u⟩ :: ctx)) next ({(e.addr, nd)} + r) := h
  have hne : rootPtr t ≠ 0 := fun h0 => hl (htrep.rootPtr_eq_zero.mp h0)
  have hset := fun field : LinkedNode α => exists_set (h.split_branch.of_eq ({(e.addr, nd)}
    + ({(o.addr, cell c o (parentPtr ctx) .left (rootPtr t) (rootPtr u))}
      + (cells o.addr t + cells o.addr u + around o.addr ctx + r))) (by abel))
    (fun n => { field with elem := n.elem })
  obtain ⟨T₁, hset₁, hroot₁, h₁⟩ := hset (cell c o (parentPtr ctx) .left (rootPtr t) (rootPtr u))
  rw [he] at h₁
  have h₁ : T₁.nodes.Holds next ({(e.addr, cell c e (parentPtr ctx) .left (rootPtr t) (rootPtr u))}
    + ({(o.addr, cell c o (parentPtr ctx) .left (rootPtr t) (rootPtr u))}
      + (cells o.addr t + cells o.addr u + around o.addr ctx + r))) := h₁
  have ho₁ : T₁.nodes.load o.addr = some (cell c o (parentPtr ctx) .left (rootPtr t) (rootPtr u)) :=
    h₁.mem (by simp)
  -- what points to the old node points to the new one
  obtain ⟨T₂, hset₂, hroot₂, h₂⟩ := relink_eq (h₁.of_eq
    ({(o.addr, cell c o (parentPtr ctx) .left (rootPtr t) (rootPtr u))} + (around o.addr ctx
      + ({(e.addr, cell c e (parentPtr ctx) .left (rootPtr t) (rootPtr u))}
        + (cells o.addr t + cells o.addr u + r)))) (by abel)) (hroot₁.trans h.root_branch) e.addr
  have ho₂ := h₂.load
  obtain ⟨T₃, hset₃, hroot₃, h₃⟩ := reparent_eq (h₂.of_eq (cells o.addr t
    + ({(o.addr, cell c o (parentPtr ctx) .left (rootPtr t) (rootPtr u))}
      + ({(e.addr, cell c e (parentPtr ctx) .left (rootPtr t) (rootPtr u))}
        + (around e.addr ctx + cells o.addr u + r)))) (by abel)) e.addr
  rw [if_pos hne] at hset₃
  have ho₃ : T₃.nodes.load o.addr = some (cell c o (parentPtr ctx) .left (rootPtr t) (rootPtr u)) :=
    h₃.mem (by simp)
  obtain ⟨T₄, hset₄, hroot₄, h₄⟩ := reparent_eq (h₃.of_eq (cells o.addr u
    + ({(o.addr, cell c o (parentPtr ctx) .left (rootPtr t) (rootPtr u))}
      + ({(e.addr, cell c e (parentPtr ctx) .left (rootPtr t) (rootPtr u))}
        + (around e.addr ctx + cells e.addr t + r)))) (by abel)) e.addr
  refine ⟨T₄, ?_, Rep.of_split_branch (hroot₄.trans (hroot₃.trans hroot₂)) (h₄.of_eq _ (by abel))⟩
  refine bind_of_eq h.load_focus (bind_of_eq hset₁ ?_)
  refine bind_of_eq (parentOf_eq ho₁) (bind_of_eq hset₂ ?_)
  refine bind_of_eq (childOf_eq ho₂ .left) (bind_of_eq hset₃ ?_)
  exact bind_of_eq (childOf_eq ho₃ .right) hset₄

/-- **The way to the root** from a node, on which `RB_AUGMENT` is called. -/
theorem augmentUp_eq (ctx : List (Frame (Entry α))) : ∀ {e : Entry α} {d : Side} {c : Color}
    {t s : RBTree (Entry α)} {fuel : ℕ}, Rep T (plug (branch d c e t s) ctx) next r → ctx.length < fuel →
    rbAugmentUp T fuel e.addr = some () := by
  induction ctx with
  | nil =>
    intro e d c t s fuel h hfuel
    obtain ⟨fuel, rfl⟩ := Nat.exists_eq_add_of_lt hfuel
    exact bind_of_eq h.parentOf_focus (if_neg (not_not.mpr rfl))
  | cons f ctx ih =>
    intro e d c t s fuel h hfuel
    obtain ⟨fuel, rfl⟩ := Nat.exists_eq_add_of_lt hfuel
    rw [List.length_cons] at hfuel ⊢
    have hp : Rep T (plug (branch f.side f.color f.elem (branch d c e t s) f.sibling) ctx) next r := h
    exact bind_of_eq h.parentOf_focus ((if_pos hp.addr_ne_zero).trans (ih hp (by omega)))

/-- The way to the root from above the focus. -/
theorem augmentUp_parent (h : Rep T (plug t ctx) next r) :
    (if parentPtr ctx ≠ 0 then rbAugmentUp T T.nodes.next (parentPtr ctx) else some ()) = some () := by
  cases ctx with
  | nil => exact if_neg (not_not.mpr rfl)
  | cons f ctx =>
    have hp : Rep T (plug (branch f.side f.color f.elem t f.sibling) ctx) next r := h
    exact (if_pos hp.addr_ne_zero).trans
      (augmentUp_eq ctx hp (hp.length_ctx_lt.trans_eq hp.next_eq.symm))

/-- The loop down to the successor is that of `RB_NEXT`. -/
theorem rbLeftmost_eq (fuel : ℕ) (elm : Ptr) : rbLeftmost T fuel elm = rbDown .left T fuel elm := by
  induction fuel generalizing elm with
  | zero => rfl
  | succ fuel ih =>
    unfold rbLeftmost rbDown
    simp only [ih]

/-- The node above the focus is not the node around that. -/
theorem frame_addr_ne {f g : Frame (Entry α)} {ctx' : List (Frame (Entry α))}
    (h : Rep T (plug t (f :: (ctx' ++ g :: ctx))) next r) : f.elem.addr ≠ g.elem.addr := by
  have hnd := nodup_addrs h
  have hperm := (perm_plug t (f :: (ctx' ++ g :: ctx))).map Entry.addr
  rw [hperm.nodup_iff, List.map_append] at hnd
  have hout := (List.nodup_append'.mp hnd).2.1
  rw [outer, List.map_cons, List.nodup_cons] at hout
  intro heq
  refine hout.1 ?_
  rw [heq]
  refine List.mem_map_of_mem (List.mem_append_right _ ?_)
  rw [outer_append]
  exact List.mem_append_right _ List.mem_cons_self

/-! ## Taking a node out -/

/-- **What `RB_REMOVE` has done before the repair**: the node is out of the tree, and the subtree
that is at the place of the node that was unlinked may be one black node short. -/
structure Detached (T' : LinkedTree α) (W : RBTree (Entry α)) (e : Entry α) (t : RBTree (Entry α))
    (ctx : List (Frame (Entry α))) (c : Color) (next : Ptr) (r : Multiset (Ptr × LinkedNode α)) : Prop where
  rep : ∃ nd, nd.elem = e.elem ∧ Rep T' (plug t ctx) next ({(e.addr, nd)} + r)
  fits : ∃ d a k n, Balanced (branch d c a t .nil) k n ∧ Fits ctx k n
  split : ∃ xs ys, W.toList = xs ++ e :: ys ∧ (plug t ctx).toList = xs ++ ys

/-- The part of `RB_REMOVE` before the repair. -/
def rbDetach (head : LinkedTree α) (elm : Ptr) : Option (LinkedTree α × Ptr × Ptr × Color) := do
  let left ← head.childOf .left elm
  let right ← head.childOf .right elm
  if left = 0 then do
    let (head, parent, color) ← rbRemoveOuter head elm right
    return (head, parent, right, color)
  else if right = 0 then do
    let (head, parent, color) ← rbRemoveOuter head elm left
    return (head, parent, left, color)
  else rbRemoveInner head elm

theorem rbRemove_eq (head : LinkedTree α) (elm : Ptr) :
    rbRemove head elm = (rbDetach head elm).bind (fun x =>
      (if x.2.2.2 = RB_BLACK then rbRemoveColor x.1 x.2.1 x.2.2.1 else some x.1).bind
        (fun head => some (elm, head))) := by
  unfold rbRemove rbDetach
  simp only [Option.bind_eq_bind, Option.bind_assoc, Option.pure_def]

section Detach

variable {l : RBTree (Entry α)} {m : ℕ}

/-- **A node with at most one child** is unlinked itself. -/
theorem removeOuter_eq (h : Rep T (plug (branch d c e t .nil) ctx) next r)
    (hbal : Balanced (plug (branch d c e t .nil) ctx) .black m) :
    ∃ T', rbRemoveOuter T e.addr (rootPtr t) = some (T', parentPtr ctx, c)
      ∧ Detached T' (plug (branch d c e t .nil) ctx) e t ctx c next r := by
  obtain ⟨k, n, hfocus, hfits⟩ := exists_fits hbal
  obtain ⟨T', hsplice, hrep⟩ := splice_eq h
  refine ⟨T', ?_, ⟨⟨_, elem_cell .., hrep⟩, ⟨d, e, k, n, hfocus, hfits⟩, ?_⟩⟩
  · exact bind_of_eq h.parentOf_focus (bind_of_eq h.colorOf_focus (bind_of_eq hsplice rfl))
  · rw [toList_plug, toList_plug]
    cases d with
    | left =>
      refine ⟨before ctx ++ t.toList, after ctx, ?_, rfl⟩
      simp [branch, toList]
    | right =>
      refine ⟨before ctx, t.toList ++ after ctx, ?_, ?_⟩
      · simp [branch, toList]
      · simp

/-- **A node with two children** is unlinked with its successor in its place. -/
theorem removeInner_eq (h : Rep T (plug (node c l e u) ctx) next r)
    (hbal : Balanced (plug (node c l e u) ctx) .black m) (hl : l ≠ .nil) (hu : u ≠ .nil) :
    ∃ T' t' ctx' c', rbRemoveInner T e.addr = some (T', parentPtr ctx', rootPtr t', c')
      ∧ Detached T' (plug (node c l e u) ctx) e t' ctx' c' next r := by
  have hu' : Rep T (plug u (⟨.right, c, e, l⟩ :: ctx)) next r := h
  have hlen : u.toList.length ≤ T.nodes.next := by
    have hlt := h.length_lt
    rw [toList_plug, toList, ← h.next_eq] at hlt
    simp only [List.length_append, List.length_cons] at hlt
    omega
  obtain ⟨k, y, v, ctx₁, hdown, rfl, hbeyond⟩ := down_eq (d := .left) u _ hu' hu hlen
  -- the tree at the successor, and at the node
  have hat : ∀ (t : RBTree (Entry α)) (e : Entry α), plug t (ctx₁ ++ ⟨.right, c, e, l⟩ :: ctx)
      = plug (branch .left c e l (plug t ctx₁)) ctx := fun t e => plug_append t ctx₁ _
  have hy : Rep T (plug (branch .right k y v .nil) (ctx₁ ++ ⟨.right, c, e, l⟩ :: ctx)) next r := by
    rw [hat]
    exact h
  have hbal' : Balanced (plug (branch .right k y v .nil) (ctx₁ ++ ⟨.right, c, e, l⟩ :: ctx)) .black m := by
    rw [hat]
    exact hbal
  obtain ⟨k', n, hfocus, hfits⟩ := exists_fits hbal'
  obtain ⟨T₁, hsplice, h₁⟩ := splice_eq hy
  have hparent₁ := h₁.holds.mem (p := y.addr) (v := cell k y (parentPtr (ctx₁ ++ ⟨.right, c, e, l⟩ :: ctx)) .right
    (rootPtr v) 0) (by simp)
  have h₁' : Rep T₁ (plug (branch .left c e l (plug v ctx₁)) ctx) next
      ({(y.addr, cell k y (parentPtr (ctx₁ ++ ⟨.right, c, e, l⟩ :: ctx)) .right (rootPtr v) 0)} + r) := by
    rw [← hat]
    exact h₁
  obtain ⟨T₂, hreplace, h₂⟩ := replace_eq hl h₁' (elem_cell ..)
  have h₂' : Rep T₂ (plug v (ctx₁ ++ ⟨.right, c, y, l⟩ :: ctx)) next
      ({(e.addr, cell c e (parentPtr ctx) .left (rootPtr l) (rootPtr (plug v ctx₁)))} + r) := by
    rw [hat]
    exact h₂
  -- the parent is the successor itself if that was a child of the node
  have hparent : (if parentPtr (ctx₁ ++ ⟨.right, c, e, l⟩ :: ctx) = e.addr then y.addr
      else parentPtr (ctx₁ ++ ⟨.right, c, e, l⟩ :: ctx)) = parentPtr (ctx₁ ++ ⟨.right, c, y, l⟩ :: ctx) := by
    cases ctx₁ with
    | nil => exact if_pos rfl
    | cons f ctx₁ => exact if_neg (frame_addr_ne hy)
  refine ⟨T₂, v, ctx₁ ++ ⟨.right, c, y, l⟩ :: ctx, k, ?_,
    ⟨⟨_, elem_cell .., h₂'⟩, ⟨.right, y, k', n, hfocus, hfits.set_elem _⟩, ?_⟩⟩
  · unfold rbRemoveInner
    refine bind_of_eq (Rep.childOf_flip_focus (d := .left) h) ?_
    rw [rbLeftmost_eq]
    refine bind_of_eq hdown (bind_of_eq hy.childOf_focus (bind_of_eq hy.parentOf_focus ?_))
    refine bind_of_eq hy.colorOf_focus (bind_of_eq hsplice ?_)
    refine bind_of_eq ((parentOf_eq hparent₁).trans (congrArg some (parent_cell ..))) ?_
    rw [hparent]
    exact bind_of_eq hreplace (bind_of_eq (augmentUp_parent h₂') rfl)
  · have hbefore : before ctx₁ = [] := List.reverse_eq_nil_iff.mp hbeyond
    refine ⟨before ctx ++ l.toList, y :: (v.toList ++ after ctx₁ ++ after ctx), ?_, ?_⟩
    · rw [toList_plug, toList, toList_plug, hbefore]
      simp [branch, toList]
    · rw [hat, toList_plug]
      simp only [branch, toList, toList_plug, hbefore]
      simp

/-- **Every node of the tree can be taken out of it.** -/
theorem detach_eq (h : Rep T W next r) (hbal : Balanced W .black m) (he : e ∈ W.toList) :
    ∃ T' t ctx c, rbDetach T e.addr = some (T', parentPtr ctx, rootPtr t, c)
      ∧ Detached T' W e t ctx c next r := by
  obtain ⟨c, l, u, ctx, rfl⟩ := exists_focus he
  have hfocus : Rep T (plug (branch .left c e l u) ctx) next r := h
  have hl : Rep T (plug l (⟨.left, c, e, u⟩ :: ctx)) next r := h
  have hu : Rep T (plug u (⟨.right, c, e, l⟩ :: ctx)) next r := h
  unfold rbDetach
  by_cases hlnil : l = .nil
  · subst hlnil
    obtain ⟨T', hrun, hD⟩ := removeOuter_eq (d := .right) h hbal
    refine ⟨T', u, ctx, c, bind_of_eq hfocus.childOf_focus (bind_of_eq hfocus.childOf_flip_focus ?_), hD⟩
    exact (if_pos rfl).trans (bind_of_eq hrun rfl)
  · have hl0 : rootPtr l ≠ 0 := fun h0 => hlnil (hl.rootPtr_eq_zero.mp h0)
    by_cases hunil : u = .nil
    · subst hunil
      obtain ⟨T', hrun, hD⟩ := removeOuter_eq (d := .left) h hbal
      refine ⟨T', l, ctx, c, bind_of_eq hfocus.childOf_focus (bind_of_eq hfocus.childOf_flip_focus ?_), hD⟩
      exact (if_neg hl0).trans ((if_pos rfl).trans (bind_of_eq hrun rfl))
    · have hu0 : rootPtr u ≠ 0 := fun h0 => hunil (hu.rootPtr_eq_zero.mp h0)
      obtain ⟨T', t', ctx', c', hrun, hD⟩ := removeInner_eq h hbal hlnil hunil
      refine ⟨T', t', ctx', c', bind_of_eq hfocus.childOf_focus (bind_of_eq hfocus.childOf_flip_focus ?_), hD⟩
      exact (if_neg hl0).trans ((if_neg hu0).trans hrun)

/-- **`RB_REMOVE`** takes a node out of a red-black tree, and leaves one. -/
theorem remove_eq (h : Rep T W next r) (hbal : Balanced W .black m) (he : e ∈ W.toList) :
    ∃ T' W' m' nd xs ys, rbRemove T e.addr = some (e.addr, T') ∧ nd.elem = e.elem
      ∧ Rep T' W' next ({(e.addr, nd)} + r) ∧ Balanced W' .black m'
      ∧ W.toList = xs ++ e :: ys ∧ W'.toList = xs ++ ys := by
  obtain ⟨T₁, t, ctx, c, hrun, ⟨⟨nd, hnd, hrep⟩, ⟨d, a, k, n, hfocus, hfits⟩, ⟨xs, ys, hW, hW'⟩⟩⟩ :=
    detach_eq h hbal he
  rw [rbRemove_eq]
  cases c with
  | red =>
    obtain ⟨rfl, ht, -⟩ := hfocus.of_branch_red
    obtain ⟨m', hm'⟩ := ht.plug hfits.to_black
    exact ⟨T₁, _, m', nd, xs, ys, bind_of_eq hrun rfl, hnd, hrep, hm', hW, hW'⟩
  | black =>
    -- the place of a black node is one black node short
    obtain ⟨rfl, n, k₁, k₂, rfl, ht, -⟩ := hfocus.of_branch_black
    have hshort : Balanced t .black n ∨ (t.color = .red ∧ Balanced (t.recolor .black) .black (n + 1)) := by
      cases k₁ with
      | red => exact Or.inr ⟨ht.color_eq, ht.recolor_black⟩
      | black => exact Or.inl ht
    obtain ⟨T₂, W₂, m', hcolor, h₂, hbal₂⟩ := removeColor_eq ⟨hrep, hshort, hfits⟩
    exact ⟨T₂, W₂, m', nd, xs, ys, bind_of_eq hrun (bind_of_eq hcolor rfl), hnd, h₂.rep, hbal₂, hW,
      h₂.toList_eq.trans hW'⟩

end Detach

end NtyTree
