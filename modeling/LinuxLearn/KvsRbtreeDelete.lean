import LinuxLearn.KvsRbtreeInsert

/-!
# Deletion from the red-black tree

Unlinking a black node leaves the subtree that takes its place one black
node short. The loop of `rbtree_delete_fixup` moves this defect up while
the sibling and its children are black, and removes it by rotations when
one of them is red. Its invariant is `Deleting`: the subtree at the focus
is one short of what its context fits – or has a red root, which the last
statement of the fixup blackens.

The focus may be `nil`, so the program reads its way up from `nil` through
the parent pointer that `rbtree_delete` gave it; `HoleParent` keeps track
of that pointer.
-/

open RedBlack
open RedBlack.RBTree (plug branch node toList)

namespace KvsRbtree

/-- The parent pointer of an empty focus, which is that of `nil`. -/
def HoleParent (T : KvsRbtree) (t : RBTree RbEntry) (p : Ptr) : Prop :=
  t = .nil → T.parentOf T.nil = some p

section Hole

variable {T T' : KvsRbtree} {W W' t s : RBTree RbEntry} {ctx : List (Frame RbEntry)} {p : Ptr}

/-- Reshaping a tree does not write to `nil`. -/
theorem Reshapes.holeParent (hR : Reshapes T W T' W') (h : Rep T W) (hp : HoleParent T t p) :
    HoleParent T' t p := by
  intro ht
  have hload := hR.keeps.load_eq T.nil (List.nodup_cons.mp h.nodup).1
  have hnil := hp ht
  unfold parentOf at hnil ⊢
  rw [hR.keeps.nil_eq, hload]
  exact hnil

/-- **The parent of the focus**, also of an empty one. -/
theorem Rep.parentOf_hole (h : Rep T (plug t ctx)) (hp : HoleParent T t (parentPtr T.nil ctx)) :
    T.parentOf (rootPtr T.nil t) = some (parentPtr T.nil ctx) := by
  cases t with
  | nil => exact hp rfl
  | node c l e r =>
    exact Rep.parentOf_focus (show Rep T (plug (branch .left c e l r) ctx) from h)

/-- The focus is the root only without a context. -/
theorem Rep.rootPtr_ne_root {f : Frame RbEntry} (h : Rep T (plug t (f :: ctx))) :
    rootPtr T.nil t ≠ T.root := by
  have htop : ∀ (ctx : List (Frame RbEntry)) (f : Frame RbEntry),
      topPtr f.elem.addr ctx ∈ addrs (outer (f :: ctx)) := by
    intro ctx
    induction ctx with
    | nil => exact fun f => List.mem_cons_self
    | cons g ctx ih =>
      intro f
      have hg := ih g
      rw [outer, addrs_cons, addrs_append]
      exact List.mem_cons_of_mem _ (List.mem_append_right _ hg)
  have hroot : T.root ∈ addrs (outer (f :: ctx)) := by
    rw [h.root_eq, rootPtr_plug]
    exact htop ctx f
  obtain ⟨hnil, hnd⟩ := List.nodup_cons.mp h.nodup_plug
  intro heq
  rcases rootPtr_cases T.nil t with ⟨hp, -⟩ | hm
  · rw [← heq, hp] at hroot
    exact hnil (List.mem_append_right _ hroot)
  · rw [heq] at hm
    exact (List.nodup_append'.mp hnd).2.2 hm hroot

end Hole

/-- **The invariant of the deletion loop**: the focus `x` is a balanced black
subtree one short of its context, or has a red root and is not short once
that is blackened. -/
structure Deleting (T : KvsRbtree) (x : Ptr) (t : RBTree RbEntry) (ctx : List (Frame RbEntry))
    (n : ℕ) : Prop where
  rep : Rep T (plug t ctx)
  x_eq : x = rootPtr T.nil t
  short : Balanced t .black n ∨ (t.color = .red ∧ Balanced (t.recolor .black) .black (n + 1))
  fits : Fits ctx .black (n + 1)
  hole : HoleParent T t (parentPtr T.nil ctx)

section Fixup

variable {T : KvsRbtree} {x : Ptr} {t s a b : RBTree RbEntry} {p w : RbEntry} {c c' : Color}
  {d : Side} {ctx : List (Frame RbEntry)} {n : ℕ}

/-- The focus as seen from its sibling. -/
theorem rep_sibling (h : Rep T (plug t (⟨d, c, p, s⟩ :: ctx))) :
    Rep T (plug s (⟨d.flip, c, p, t⟩ :: ctx)) := by
  rw [plug_flip]
  exact h

/-- **A red sibling** is rotated above the parent, and the new sibling is
black. -/
theorem deleteRedSibling_eq (h : Rep T (plug t (⟨d, c, p, s⟩ :: ctx)))
    (hfits : Fits (⟨d, c, p, s⟩ :: ctx) .black (n + 1)) (hole : HoleParent T t p.addr) :
    ∃ T' c' s' ctx', rbtreeDeleteRedSibling d T (rootPtr T.nil t) (rootPtr T.nil s)
          = some (T', rootPtr T'.nil s')
      ∧ Reshapes T (plug t (⟨d, c, p, s⟩ :: ctx)) T' (plug t (⟨d, c', p, s'⟩ :: ctx'))
      ∧ Balanced s' .black (n + 1) ∧ Fits (⟨d, c', p, s'⟩ :: ctx') .black (n + 1)
      ∧ (c' = .red ∨ ctx'.length ≤ ctx.length) := by
  have hcolor := (rep_sibling h).colorOf_focus
  unfold rbtreeDeleteRedSibling
  cases hs : s.color with
  | black =>
    have hbal : Balanced s .black (n + 1) := by
      cases c with
      | red => exact hfits.2.1
      | black =>
        obtain ⟨⟨cs, hbal⟩, -⟩ := hfits
        rw [← hs, hbal.color_eq]
        exact hbal
    refine ⟨T, c, s, ctx, ?_, h.refl_reshapes, hbal, hfits, Or.inr le_rfl⟩
    rw [hs] at hcolor
    exact bind_of_eq hcolor (if_neg (by decide))
  | red =>
    cases c with
    | red =>
      have hbal : Balanced s .black (n + 1) := hfits.2.1
      rw [hbal.color_eq] at hs
      cases hs
    | black =>
      obtain ⟨⟨cs, hbal⟩, hctx⟩ := hfits
      obtain rfl : cs = .red := hbal.color_eq.symm.trans hs
      obtain ⟨w, wl, wr, rfl, hwl, hwr⟩ := hbal.exists_branch_red d
      -- the sibling becomes black, the parent red, and they are rotated
      obtain ⟨T₁, hT₁, hR₁⟩ := (rep_sibling h).recolor .black
      rw [plug_flip, plug_flip] at hR₁
      have hole₁ := hR₁.holeParent h hole
      have hx₁ := hR₁.rep.parentOf_hole hole₁
      obtain ⟨T₂, hT₂, hR₂⟩ :=
        (show Rep T₁ (plug (branch d .black p t (branch d .black w wl wr)) ctx) from
          hR₁.rep).recolor .red
      have hole₂ := hR₂.holeParent hR₁.rep hole₁
      have hx₂ := Rep.parentOf_hole (show Rep T₂ (plug t (⟨d, .red, p, _⟩ :: ctx)) from hR₂.rep) hole₂
      obtain ⟨T₃, hT₃, hR₃⟩ := hR₂.rep.rotate
      have hrep₃ : Rep T₃ (plug t (⟨d, .red, p, wl⟩ :: ⟨d, .black, w, wr⟩ :: ctx)) := hR₃.rep
      have hole₃ := hR₃.holeParent hR₂.rep hole₂
      have hx₃ := hrep₃.parentOf_hole hole₃
      have hw₃ := Rep.childOf_flip_focus
        (show Rep T₃ (plug (branch d .red p t wl) (⟨d, .black, w, wr⟩ :: ctx)) from hrep₃)
      have hnil₁ := hR₁.keeps.nil_eq
      have hnil₂ := hR₂.keeps.nil_eq
      have hnil₃ := hR₃.keeps.nil_eq
      refine ⟨T₃, .red, wl, ⟨d, .black, w, wr⟩ :: ctx, ?_, hR₁.trans (hR₂.trans hR₃), hwl,
        ⟨rfl, hwl, ⟨_, hwr⟩, hctx⟩, Or.inl rfl⟩
      rw [hs] at hcolor
      rw [hnil₁] at hx₁
      rw [hnil₂, hnil₁] at hx₂
      rw [hnil₃, hnil₂, hnil₁] at hx₃
      refine bind_of_eq hcolor ((if_pos rfl).trans ?_)
      rw [rootPtr_branch]
      refine bind_of_eq hT₁ (bind_of_eq hx₁ (bind_of_eq hT₂ ?_))
      refine bind_of_eq hx₂ (bind_of_eq hT₃ (bind_of_eq hx₃ (bind_of_eq hw₃ rfl)))

/-- The test for black children. -/
theorem childrenBlack_eq (h : Rep T (plug (branch d c w a b) ctx)) :
    rbtreeChildrenBlack T w.addr
      = some (decide (a.color = .black ∧ b.color = .black)) := by
  have ha : T.colorOf (rootPtr T.nil a) = some (colorCode a.color) :=
    Rep.colorOf_focus (show Rep T (plug a (⟨d, c, w, b⟩ :: ctx)) from h)
  have hb : T.colorOf (rootPtr T.nil b) = some (colorCode b.color) :=
    Rep.colorOf_focus (rep_sibling (show Rep T (plug a (⟨d, c, w, b⟩ :: ctx)) from h))
  -- the program looks at the left child first
  have htest : ∀ {l r : RBTree RbEntry}, T.childOf .left w.addr = some (rootPtr T.nil l) →
      T.childOf .right w.addr = some (rootPtr T.nil r) →
      T.colorOf (rootPtr T.nil l) = some (colorCode l.color) →
      T.colorOf (rootPtr T.nil r) = some (colorCode r.color) →
      rbtreeChildrenBlack T w.addr = some (decide (l.color = .black ∧ r.color = .black)) := by
    intro l r hl hr hcl hcr
    unfold rbtreeChildrenBlack
    refine bind_of_eq hl (bind_of_eq hcl ?_)
    by_cases hlb : l.color = .black
    · refine (if_pos (colorCode_eq_black.mpr hlb)).trans (bind_of_eq hr (bind_of_eq hcr ?_))
      simp [hlb, colorCode_eq_black]
    · refine (if_neg (fun h => hlb (colorCode_eq_black.mp h))).trans ?_
      simp [hlb]
  cases d with
  | left => exact htest h.childOf_focus h.childOf_flip_focus ha hb
  | right =>
    refine (htest h.childOf_flip_focus h.childOf_focus hb ha).trans ?_
    exact congrArg some (decide_eq_decide.mpr and_comm)

/-- **A far child that is black**, beside a red near child, is exchanged for a
red one. -/
theorem deleteFarBlack_eq (h : Rep T (plug t (⟨d, c, p, branch d .black w a b⟩ :: ctx)))
    {c₁ c₂ : Color} (ha : Balanced a c₁ n) (hb : Balanced b c₂ n)
    (hred : ¬ (a.color = .black ∧ b.color = .black)) (hole : HoleParent T t p.addr) :
    ∃ T' w' a' b' c₁', rbtreeDeleteFarBlack d T (rootPtr T.nil t) w.addr = some (T', w'.addr)
      ∧ Reshapes T (plug t (⟨d, c, p, branch d .black w a b⟩ :: ctx))
        T' (plug t (⟨d, c, p, branch d .black w' a' b'⟩ :: ctx))
      ∧ Balanced a' c₁' n ∧ Balanced b' .red n := by
  have hw := rep_sibling h
  have hfar : T.colorOf (rootPtr T.nil b) = some (colorCode c₂) := by
    have hb' : Rep T (plug b (⟨d.flip, .black, w, a⟩ :: ⟨d.flip, c, p, t⟩ :: ctx)) := rep_sibling hw
    rw [← hb.color_eq]
    exact hb'.colorOf_focus
  unfold rbtreeDeleteFarBlack
  cases c₂ with
  | red =>
    refine ⟨T, w, a, b, c₁, ?_, h.refl_reshapes, ha, hb⟩
    exact bind_of_eq hw.childOf_flip_focus (bind_of_eq hfar (if_neg (by decide)))
  | black =>
    obtain rfl : c₁ = .red := by
      cases c₁ with
      | red => rfl
      | black => exact absurd ⟨ha.color_eq, hb.color_eq⟩ hred
    obtain ⟨ae, a₁, a₂, rfl, ha₁, ha₂⟩ := ha.exists_branch_red d
    -- the near child becomes black, the sibling red, and they are rotated
    obtain ⟨T₁, hT₁, hR₁⟩ :=
      (show Rep T (plug (branch d .red ae a₁ a₂)
        (⟨d, .black, w, b⟩ :: ⟨d.flip, c, p, t⟩ :: ctx)) from hw).recolor .black
    obtain ⟨T₂, hT₂, hR₂⟩ :=
      (show Rep T₁ (plug (branch d .black w (branch d .black ae a₁ a₂) b)
        (⟨d.flip, c, p, t⟩ :: ctx)) from hR₁.rep).recolor .red
    obtain ⟨T₃, hT₃, hR₃⟩ := hR₂.rep.rotate_flip
    have hR : Reshapes T (plug (branch d .black w (branch d .red ae a₁ a₂) b)
          (⟨d.flip, c, p, t⟩ :: ctx))
        T₃ (plug (branch d .black ae a₁ (branch d .red w a₂ b)) (⟨d.flip, c, p, t⟩ :: ctx)) :=
      Reshapes.trans hR₁ (hR₂.trans hR₃)
    rw [plug_flip, plug_flip] at hR
    have hx₃ := hR.rep.parentOf_hole (hR.holeParent h hole)
    have hw₃ := Rep.childOf_flip_focus (show Rep T₃ (plug (branch d c p t _) ctx) from hR.rep)
    rw [hR.keeps.nil_eq] at hx₃
    rw [rootPtr_branch] at hw₃
    refine ⟨T₃, ae, a₁, branch d .red w a₂ b, .black, ?_, hR, ha₁, ha₂.branch_red hb⟩
    refine bind_of_eq hw.childOf_flip_focus (bind_of_eq hfar ((if_pos rfl).trans ?_))
    refine bind_of_eq hw.childOf_focus ?_
    rw [rootPtr_branch]
    exact bind_of_eq hT₁ (bind_of_eq hT₂ (bind_of_eq hT₃ (bind_of_eq hx₃ (bind_of_eq hw₃ rfl))))

/-- **A far child that is red** makes up for the missing black node. -/
theorem deleteFarRed_eq (h : Rep T (plug t (⟨d, c, p, branch d .black w a b⟩ :: ctx)))
    {c₁ : Color} (ht : Balanced t .black n) (ha : Balanced a c₁ n) (hb : Balanced b .red n)
    (hfits : Fits (⟨d, c, p, branch d .black w a b⟩ :: ctx) .black (n + 1))
    (hole : HoleParent T t p.addr) :
    ∃ T' W' m, rbtreeDeleteFarRed d T (rootPtr T.nil t) w.addr = some (T', T'.root)
      ∧ Reshapes T (plug t (⟨d, c, p, branch d .black w a b⟩ :: ctx)) T' W'
      ∧ Balanced W' .black m ∧ W' ≠ .nil := by
  obtain ⟨be, b₁, b₂, rfl, hb₁, hb₂⟩ := hb.exists_branch_red d
  have hw := rep_sibling h
  have hx := h.parentOf_hole hole
  have hpc : T.colorOf p.addr = some (colorCode c) :=
    (colorOf_eq h.load_parent).trans (congrArg some (color_cell ..))
  -- the sibling takes the parent's colour, the parent and the far child become black
  obtain ⟨T₁, hT₁, hR₁⟩ := hw.recolor c
  rw [plug_flip, plug_flip] at hR₁
  have hole₁ := hR₁.holeParent h hole
  have hx₁ := hR₁.rep.parentOf_hole hole₁
  obtain ⟨T₂, hT₂, hR₂⟩ := (show Rep T₁ (plug (branch d c p t _) ctx) from hR₁.rep).recolor .black
  have hole₂ := hR₂.holeParent hR₁.rep hole₁
  have hrep₂ : Rep T₂ (plug t (⟨d, .black, p, branch d c w a (branch d .red be b₁ b₂)⟩ :: ctx)) :=
    hR₂.rep
  have hw₂ := rep_sibling hrep₂
  have hfar₂ := hw₂.childOf_flip_focus
  obtain ⟨T₃, hT₃, hR₃⟩ :=
    (rep_sibling (show Rep T₂ (plug a (⟨d, c, w, _⟩ :: ⟨d.flip, .black, p, t⟩ :: ctx)) from
      hw₂)).recolor .black
  rw [plug_flip, plug_flip] at hR₃
  have hR₃' : Reshapes T₂ (plug t (⟨d, .black, p, branch d c w a (branch d .red be b₁ b₂)⟩ :: ctx))
      T₃ (plug t (⟨d, .black, p, branch d c w a (branch d .black be b₁ b₂)⟩ :: ctx)) := by
    rw [← plug_flip d .black p t (branch d c w a (branch d .red be b₁ b₂)),
      ← plug_flip d .black p t (branch d c w a (branch d .black be b₁ b₂))]
    exact hR₃
  have hx₃ := hR₃'.rep.parentOf_hole (hR₃'.holeParent hrep₂ hole₂)
  obtain ⟨T₄, hT₄, hR₄⟩ :=
    (show Rep T₃ (plug (branch d .black p t (branch d c w a (branch d .black be b₁ b₂))) ctx) from
      hR₃'.rep).rotate
  have hnil₁ := hR₁.keeps.nil_eq
  have hnil₂ := hR₂.keeps.nil_eq
  have hnil₃ := hR₃.keeps.nil_eq
  rw [hnil₁] at hx₁
  rw [hnil₃, hnil₂, hnil₁] at hx₃
  have hleft := ht.branch_black ha (d := d) (a := p)
  have hright := hb₁.branch_black hb₂ (d := d) (a := be)
  have hbal : ∃ m, Balanced (plug (branch d c w (branch d .black p t a)
      (branch d .black be b₁ b₂)) ctx) .black m := by
    cases c with
    | red => exact (hleft.branch_red hright).plug hfits.2.2
    | black => exact (hleft.branch_black hright).plug hfits.2
  obtain ⟨m, hm⟩ := hbal
  have hR := hR₁.trans (Reshapes.trans hR₂ (Reshapes.trans hR₃' hR₄))
  refine ⟨T₄, _, m, ?_, hR, hm, ?_⟩
  · unfold rbtreeDeleteFarRed
    rw [rootPtr_branch] at hfar₂
    refine bind_of_eq hx (bind_of_eq hpc (bind_of_eq hT₁ ?_))
    refine bind_of_eq hx₁ (bind_of_eq hT₂ (bind_of_eq hfar₂ (bind_of_eq hT₃ ?_)))
    exact bind_of_eq hx₃ (bind_of_eq hT₄ rfl)
  · intro hnil
    have hlen := congrArg List.length (congrArg toList hnil)
    rw [toList_plug] at hlen
    cases d <;> simp [branch, toList] at hlen

/-- **One step of the loop**: the defect is gone, or is closer to the root, or
is at a red node. -/
theorem deleteFixupStep_eq (h : Deleting T x t (⟨d, c, p, s⟩ :: ctx) n)
    (ht : Balanced t .black n) :
    ∃ T' x' t' ctx' n', rbtreeDeleteFixupStep d T x = some (T', x') ∧ Deleting T' x' t' ctx' n'
      ∧ (t'.color = .red ∨ ctx'.length ≤ ctx.length)
      ∧ Reshapes T (plug t (⟨d, c, p, s⟩ :: ctx)) T' (plug t' ctx') := by
  obtain rfl := h.x_eq
  have hx := h.rep.parentOf_hole h.hole
  have hw := Rep.childOf_flip_focus (show Rep T (plug (branch d c p t s) ctx) from h.rep)
  obtain ⟨T₁, c₁, s₁, ctx₁, hrun₁, hR₁, hs₁, hfits₁, hmeas⟩ :=
    deleteRedSibling_eq h.rep h.fits h.hole
  have hole₁ := hR₁.holeParent h.rep h.hole
  have hnil₁ := hR₁.keeps.nil_eq
  obtain ⟨w, a, b, ca, cb, rfl, ha, hb⟩ := hs₁.exists_branch_black d
  rw [rootPtr_branch] at hrun₁
  have hchildren := childrenBlack_eq (rep_sibling hR₁.rep)
  by_cases hblack : a.color = .black ∧ b.color = .black
  · -- the sibling becomes red, and the parent is the focus
    rw [decide_eq_true hblack] at hchildren
    obtain rfl : ca = .black := ha.color_eq.symm.trans hblack.1
    obtain rfl : cb = .black := hb.color_eq.symm.trans hblack.2
    obtain ⟨T₂, hT₂, hR₂⟩ := (rep_sibling hR₁.rep).recolor .red
    rw [plug_flip, plug_flip] at hR₂
    have hx₂ := hR₂.rep.parentOf_hole (hR₂.holeParent hR₁.rep hole₁)
    rw [hR₂.keeps.nil_eq, hnil₁] at hx₂
    have hred := ha.branch_red hb (d := d) (a := w)
    have hrep₂ : Rep T₂ (plug (branch d c₁ p t (branch d .red w a b)) ctx₁) := hR₂.rep
    have hnode : HoleParent T₂ (branch d c₁ p t (branch d .red w a b)) (parentPtr T₂.nil ctx₁) :=
      fun hnil => absurd hnil (RBTree.branch_ne_nil d c₁ p t _)
    have hrun : rbtreeDeleteFixupStep d T (rootPtr T.nil t) = some (T₂, p.addr) := by
      unfold rbtreeDeleteFixupStep
      refine bind_of_eq hx (bind_of_eq hw (bind_of_eq hrun₁ (bind_of_eq hchildren ?_)))
      exact (if_pos rfl).trans (bind_of_eq hT₂ (bind_of_eq hx₂ rfl))
    cases c₁ with
    | red =>
      refine ⟨T₂, p.addr, _, ctx₁, n, hrun, ⟨hrep₂, (rootPtr_branch ..).symm,
        Or.inr ⟨RBTree.color_branch .., ?_⟩, hfits₁.2.2.to_black, hnode⟩,
        Or.inl (RBTree.color_branch ..), hR₁.trans hR₂⟩
      rw [RBTree.recolor_branch]
      exact ht.branch_black hred
    | black =>
      have hlen : ctx₁.length ≤ ctx.length := hmeas.resolve_left (by decide)
      exact ⟨T₂, p.addr, _, ctx₁, n + 1, hrun, ⟨hrep₂, (rootPtr_branch ..).symm,
        Or.inl (ht.branch_black hred), hfits₁.2, hnode⟩, Or.inr hlen, hR₁.trans hR₂⟩
  · -- a red child of the sibling ends the loop at the root
    rw [decide_eq_false hblack] at hchildren
    obtain ⟨T₂, w₂, a₂, b₂, ca₂, hrun₂, hR₂, ha₂, hb₂⟩ :=
      deleteFarBlack_eq hR₁.rep ha hb hblack hole₁
    have hole₂ := hR₂.holeParent hR₁.rep hole₁
    have hfits₂ : Fits (⟨d, c₁, p, branch d .black w₂ a₂ b₂⟩ :: ctx₁) .black (n + 1) := by
      cases c₁ with
      | red => exact ⟨rfl, ha₂.branch_black hb₂, hfits₁.2.2⟩
      | black => exact ⟨⟨_, ha₂.branch_black hb₂⟩, hfits₁.2⟩
    obtain ⟨T₃, W₃, m, hrun₃, hR₃, hbal, hW⟩ := deleteFarRed_eq hR₂.rep ht ha₂ hb₂ hfits₂ hole₂
    rw [hnil₁] at hrun₂
    rw [hR₂.keeps.nil_eq, hnil₁] at hrun₃
    refine ⟨T₃, T₃.root, W₃, [], m, ?_, ⟨hR₃.rep, hR₃.rep.root_eq, Or.inl hbal, rfl,
      fun h => absurd h hW⟩, Or.inr (Nat.zero_le _), hR₁.trans (hR₂.trans hR₃)⟩
    unfold rbtreeDeleteFixupStep
    refine bind_of_eq hx (bind_of_eq hw (bind_of_eq hrun₁ (bind_of_eq hchildren ?_)))
    exact (if_neg Bool.false_ne_true).trans (bind_of_eq hrun₂ hrun₃)

/-- **What a round of the loop dereferences**: the parent of `x` and its
sibling are nodes, and the sibling still is where a rotation has given `x`
another one; the children of the sibling are nodes, unless they are `nil`, which
is black; and where one of them is red, the sibling the far child is read from is a
node again, and so is that child. -/
structure DeleteDerefs (N : Ptr → Prop) (T : KvsRbtree) (x : Ptr) (d : Side) (p w : Ptr)
    (T' : KvsRbtree) (w' a b : Ptr) : Prop where
  parent : T.parentOf x = some p ∧ N p
  side : (T.childOf .left p).map (fun l => if x = l then Side.left else .right) = some d
  sibling : T.childOf d.flip p = some w ∧ N w
  redSibling : rbtreeDeleteRedSibling d T x w = some (T', w') ∧ N w'
  near : T'.childOf d w' = some a ∧ (N a ∨ (a = T'.nil ∧ T'.colorOf a = some BLACK))
  far : T'.childOf d.flip w' = some b ∧ (N b ∨ (b = T'.nil ∧ T'.colorOf b = some BLACK))
  rotated : ¬ (T'.colorOf a = some BLACK ∧ T'.colorOf b = some BLACK) →
    ∃ T'' w'' b', rbtreeDeleteFarBlack d T' x w' = some (T'', w'') ∧ N w''
      ∧ T''.childOf d.flip w'' = some b' ∧ N b'

/-- The pointers a round dereferences are real nodes. -/
def DeleteReal (N : Ptr → Prop) (s : KvsRbtree × Ptr) : Prop :=
  ∃ d p w T' w' a b, DeleteDerefs N s.1 s.2 d p w T' w' a b

/-- **A round dereferences real nodes**: the sibling is there, because the tree
beside it is one black node short of it. -/
theorem deleteDerefs (h : Deleting T x t (⟨d, c, p, s⟩ :: ctx) n) {N : Ptr → Prop}
    (hN : ∀ q ∈ addrs (plug t (⟨d, c, p, s⟩ :: ctx)).toList, N q) :
    ∃ w T' w' a b, DeleteDerefs N T x d p.addr w T' w' a b := by
  obtain rfl := h.x_eq
  have hw := Rep.childOf_flip_focus (show Rep T (plug (branch d c p t s) ctx) from h.rep)
  obtain ⟨l, hl, hside⟩ := h.rep.side_eq (Or.inr h.fits.sibling_ne_nil)
  have hsibling : N (rootPtr T.nil s) := by
    rw [← plug_flip] at hN
    exact real_of_ne_nil hN h.fits.sibling_ne_nil
  have hp : N p.addr := hN _ (mem_addrs_frame (f := ⟨d, c, p, s⟩) List.mem_cons_self)
  obtain ⟨T₁, c₁, s₁, ctx₁, hrun₁, hR₁, hs₁, -⟩ := deleteRedSibling_eq h.rep h.fits h.hole
  obtain ⟨w, a, b, ca, cb, rfl, ha, hb⟩ := hs₁.exists_branch_black d
  rw [rootPtr_branch] at hrun₁
  -- the tree at the sibling and at its children
  rw [← hR₁.toList_eq] at hN
  have ha₁ : Rep T₁ (plug a (⟨d, .black, w, b⟩ :: ⟨d.flip, c₁, p, t⟩ :: ctx₁)) :=
    rep_sibling hR₁.rep
  have hw₁ : Rep T₁ (plug (branch d .black w a b) (⟨d.flip, c₁, p, t⟩ :: ctx₁)) := ha₁
  have hNa : ∀ q ∈ addrs (plug a (⟨d, .black, w, b⟩ :: ⟨d.flip, c₁, p, t⟩ :: ctx₁)).toList, N q := by
    rw [← plug_flip] at hN
    exact hN
  have hNb : ∀ q ∈ addrs (plug b (⟨d.flip, .black, w, a⟩ :: ⟨d.flip, c₁, p, t⟩ :: ctx₁)).toList,
      N q := by
    rw [plug_flip]
    exact hNa
  refine ⟨_, T₁, w.addr, _, _, ⟨h.rep.parentOf_hole h.hole, hp⟩, by rw [hl, Option.map_some, hside],
    ⟨hw, hsibling⟩, ⟨hrun₁, hNa _ (mem_addrs_frame List.mem_cons_self)⟩,
    ⟨hw₁.childOf_focus, ha₁.real_or_nil hNa⟩,
    ⟨hw₁.childOf_flip_focus, (rep_sibling ha₁).real_or_nil hNb⟩, fun hred => ?_⟩
  have hred' : ¬ (a.color = .black ∧ b.color = .black) := fun hblack => hred
    ⟨ha₁.colorOf_focus.trans (congrArg some (colorCode_eq_black.mpr hblack.1)),
      (rep_sibling ha₁).colorOf_focus.trans (congrArg some (colorCode_eq_black.mpr hblack.2))⟩
  obtain ⟨T₂, w₂, a₂, b₂, ca₂, hrun₂, hR₂, -, hb₂⟩ :=
    deleteFarBlack_eq hR₁.rep ha hb hred' (hR₁.holeParent h.rep h.hole)
  have hw₂ : Rep T₂ (plug (branch d .black w₂ a₂ b₂) (⟨d.flip, c₁, p, t⟩ :: ctx₁)) :=
    rep_sibling hR₂.rep
  have hNb₂ : ∀ q ∈ addrs (plug b₂ (⟨d.flip, .black, w₂, a₂⟩ :: ⟨d.flip, c₁, p, t⟩ :: ctx₁)).toList,
      N q := by
    rw [← hR₂.toList_eq, ← plug_flip] at hN
    rw [plug_flip]
    exact hN
  refine ⟨T₂, w₂.addr, _, ?_, hNb₂ _ (mem_addrs_frame List.mem_cons_self), hw₂.childOf_flip_focus,
    real_of_ne_nil hNb₂ ?_⟩
  · rw [← hR₁.keeps.nil_eq]
    exact hrun₂
  · rintro rfl
    cases hb₂

/-- **The loop of `rbtree_delete_fixup` once round**, or at its end. -/
def rbtreeDeleteFixupRound (s : KvsRbtree × Ptr) : Option (Option (KvsRbtree × Ptr)) := do
  if s.2 ≠ s.1.root then
    if (← s.1.colorOf s.2) = BLACK then
      let p ← s.1.parentOf s.2
      let l ← s.1.childOf .left p
      let next ← rbtreeDeleteFixupStep (if s.2 = l then .left else .right) s.1 s.2
      return some next
    else
      return none
  else
    return none

theorem deleteFixupLoop_eq (fuel : ℕ) (T : KvsRbtree) (x : Ptr) :
    rbtreeDeleteFixupLoop fuel T x = loopOn rbtreeDeleteFixupRound fuel (T, x) := by
  induction fuel generalizing T x with
  | zero => rfl
  | succ fuel ih =>
    unfold rbtreeDeleteFixupLoop loopOn
    simp only [ih]
    show _ = (rbtreeDeleteFixupRound (T, x)).bind _
    by_cases hroot : x ≠ T.root
    · have hround : rbtreeDeleteFixupRound (T, x) = (T.colorOf x).bind (fun color =>
          if color = BLACK then (T.parentOf x).bind (fun p => (T.childOf .left p).bind (fun l =>
            (rbtreeDeleteFixupStep (if x = l then .left else .right) T x).bind
              (fun next => some (some next)))) else some none) := if_pos hroot
      rw [if_pos hroot, hround]
      cases T.colorOf x with
      | none => rfl
      | some color =>
        by_cases hblack : color = BLACK
        · simp only [hblack, if_true, Option.bind_eq_bind, Option.bind_some]
          cases T.parentOf x with
          | none => rfl
          | some p =>
            simp only [Option.bind_some]
            cases T.childOf .left p with
            | none => rfl
            | some l =>
              simp only [Option.bind_some]
              cases rbtreeDeleteFixupStep (if x = l then .left else .right) T x <;> rfl
        · simp only [hblack, if_false, Option.bind_eq_bind, Option.bind_some]
    · rw [if_neg hroot, show rbtreeDeleteFixupRound (T, x) = some none from if_neg hroot]
      rfl

/-- **The loop ends with the tree repaired**, but for the colour of the focus.
A round leaves a shorter way up, or a red focus, which ends the loop. -/
theorem deleteFixup_ends (N : Ptr → Prop) (k : ℕ) : ∀ {T : KvsRbtree} {x : Ptr}
    {t : RBTree RbEntry} {ctx : List (Frame RbEntry)} {n : ℕ}, Deleting T x t ctx n →
    (t.color = .red ∨ ctx.length ≤ k) → (∀ q ∈ addrs (plug t ctx).toList, N q) →
    ∃ i T' t' ctx', i ≤ k
      ∧ Ends rbtreeDeleteFixupRound (DeleteReal N) i (T, x) (T', rootPtr T'.nil t')
      ∧ Reshapes T (plug t ctx) T' (plug t' ctx')
      ∧ ∃ m, Balanced (plug (t'.recolor .black) ctx') .black m := by
  induction k using Nat.strong_induction_on with
  | _ k ih =>
    intro T x t ctx n h hk hN
    obtain rfl := h.x_eq
    cases ctx with
    | nil =>
      refine ⟨0, T, t, [], Nat.zero_le k, .stop (if_neg (not_not.mpr h.rep.root_eq.symm)),
        h.rep.refl_reshapes, ?_⟩
      rcases h.short with hbal | ⟨-, hbal⟩
      · exact ⟨n, by rw [hbal.recolor_self]; exact hbal⟩
      · exact ⟨n + 1, hbal⟩
    | cons f ctx =>
      obtain ⟨d, c, p, s⟩ := f
      have hroot : rootPtr T.nil t ≠ T.root := h.rep.rootPtr_ne_root
      have hcolor := h.rep.colorOf_focus
      rcases h.short with hbal | ⟨hred, hbal⟩
      · rw [hbal.color_eq] at hcolor hk
        obtain ⟨T₁, x₁, t₁, ctx₁, n₁, hstep, hI, hmeas, hR⟩ := deleteFixupStep_eq h hbal
        have hlen := hk.resolve_left (by decide)
        rw [List.length_cons] at hlen
        obtain ⟨w, T₂, w₂, a, b, hderefs⟩ := deleteDerefs h hN
        obtain ⟨l, hl, hside⟩ := Option.map_eq_some_iff.mp hderefs.side
        have hround : rbtreeDeleteFixupRound (T, rootPtr T.nil t) = some (some (T₁, x₁)) := by
          refine (if_pos hroot).trans (bind_of_eq hcolor ((if_pos rfl).trans ?_))
          refine bind_of_eq (h.rep.parentOf_hole h.hole) (bind_of_eq hl ?_)
          rw [hside]
          exact bind_of_eq hstep rfl
        rw [← hR.toList_eq] at hN
        obtain ⟨i, T', t', ctx', hi, hends, hR', hbal'⟩ := ih (k - 1) (by omega) hI
          (hmeas.imp_right (fun hle => by omega)) hN
        exact ⟨i + 1, T', t', ctx', by omega,
          .round ⟨_, _, _, _, _, _, _, hderefs⟩ hround hends, hR.trans hR', hbal'⟩
      · rw [hred] at hcolor
        refine ⟨0, T, t, _, Nat.zero_le k, .stop ?_, h.rep.refl_reshapes, hbal.plug h.fits⟩
        exact (if_pos hroot).trans (bind_of_eq hcolor (if_neg (by decide)))

/-- **Blackening the focus**, which may be `nil`. -/
theorem setColor_focus (h : Rep T (plug t ctx)) :
    ∃ T', T.setColor (rootPtr T.nil t) BLACK = some T'
      ∧ Reshapes T (plug t ctx) T' (plug (t.recolor .black) ctx) := by
  cases t with
  | nil =>
    obtain ⟨p, hp⟩ := h.nil_cell
    have hload : ∀ q, (T.put T.nil (fun n => { n with color := BLACK })).nodes.load q
        = T.nodes.load q := by
      intro q
      by_cases hq : q = T.nil
      · rw [hq, hp]
        exact load_put_self _ hp
      · exact load_put_of_ne T _ hq
    exact ⟨_, write_eq hp _, h.congr rfl rfl (fun q _ => hload q), rfl,
      ⟨rfl, rfl, rfl, fun q _ => hload q⟩⟩
  | node c l e r =>
    exact Rep.recolor (show Rep T (plug (branch .left c e l r) ctx) from h) .black

/-- **The fixup after a deletion** leaves a balanced tree of the same nodes. -/
theorem deleteFixup_eq (h : Deleting T x t ctx n) :
    ∃ T' W', rbtreeDeleteFixup T x = some T' ∧ Reshapes T (plug t ctx) T' W'
      ∧ ∃ m, Balanced W' .black m := by
  have hfuel : ctx.length < T.nodes.next :=
    lt_of_le_of_lt (length_le_toList_plug t ctx) h.rep.length_lt
  obtain ⟨i, T₁, t₁, ctx₁, hi, hends, hR₁, hbal⟩ :=
    deleteFixup_ends (fun _ => True) ctx.length h (.inr le_rfl) (fun _ _ => trivial)
  have hloop : rbtreeDeleteFixupLoop T.nodes.next T x = some (T₁, rootPtr T₁.nil t₁) := by
    rw [deleteFixupLoop_eq, hends.loopOn_eq (lt_of_le_of_lt hi hfuel)]
  obtain ⟨T₂, hT₂, hR₂⟩ := setColor_focus hR₁.rep
  exact ⟨T₂, _, bind_of_eq hloop hT₂, hR₁.trans hR₂, hbal⟩

end Fixup

/-! ## Unlinking a node -/

section Unlink

variable {T : KvsRbtree} {t s : RBTree RbEntry} {y z : RbEntry} {c : Color} {d : Side}
  {ctx : List (Frame RbEntry)}

/-- The only child of a node that has at most one. -/
theorem onlyChild_eq (h : Rep T (plug (branch d c y t .nil) ctx)) :
    rbtreeOnlyChild T y.addr = some (rootPtr T.nil t) := by
  have hd := h.childOf_focus
  have hf := h.childOf_flip_focus
  unfold rbtreeOnlyChild
  cases d with
  | left =>
    refine bind_of_eq hd ?_
    by_cases ht : rootPtr T.nil t = T.nil
    · refine (if_neg (not_not.mpr ht)).trans (bind_of_eq hf ((if_neg (not_not.mpr rfl)).trans ?_))
      rw [ht]
      rfl
    · exact (if_pos ht).trans hd
  | right =>
    refine bind_of_eq hf ((if_neg (not_not.mpr rfl)).trans (bind_of_eq hd ?_))
    by_cases ht : rootPtr T.nil t = T.nil
    · refine (if_neg (not_not.mpr ht)).trans ?_
      rw [ht]
      rfl
    · exact (if_pos ht).trans hd

/-- **Putting the only child in the place of its parent.** The parent itself
is left as it was; `nil` may get a parent. -/
theorem unlink_eq (h : Rep T (plug (branch d c y t .nil) ctx)) :
    ∃ T', rbtreeUnlink T y.addr (rootPtr T.nil t) = some T' ∧ Rep T' (plug t ctx)
      ∧ HoleParent T' t (parentPtr T'.nil ctx) ∧ T'.nil = T.nil ∧ T'.strs = T.strs
      ∧ T'.nodes.next = T.nodes.next ∧ T'.nodes.load y.addr = T.nodes.load y.addr
      ∧ ∀ q, q ∉ T.nil :: addrs (plug (branch d c y t .nil) ctx).toList →
        T'.nodes.load q = T.nodes.load q := by
  obtain ⟨hsub, haround⟩ := sub_plug.mp h.sub
  obtain ⟨hy, ht, -⟩ := sub_branch.mp hsub
  rw [rootPtr_branch] at haround
  have hperm : (addrs (plug (branch d c y t .nil) ctx).toList).Perm
      (y.addr :: (addrs t.toList ++ addrs (outer ctx))) := by
    refine (perm_addrs_plug _ ctx).trans (((perm_addrs_branch d c y t .nil).append_right _).trans ?_)
    rw [show addrs (RBTree.nil : RBTree RbEntry).toList = [] from rfl, List.append_nil]
    exact List.Perm.refl _
  have hnd := (hperm.cons T.nil).nodup_iff.mp h.nodup
  simp only [List.nodup_cons, List.mem_cons, List.mem_append, not_or, List.nodup_append'] at hnd
  obtain ⟨⟨hny, hnt, hnO⟩, ⟨hyt, hyO⟩, htnd, hOnd, htO⟩ := hnd
  have hypt : y.addr ≠ rootPtr T.nil t := by
    rcases rootPtr_cases T.nil t with ⟨hp, -⟩ | hm
    · rw [hp]
      exact Ne.symm hny
    · exact fun heq => hyt (heq ▸ hm)
  have hptO : rootPtr T.nil t ∉ addrs (outer ctx) := by
    rcases rootPtr_cases T.nil t with ⟨hp, -⟩ | hm
    · rw [hp]
      exact hnO
    · exact htO hm
  -- the child gets its new parent, and then the parent its new child
  let T₁ := T.put (rootPtr T.nil t) (fun n => { n with parent := parentPtr T.nil ctx })
  let T₂ : KvsRbtree := { T₁ with
    root := topPtr (rootPtr T.nil t) ctx, nodes := rehang T₁.nodes ctx (rootPtr T.nil t) }
  have hload₁ : ∀ q, q ≠ rootPtr T.nil t → T₁.nodes.load q = T.nodes.load q :=
    fun q hq => load_put_of_ne T _ hq
  have hload₂ : ∀ q, q ∉ addrs (outer ctx) → T₂.nodes.load q = T₁.nodes.load q :=
    fun q hq => load_rehang hq
  have hlive : ∃ n, T.nodes.load (rootPtr T.nil t) = some n := by
    cases t with
    | nil =>
      obtain ⟨p, hp⟩ := h.nil_cell
      exact ⟨_, hp⟩
    | node c l e r => exact ⟨_, ht.1⟩
  obtain ⟨n, hn⟩ := hlive
  have hy₁ := (hload₁ _ hypt).trans hy
  have hy₂ := (hload₂ _ hyO).trans hy₁
  have haround₁ : Around T₁.nodes T.nil y.addr ctx :=
    haround.congr (fun q hq => hload₁ q (fun heq => hptO (heq ▸ hq)))
  have hsub₁ : Sub T₁.nodes T.nil (parentPtr T.nil ctx) t := by
    cases t with
    | nil => trivial
    | node c l e r => exact ht.reparent htnd
  have hnil₂ : ∃ p, T₂.nodes.load T.nil = some ⟨BLACK, T.nil, T.nil, p, 0, 0⟩
      ∧ (t = .nil → p = parentPtr T.nil ctx) := by
    obtain ⟨p, hp⟩ := h.nil_cell
    rw [hload₂ _ hnO]
    cases t with
    | nil => exact ⟨_, load_put_self _ hp, fun _ => rfl⟩
    | node c l e r =>
      refine ⟨p, (hload₁ _ (fun heq => hnt ?_)).trans hp, fun h => by cases h⟩
      rw [heq]
      exact mem_addrs (by simp [toList])
  obtain ⟨p, hp, hpt⟩ := hnil₂
  refine ⟨T₂, ?_, ⟨?_, sub_plug.mpr ⟨?_, ?_⟩, ⟨p, hp⟩, ?_⟩, ?_, rfl, rfl, ?_, ?_, ?_⟩
  · refine bind_of_eq h.parentOf_focus (bind_of_eq (write_eq hn _) ?_)
    refine relink_eq (T := T₁) ((parentOf_eq hy₁).trans (congrArg some (parent_cell ..)))
      haround₁ ?_ hnO hyO (Ne.symm hny) .left _
    exact h.root_eq.trans ((rootPtr_plug _ _ _).trans (by rw [rootPtr_branch]))
  · rw [rootPtr_plug]
    rfl
  · exact hsub₁.congr (fun q hq => hload₂ q (htO hq))
  · exact haround₁.rehang hOnd
  · refine ((perm_addrs_plug t ctx).cons T.nil).nodup_iff.mpr ?_
    rw [List.nodup_cons, List.mem_append, List.nodup_append']
    exact ⟨fun hm => hm.elim hnt hnO, htnd, hOnd, htO⟩
  · intro htnil
    refine (parentOf_eq hp).trans (congrArg some (hpt htnil))
  · simp [T₂, T₁, put]
  · rw [hy₂, hy]
  · intro q hq
    rw [List.mem_cons, hperm.mem_iff, List.mem_cons, List.mem_append] at hq
    simp only [not_or] at hq
    rw [hload₂ q hq.2.2.2]
    refine hload₁ q (fun heq => ?_)
    rcases rootPtr_cases T.nil t with ⟨hp, -⟩ | hm
    · exact hq.1 (heq.trans hp)
    · exact hq.2.2.1 (heq ▸ hm)

/-- **Exchanging the entries** of a node of the tree and of an unlinked one. -/
theorem swap_eq {ny : RbNode} (h : Rep T (plug (branch d c z t s) ctx))
    (hy : T.nodes.load y.addr = some ny) (hyk : ny.key = y.item.key) (hyv : ny.value = y.item.value)
    (hyW : y.addr ∉ T.nil :: addrs (plug (branch d c z t s) ctx).toList) :
    ∃ T', rbtreeSwap T y.addr z.addr = some T'
      ∧ Rep T' (plug (branch d c ⟨z.addr, y.item⟩ t s) ctx) ∧ T'.nil = T.nil ∧ T'.strs = T.strs
      ∧ T'.nodes.next = T.nodes.next
      ∧ T'.nodes.load y.addr = some { ny with key := z.item.key, value := z.item.value }
      ∧ ∀ q, q ≠ y.addr → q ≠ z.addr → T'.nodes.load q = T.nodes.load q := by
  have hz := h.load_focus
  have hmem : z.addr ∈ addrs (plug (branch d c z t s) ctx).toList :=
    ((perm_addrs_plug _ ctx).trans ((perm_addrs_branch d c z t s).append_right _)).mem_iff.mpr
      List.mem_cons_self
  have hyz : y.addr ≠ z.addr := fun heq => hyW (heq ▸ List.mem_cons_of_mem _ hmem)
  -- the writes, in the order of the program
  let T₁ := T.put z.addr (fun n => { n with key := ny.key })
  let T₂ := T₁.put y.addr (fun n => { n with key := z.item.key })
  let T₃ := T₂.put z.addr (fun n => { n with value := ny.value })
  let T₄ := T₃.put y.addr (fun n => { n with value := z.item.value })
  have hz₁ := load_put_self (fun n => { n with key := ny.key }) hz
  have hz₂ := (load_put_of_ne T₁ (fun n => { n with key := z.item.key }) hyz.symm).trans hz₁
  have hz₃ := load_put_self (T := T₂) (fun n => { n with value := ny.value }) hz₂
  have hz₄ := (load_put_of_ne T₃ (fun n => { n with value := z.item.value }) hyz.symm).trans hz₃
  have hy₁ := (load_put_of_ne T (fun n => { n with key := ny.key }) hyz).trans hy
  have hy₂ := load_put_self (T := T₁) (fun n => { n with key := z.item.key }) hy₁
  have hy₃ := (load_put_of_ne T₂ (fun n => { n with value := ny.value }) hyz).trans hy₂
  have hy₄ := load_put_self (T := T₃) (fun n => { n with value := z.item.value }) hy₃
  have hother : ∀ q, q ≠ y.addr → q ≠ z.addr → T₄.nodes.load q = T.nodes.load q := fun q hqy hqz => by
    rw [show T₄.nodes.load q = T₃.nodes.load q from load_put_of_ne T₃ _ hqy,
      show T₃.nodes.load q = T₂.nodes.load q from load_put_of_ne T₂ _ hqz,
      show T₂.nodes.load q = T₁.nodes.load q from load_put_of_ne T₁ _ hqy,
      show T₁.nodes.load q = T.nodes.load q from load_put_of_ne T _ hqz]
  refine ⟨T₄, ?_, h.setItem rfl rfl ?_ ?_, rfl, rfl, rfl, hy₄, hother⟩
  · unfold rbtreeSwap
    refine bind_of_eq hy (bind_of_eq hz ?_)
    rw [key_cell, value_cell]
    exact bind_of_eq (write_eq hz _) (bind_of_eq (write_eq hy₁ _)
      (bind_of_eq (write_eq hz₂ _) (write_eq hy₃ _)))
  · refine hz₄.trans (congrArg some ?_)
    cases d <;> simp [cell, hyk, hyv]
  · exact fun q hq hqz => hother q (fun heq => hyW (heq ▸ hq)) hqz

/-! ## The successor -/

/-- **The smallest node of a subtree** has no left child, and nothing of the
subtree is before it. -/
theorem miniFrom_eq (t : RBTree RbEntry) : ∀ {ctx : List (Frame RbEntry)} {fuel : ℕ},
    Rep T (plug t ctx) → t ≠ .nil → t.toList.length ≤ fuel →
    ∃ c y r ctx', rbtreeMiniFrom T fuel (rootPtr T.nil t) = some y.addr
      ∧ t = plug (node c .nil y r) ctx' ∧ before ctx' = [] := by
  induction t with
  | nil => exact fun _ h => absurd rfl h
  | node c l e r ihl _ =>
    intro ctx fuel h _ hfuel
    have hlen : (node c l e r).toList.length = l.toList.length + (r.toList.length + 1) := by
      simp [toList]
    rw [hlen] at hfuel
    obtain ⟨fuel, rfl⟩ : ∃ k, fuel = k + 1 := ⟨fuel - 1, by omega⟩
    have hchild := Rep.childOf_focus (show Rep T (plug (branch .left c e l r) ctx) from h)
    cases l with
    | nil =>
      refine ⟨c, e, r, [], ?_, rfl, rfl⟩
      exact bind_of_eq hchild (if_neg (not_not.mpr rfl))
    | node c₁ l₁ e₁ r₁ =>
      have hl : Rep T (plug (branch .left c₁ e₁ l₁ r₁) (⟨.left, c, e, r⟩ :: ctx)) := h
      obtain ⟨cy, y, ry, ctx', hmini, hplug, hbefore⟩ :=
        @ihl (⟨.left, c, e, r⟩ :: ctx) fuel h (fun hn => by cases hn) (by omega)
      refine ⟨cy, y, ry, ctx' ++ [⟨.left, c, e, r⟩], ?_, ?_, ?_⟩
      · exact bind_of_eq hchild ((if_pos hl.addr_ne_nil).trans hmini)
      · rw [plug_append, ← hplug]
        rfl
      · rw [before_append, hbefore]
        rfl

end Unlink

/-! ## Deletion -/

/-- The part of `rbtree_delete` before the fixup: the node that is unlinked,
and the child that has taken its place. -/
def rbtreeDetach (T : KvsRbtree) (z : Ptr) : Option (Ptr × Ptr × KvsRbtree) := do
  let y ← rbtreeSpliced T z
  let x ← rbtreeOnlyChild T y
  let T ← rbtreeUnlink T y x
  let T ← (if y ≠ z then rbtreeSwap T y z else some T)
  return (y, x, T)

theorem rbtreeDelete_eq (T : KvsRbtree) (z : Ptr) :
    rbtreeDelete T z = (rbtreeDetach T z).bind (fun r =>
      (r.2.2.colorOf r.1).bind (fun color =>
        (if color = BLACK then rbtreeDeleteFixup r.2.2 r.2.1 else some r.2.2).bind
          (fun T => some (r.1, T)))) := by
  unfold rbtreeDelete rbtreeDetach
  simp only [Option.bind_eq_bind, Option.bind_assoc, Option.pure_def, Option.bind_some]

/-- **What `rbtree_delete` has done before the fixup**: the entry of `z` is out
of the tree, the node `y` that carries it is unlinked, and the subtree `t`
that took its place may be one black node short. -/
structure Detached (T : KvsRbtree) (W : RBTree RbEntry) (z : RbEntry) (y : Ptr) (T' : KvsRbtree)
    (t : RBTree RbEntry) (ctx : List (Frame RbEntry)) (cy : Color) : Prop where
  rep : Rep T' (plug t ctx)
  hole : HoleParent T' t (parentPtr T'.nil ctx)
  fits : ∃ d e c n, Balanced (branch d cy e t .nil) c n ∧ Fits ctx c n
  items : ∃ xs ys, W.toList.map RbEntry.item = xs ++ z.item :: ys
    ∧ (plug t ctx).toList.map RbEntry.item = xs ++ ys
  addrs_perm : (addrs W.toList).Perm (y :: addrs (plug t ctx).toList)
  nil_eq : T'.nil = T.nil
  strs_eq : T'.strs = T.strs
  next_eq : T'.nodes.next = T.nodes.next
  cell : ∃ n, T'.nodes.load y = some n ∧ n.color = colorCode cy ∧ n.key = z.item.key
    ∧ n.value = z.item.value
  frame : ∀ q, q ∉ T.nil :: addrs W.toList → T'.nodes.load q = T.nodes.load q

/-- **What `rbtree_delete` leaves**: a balanced tree without the entry of `z`,
and an unlinked node `y` that carries its key and its value. -/
structure Deleted (T : KvsRbtree) (W : RBTree RbEntry) (z : RbEntry) (y : Ptr) (T' : KvsRbtree)
    (W' : RBTree RbEntry) : Prop where
  rep : Rep T' W'
  bal : ∃ m, Balanced W' .black m
  items : ∃ xs ys, W.toList.map RbEntry.item = xs ++ z.item :: ys
    ∧ W'.toList.map RbEntry.item = xs ++ ys
  nil_eq : T'.nil = T.nil
  strs_eq : T'.strs = T.strs
  carries : ∃ n, T'.nodes.load y = some n ∧ n.key = z.item.key ∧ n.value = z.item.value
  fresh : y ∉ T'.nil :: addrs W'.toList

section Delete

variable {T : KvsRbtree} {W l r t : RBTree RbEntry} {y z : RbEntry} {c cy : Color} {d : Side}
  {ctx : List (Frame RbEntry)} {n m : ℕ}

/-- **Unlinking a black node** leaves its place one black node short. -/
theorem deleting_of_unlinked (h : Rep T (plug t ctx))
    (hole : HoleParent T t (parentPtr T.nil ctx)) (hbal : Balanced (branch d .black y t .nil) c n)
    (hfits : Fits ctx c n) : ∃ k, Deleting T (rootPtr T.nil t) t ctx k := by
  obtain ⟨rfl, k, c₁, c₂, rfl, ht, -⟩ := hbal.of_branch_black
  have hshort : Balanced t .black k
      ∨ (t.color = .red ∧ Balanced (t.recolor .black) .black (k + 1)) := by
    cases c₁ with
    | red => exact Or.inr ⟨ht.color_eq, ht.recolor_black⟩
    | black => exact Or.inl ht
  exact ⟨k, h, rfl, hshort, hfits, hole⟩

/-- The fixup is needed for a black node only. -/
theorem finish_eq (h : Rep T (plug t ctx)) (hole : HoleParent T t (parentPtr T.nil ctx))
    (hbal : Balanced (branch d cy y t .nil) c n) (hfits : Fits ctx c n) :
    ∃ T' W', (if colorCode cy = BLACK then rbtreeDeleteFixup T (rootPtr T.nil t) else some T)
        = some T'
      ∧ Reshapes T (plug t ctx) T' W' ∧ ∃ m, Balanced W' .black m := by
  cases cy with
  | red =>
    obtain ⟨rfl, ht, -⟩ := hbal.of_branch_red
    exact ⟨T, _, if_neg (by decide), h.refl_reshapes, ht.plug hfits.to_black⟩
  | black =>
    obtain ⟨k, hI⟩ := deleting_of_unlinked h hole hbal hfits
    obtain ⟨T', W', hfix, hR, hbal'⟩ := deleteFixup_eq hI
    exact ⟨T', W', (if_pos rfl).trans hfix, hR, hbal'⟩

/-- A reshaped tree has its unlinked nodes where they were. -/
theorem Reshapes.load_unlinked {T' : KvsRbtree} {W W' : RBTree RbEntry} (hR : Reshapes T W T' W')
    {p : Ptr} (hp : p ∉ T.nil :: addrs W.toList) :
    T'.nodes.load p = T.nodes.load p ∧ p ∉ T'.nil :: addrs W'.toList := by
  rw [hR.toList_eq, hR.keeps.nil_eq]
  exact ⟨hR.keeps.load_eq p (fun hm => hp (List.mem_cons_of_mem _ hm)), hp⟩

/-- A node is none of the others, and not `nil`. -/
theorem Rep.notMem_of_perm {y : Ptr} {L : List Ptr} (h : Rep T W)
    (hperm : (addrs W.toList).Perm (y :: L)) : y ∉ T.nil :: L := by
  obtain ⟨hnil, hnd⟩ := List.nodup_cons.mp ((hperm.cons T.nil).nodup_iff.mp h.nodup)
  intro hm
  rcases List.mem_cons.mp hm with rfl | hm
  · exact hnil List.mem_cons_self
  · exact (List.nodup_cons.mp hnd).1 hm

/-- The unlinked node is not in the tree any more. -/
theorem Detached.fresh {y : Ptr} {T' : KvsRbtree} (hD : Detached T W z y T' t ctx cy)
    (h : Rep T W) : y ∉ T'.nil :: addrs (plug t ctx).toList := by
  rw [hD.nil_eq]
  exact h.notMem_of_perm hD.addrs_perm

/-- The pointers of a tree with a node that has at most one child. -/
theorem perm_addrs_unlink (d : Side) (c : Color) (y : RbEntry) (t : RBTree RbEntry)
    (ctx : List (Frame RbEntry)) :
    (addrs (plug (branch d c y t .nil) ctx).toList).Perm
      (y.addr :: addrs (plug t ctx).toList) := by
  refine (perm_addrs_plug _ ctx).trans (((perm_addrs_branch d c y t .nil).append_right _).trans ?_)
  rw [show addrs (RBTree.nil : RBTree RbEntry).toList = [] from rfl, List.append_nil]
  exact (perm_addrs_plug t ctx).symm.cons _

/-- **A node with at most one child** is unlinked itself. -/
theorem detach_one (h : Rep T (plug (branch d c z t .nil) ctx))
    (hbal : Balanced (plug (branch d c z t .nil) ctx) .black m) :
    ∃ T', rbtreeDetach T z.addr = some (z.addr, rootPtr T'.nil t, T')
      ∧ Detached T (plug (branch d c z t .nil) ctx) z z.addr T' t ctx c := by
  obtain ⟨k, n, hfocus, hfits⟩ := exists_fits hbal
  obtain ⟨T₁, hunlink, hrep₁, hole₁, hnil₁, hstrs₁, hnext₁, hload₁, hframe₁⟩ := unlink_eq h
  have hz := hload₁.trans h.load_focus
  have hspliced : rbtreeSpliced T z.addr = some z.addr := by
    have hd := h.childOf_focus
    have hf := h.childOf_flip_focus
    unfold rbtreeSpliced
    cases d with
    | left =>
      refine bind_of_eq hd ?_
      split
      · rfl
      · exact bind_of_eq hf (if_pos rfl)
    | right => exact bind_of_eq hf (if_pos rfl)
  refine ⟨T₁, ?_, hrep₁, hole₁, ⟨d, z, k, n, hfocus, hfits⟩, ?_, perm_addrs_unlink d c z t ctx,
    hnil₁, hstrs₁, hnext₁, ⟨_, hz, color_cell .., key_cell .., value_cell ..⟩, hframe₁⟩
  · unfold rbtreeDetach
    refine bind_of_eq hspliced (bind_of_eq (onlyChild_eq h) (bind_of_eq hunlink ?_))
    rw [hnil₁]
    exact bind_of_eq (if_neg (not_not.mpr rfl)) rfl
  · rw [toList_plug, toList_plug]
    cases d with
    | left =>
      refine ⟨(before ctx ++ t.toList).map RbEntry.item, (after ctx).map RbEntry.item, ?_, ?_⟩
      · simp [branch, toList]
      · simp
    | right =>
      refine ⟨(before ctx).map RbEntry.item, (t.toList ++ after ctx).map RbEntry.item, ?_, ?_⟩
      · simp [branch, toList]
      · simp

/-- The successor of a node with a right child is the smallest node there. -/
theorem spliced_two (h : Rep T (plug (node c l z r) ctx)) (hl : l ≠ .nil) (hr : r ≠ .nil) :
    ∃ cy y ry ctx', rbtreeSpliced T z.addr = some y.addr ∧ r = plug (node cy .nil y ry) ctx'
      ∧ before ctx' = [] := by
  have hleft := Rep.childOf_focus (show Rep T (plug (branch .left c z l r) ctx) from h)
  have hright := Rep.childOf_focus (show Rep T (plug (branch .right c z r l) ctx) from h)
  have hparent := Rep.parentOf_focus (show Rep T (plug (branch .left c z l r) ctx) from h)
  have hne : ∀ {t : RBTree RbEntry} {ctx : List (Frame RbEntry)}, Rep T (plug t ctx) → t ≠ .nil →
      rootPtr T.nil t ≠ T.nil := by
    intro t ctx ht htne
    cases t with
    | nil => exact absurd rfl htne
    | node c l e r => exact Rep.addr_ne_nil (show Rep T (plug (branch .left c e l r) ctx) from ht)
  have hrepr : Rep T (plug r (⟨.right, c, z, l⟩ :: ctx)) := h
  have hlen : r.toList.length ≤ T.nodes.next := by
    refine le_trans ?_ h.length_lt.le
    rw [toList_plug]
    simp only [toList, List.length_append, List.length_cons]
    omega
  obtain ⟨cy, y, ry, ctx', hmini, hplug, hbefore⟩ := miniFrom_eq r hrepr hr hlen
  refine ⟨cy, y, ry, ctx', ?_, hplug, hbefore⟩
  unfold rbtreeSpliced
  have hleftRep : Rep T (plug l (⟨.left, c, z, r⟩ :: ctx)) := h
  refine bind_of_eq hleft ((if_neg (hne hleftRep hl)).trans ?_)
  refine bind_of_eq hright ((if_neg (hne hrepr hr)).trans ?_)
  exact bind_of_eq hparent (bind_of_eq hright ((if_pos (hne hrepr hr)).trans hmini))

/-- **A node with two children** gets the entry of its successor, which is
unlinked in its place. -/
theorem detach_two (h : Rep T (plug (node c l z r) ctx))
    (hbal : Balanced (plug (node c l z r) ctx) .black m) (hl : l ≠ .nil) (hr : r ≠ .nil) :
    ∃ y T' t' ctx' cy, rbtreeDetach T z.addr = some (y, rootPtr T'.nil t', T')
      ∧ Detached T (plug (node c l z r) ctx) z y T' t' ctx' cy := by
  obtain ⟨cy, y, ry, ctx', hspliced, rfl, hbefore⟩ := spliced_two h hl hr
  -- the tree at the successor, and at `z`
  have hat : ∀ (t : RBTree RbEntry) (z : RbEntry),
      plug t (ctx' ++ ⟨.right, c, z, l⟩ :: ctx) = plug (branch .right c z (plug t ctx') l) ctx :=
    fun t z => plug_append t ctx' _
  have hrep : Rep T (plug (branch .right cy y ry .nil) (ctx' ++ ⟨.right, c, z, l⟩ :: ctx)) := by
    rw [hat]
    exact h
  have hbal' : Balanced (plug (branch .right cy y ry .nil) (ctx' ++ ⟨.right, c, z, l⟩ :: ctx))
      .black m := by
    rw [hat]
    exact hbal
  obtain ⟨k, n, hfocus, hfits⟩ := exists_fits hbal'
  obtain ⟨T₁, hunlink, hrep₁, hole₁, hnil₁, hstrs₁, hnext₁, hload₁, hframe₁⟩ := unlink_eq hrep
  have hy₁ := hload₁.trans hrep.load_focus
  have hperm := perm_addrs_unlink .right cy y ry (ctx' ++ ⟨.right, c, z, l⟩ :: ctx)
  have hfresh₁ := hrep.notMem_of_perm hperm
  rw [hat, ← hnil₁] at hfresh₁
  obtain ⟨T₂, hswap, hrep₂, hnil₂, hstrs₂, hnext₂, hy₂, hother₂⟩ := swap_eq
    (show Rep T₁ (plug (branch .right c z (plug ry ctx') l) ctx) from hat ry z ▸ hrep₁) hy₁
    (key_cell ..) (value_cell ..) hfresh₁
  have hrep₂' : Rep T₂ (plug ry (ctx' ++ ⟨.right, c, ⟨z.addr, y.item⟩, l⟩ :: ctx)) := by
    rw [hat]
    exact hrep₂
  have hparent : ∀ p : Ptr, parentPtr p (ctx' ++ ⟨.right, c, ⟨z.addr, y.item⟩, l⟩ :: ctx)
      = parentPtr p (ctx' ++ ⟨.right, c, z, l⟩ :: ctx) := by
    intro p
    cases ctx' <;> rfl
  have hynil : T₁.nil ≠ y.addr := fun heq => hfresh₁ (heq ▸ List.mem_cons_self)
  have hznil : T₁.nil ≠ z.addr := by
    have hz := Rep.addr_ne_nil (show Rep T (plug (branch .left c z l _) ctx) from h)
    rw [hnil₁]
    exact hz.symm
  have hole₂ : HoleParent T₂ ry
      (parentPtr T₂.nil (ctx' ++ ⟨.right, c, ⟨z.addr, y.item⟩, l⟩ :: ctx)) := by
    intro hry
    have hp := hole₁ hry
    unfold parentOf at hp ⊢
    rw [hparent, hnil₂, hother₂ _ hynil hznil]
    exact hp
  have hlist : ∀ z : RbEntry, (plug ry (ctx' ++ ⟨.right, c, z, l⟩ :: ctx)).toList
      = before ctx ++ (l.toList ++ z :: (plug ry ctx').toList) ++ after ctx := by
    intro z
    rw [hat, toList_plug]
    rfl
  have haddrs : addrs (plug ry (ctx' ++ ⟨.right, c, ⟨z.addr, y.item⟩, l⟩ :: ctx)).toList
      = addrs (plug ry (ctx' ++ ⟨.right, c, z, l⟩ :: ctx)).toList := by
    rw [hlist, hlist]
    simp [addrs]
  have hzmem : z.addr ∈ addrs (plug ry (ctx' ++ ⟨.right, c, z, l⟩ :: ctx)).toList := by
    rw [hlist]
    exact mem_addrs (by simp)
  have hyz : y.addr ≠ z.addr := fun heq => hfresh₁
    (List.mem_cons_of_mem _ (by rw [heq, ← hat]; exact hzmem))
  refine ⟨y.addr, T₂, ry, _, cy, ?_, hrep₂', hole₂, ⟨.right, y, k, n, hfocus, hfits.set_elem _⟩,
    ?_, ?_, hnil₂.trans hnil₁, hstrs₂.trans hstrs₁, hnext₂.trans hnext₁,
    ⟨_, hy₂, color_cell .., rfl, rfl⟩, ?_⟩
  · unfold rbtreeDetach
    refine bind_of_eq hspliced (bind_of_eq (onlyChild_eq hrep) (bind_of_eq hunlink ?_))
    rw [hnil₂, hnil₁]
    exact bind_of_eq ((if_pos hyz).trans hswap) rfl
  · refine ⟨(before ctx ++ l.toList).map RbEntry.item,
      y.item :: ((plug ry ctx').toList ++ after ctx).map RbEntry.item, ?_, ?_⟩
    · rw [toList_plug, toList, toList_plug, toList_plug, hbefore]
      simp [toList]
    · rw [hlist]
      simp
  · rw [haddrs]
    have hperm' := hperm
    rw [hat] at hperm'
    exact hperm'
  · intro q hq
    have hq' : q ∉ T.nil :: addrs (plug (branch .right cy y ry .nil)
        (ctx' ++ ⟨.right, c, z, l⟩ :: ctx)).toList := by
      rw [hat]
      exact hq
    have hmem : ∀ p ∈ y.addr :: addrs (plug ry (ctx' ++ ⟨.right, c, z, l⟩ :: ctx)).toList,
        q ≠ p := fun p hp heq =>
      hq' (List.mem_cons_of_mem _ (hperm.mem_iff.mpr (heq ▸ hp)))
    rw [hother₂ q (hmem _ List.mem_cons_self) (hmem _ (List.mem_cons_of_mem _ hzmem))]
    exact hframe₁ q hq'

/-- **Every node of the tree can be taken out of it.** -/
theorem detach_eq (h : Rep T W) (hbal : Balanced W .black m) (hz : z ∈ W.toList) :
    ∃ y T' t ctx cy, rbtreeDetach T z.addr = some (y, rootPtr T'.nil t, T')
      ∧ Detached T W z y T' t ctx cy := by
  obtain ⟨c, l, r, ctx, rfl⟩ := exists_focus hz
  by_cases hl : l = .nil
  · subst hl
    obtain ⟨T', hrun, hD⟩ :=
      detach_one (show Rep T (plug (branch .right c z r .nil) ctx) from h) hbal
    exact ⟨_, T', _, _, _, hrun, hD⟩
  · by_cases hr : r = .nil
    · subst hr
      obtain ⟨T', hrun, hD⟩ :=
        detach_one (show Rep T (plug (branch .left c z l .nil) ctx) from h) hbal
      exact ⟨_, T', _, _, _, hrun, hD⟩
    · exact detach_two h hbal hl hr

/-- **`rbtree_delete` from a node taken out**: the fixup reshapes the tree. -/
theorem Detached.delete_eq {y : Ptr} {T₁ : KvsRbtree} (hD : Detached T W z y T₁ t ctx cy)
    (hrun : rbtreeDetach T z.addr = some (y, rootPtr T₁.nil t, T₁)) :
    ∃ T' W', rbtreeDelete T z.addr = some (y, T') ∧ Reshapes T₁ (plug t ctx) T' W'
      ∧ ∃ m, Balanced W' .black m := by
  obtain ⟨d, e, c, n, hfocus, hfits⟩ := hD.fits
  obtain ⟨T', W', hfinish, hR, hbal⟩ := finish_eq hD.rep hD.hole hfocus hfits
  obtain ⟨node, hnode, hcolor, -⟩ := hD.cell
  refine ⟨T', W', ?_, hR, hbal⟩
  rw [rbtreeDelete_eq]
  refine bind_of_eq hrun (bind_of_eq ((colorOf_eq hnode).trans (congrArg some hcolor)) ?_)
  exact bind_of_eq hfinish rfl

/-- **`rbtree_delete`** removes the entry of any node of the tree, and returns
a node that carries it. -/
theorem delete_eq (h : Rep T W) (hbal : Balanced W .black m) (hz : z ∈ W.toList) :
    ∃ y T' W', rbtreeDelete T z.addr = some (y, T') ∧ Deleted T W z y T' W'
      ∧ (addrs W.toList).Perm (y :: addrs W'.toList)
      ∧ ∀ q, q ∉ T.nil :: addrs W.toList → T'.nodes.load q = T.nodes.load q := by
  obtain ⟨y, T₁, t, ctx, cy, hrun, hD⟩ := detach_eq h hbal hz
  obtain ⟨T', W', hdel, hR, hbal'⟩ := hD.delete_eq hrun
  obtain ⟨hload, hfresh⟩ := hR.load_unlinked (hD.fresh h)
  obtain ⟨n, hn, -, hkey, hvalue⟩ := hD.cell
  have hperm := hD.addrs_perm
  rw [← hR.toList_eq] at hperm
  refine ⟨y, T', W', hdel, ⟨hR.rep, hbal', ?_, hR.keeps.nil_eq.trans hD.nil_eq,
    hR.keeps.strs_eq.trans hD.strs_eq, ⟨n, hload.trans hn, hkey, hvalue⟩, hfresh⟩, hperm,
    fun q hq => ?_⟩
  · rw [hR.toList_eq]
    exact hD.items
  · rw [hR.keeps.load_eq q (fun hm => ?_), hD.frame q hq]
    exact hq (List.mem_cons_of_mem _ (hD.addrs_perm.mem_iff.mpr (List.mem_cons_of_mem _ hm)))

end Delete

end KvsRbtree
