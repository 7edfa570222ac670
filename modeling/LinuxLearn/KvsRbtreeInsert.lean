import LinuxLearn.KvsRbtreeRep

/-!
# Insertion into the red-black tree

A new node is red, so what `rbtree_insert` can break is that a red node
has black children, and only between the new node and its parent. The
loop of `rbtree_insert_fixup` moves this one defect up by two levels while
the uncle is red, and removes it by one or two rotations as soon as the
uncle is black. Its invariant is `Inserting`: the subtree at the focus is
balanced with a red root, and its context fits a black one.
-/

open RedBlack
open RedBlack.RBTree (plug branch node toList)

namespace KvsRbtree

/-- **The invariant of the insertion loop**: the focus `z` is a balanced red
subtree, in a context for a black one. -/
structure Inserting (T : KvsRbtree) (z : Ptr) (t : RBTree RbEntry) (ctx : List (Frame RbEntry))
    (n : ℕ) : Prop where
  rep : Rep T (plug t ctx)
  z_eq : z = rootPtr T.nil t
  bal : Balanced t .red n
  fits : Fits ctx .black n

section Fixup

variable {T : KvsRbtree} {z : Ptr} {t s u : RBTree RbEntry} {p g : RbEntry} {d d' : Side}
  {ctx : List (Frame RbEntry)} {n : ℕ}

/-- The parent of the focus. -/
theorem Inserting.parentOf_eq (h : Inserting T z t ctx n) :
    T.parentOf z = some (parentPtr T.nil ctx) := by
  obtain ⟨e, x, y, rfl, -⟩ := h.bal.exists_branch_red .left
  rw [h.z_eq, rootPtr_branch, KvsRbtree.parentOf_eq h.rep.load_focus, parent_cell]

/-- **A red uncle**: the parent and the uncle become black and the grandparent
red, and the defect is now at the grandparent. -/
theorem insertRecolor_eq
    (h : Inserting T z t (⟨d, .red, p, s⟩ :: ⟨d', .black, g, u⟩ :: ctx) n)
    (hs : Balanced s .black n) (hu : Balanced u .red n) (hctx : Fits ctx .black (n + 1)) :
    ∃ T' t', rbtreeInsertRecolor T z (rootPtr T.nil u) = some (T', g.addr)
      ∧ Inserting T' g.addr t' ctx (n + 1)
      ∧ Reshapes T (plug t (⟨d, .red, p, s⟩ :: ⟨d', .black, g, u⟩ :: ctx)) T' (plug t' ctx) := by
  obtain ⟨ue, u₁, u₂, rfl, hu₁, hu₂⟩ := hu.exists_branch_red .left
  obtain ⟨ze, z₁, z₂, rfl, hz₁, hz₂⟩ := h.bal.exists_branch_red .left
  obtain rfl := h.z_eq
  have hrep : Rep T (plug (branch d .red p (branch .left .red ze z₁ z₂) s)
      (⟨d', .black, g, branch .left .red ue u₁ u₂⟩ :: ctx)) := h.rep
  obtain ⟨T₁, hT₁, hR₁⟩ := hrep.recolor .black
  -- the uncle, and the grandparent, in the tree recoloured so far
  have hrep₁ := hR₁.rep
  rw [← plug_flip] at hrep₁
  obtain ⟨T₂, hT₂, hR₂⟩ := hrep₁.recolor .black
  rw [plug_flip, plug_flip] at hR₂
  have hrep₂ : Rep T₂ (plug (branch d' .black g (branch d .black p (branch .left .red ze z₁ z₂) s)
      (branch .left .black ue u₁ u₂)) ctx) := hR₂.rep
  obtain ⟨T₃, hT₃, hR₃⟩ := hrep₂.recolor .red
  have hz₂' : T₂.parentOf ze.addr = some p.addr :=
    (show Rep T₂ (plug (branch d .black p _ s) (⟨d', .black, g, _⟩ :: ctx)) from hrep₂).parentOf_child
  have hz₃' : T₃.parentOf ze.addr = some p.addr :=
    (show Rep T₃ (plug (branch d .black p _ s) (⟨d', .red, g, _⟩ :: ctx)) from hR₃.rep).parentOf_child
  have hp₂ := hrep₂.parentOf_child
  have hp₃ := hR₃.rep.parentOf_child
  refine ⟨T₃, _, ?_, ⟨hR₃.rep, (rootPtr_branch ..).symm, ?_, hctx⟩, hR₁.trans (hR₂.trans hR₃)⟩
  · unfold rbtreeInsertRecolor
    rw [rootPtr_branch, rootPtr_branch]
    refine bind_of_eq hrep.parentOf_child ?_
    refine bind_of_eq hT₁ ?_
    refine bind_of_eq hT₂ ?_
    refine bind_of_eq hz₂' (bind_of_eq hp₂ ?_)
    refine bind_of_eq hT₃ ?_
    exact bind_of_eq hz₃' (bind_of_eq hp₃ rfl)
  · exact (((hz₁.branch_red hz₂).branch_black hs)).branch_red (hu₁.branch_black hu₂)

/-- **The focus on the outer side**: a focus on the inner side is rotated with
its parent, and the former parent is the focus then. -/
theorem insertInner_eq (h : Inserting T z t (⟨d, .red, p, s⟩ :: ctx) n) (hs : Balanced s .black n)
    (d' : Side) :
    ∃ T' t' p' s', rbtreeInsertInner d' T z = some (T', rootPtr T'.nil t')
      ∧ Balanced t' .red n ∧ Balanced s' .black n
      ∧ Reshapes T (plug t (⟨d, .red, p, s⟩ :: ctx)) T' (plug t' (⟨d', .red, p', s'⟩ :: ctx)) := by
  have hz := h.parentOf_eq
  have hrep : Rep T (plug (branch d .red p t s) ctx) := h.rep
  have hne : t ≠ .nil := by
    rintro rfl
    cases h.bal
  unfold rbtreeInsertInner
  by_cases hd : d = d'
  · subst hd
    refine ⟨T, t, p, s, ?_, h.bal, hs, h.rep.refl_reshapes⟩
    refine bind_of_eq hz (bind_of_eq hrep.childOf_flip_focus ?_)
    refine (if_neg ?_).trans (congrArg (fun z => some (T, z)) h.z_eq)
    rw [h.z_eq]
    exact hrep.rootPtr_ne (Or.inl hne)
  · obtain rfl := Side.eq_flip_of_ne hd
    obtain ⟨ze, B, C, rfl, hB, hC⟩ := h.bal.exists_branch_red d'
    have hrep' : Rep T (plug (branch d' .red p s (branch d' .red ze B C)) ctx) := by
      have hflip := h.rep
      rw [plug_flip] at hflip
      exact hflip
    obtain ⟨T', hT', hR⟩ := hrep'.rotate
    refine ⟨T', branch d' .red p s B, ze, C, ?_, hs.branch_red hB, hC, ?_⟩
    · refine bind_of_eq hz (bind_of_eq hrep.childOf_focus ?_)
      refine (if_pos h.z_eq).trans (bind_of_eq hz (bind_of_eq hT' ?_))
      rw [rootPtr_branch]
      rfl
    · rw [plug_flip]
      exact hR

/-- **A black uncle**: the parent takes the place of the grandparent, and the
tree is repaired. -/
theorem insertRotate_eq
    (h : Inserting T z t (⟨d, .red, p, s⟩ :: ⟨d', .black, g, u⟩ :: ctx) n)
    (hs : Balanced s .black n) (hu : Balanced u .black n) (hctx : Fits ctx .black (n + 1)) :
    ∃ T' z' t' p' s', rbtreeInsertRotate d' T z = some (T', z')
      ∧ Inserting T' z' t' (⟨d', .black, p', s'⟩ :: ctx) n
      ∧ Reshapes T (plug t (⟨d, .red, p, s⟩ :: ⟨d', .black, g, u⟩ :: ctx))
        T' (plug t' (⟨d', .black, p', s'⟩ :: ctx)) := by
  obtain ⟨T₁, t', p', s', hinner, ht', hs', hR₁⟩ := insertInner_eq h hs d'
  obtain ⟨ze, z₁, z₂, rfl, -⟩ := ht'.exists_branch_red .left
  have hrep₁ : Rep T₁ (plug (branch d' .red p' (branch .left .red ze z₁ z₂) s')
      (⟨d', .black, g, u⟩ :: ctx)) := hR₁.rep
  obtain ⟨T₂, hT₂, hR₂⟩ := hrep₁.recolor .black
  have hrep₂ : Rep T₂ (plug (branch d' .black g
      (branch d' .black p' (branch .left .red ze z₁ z₂) s') u) ctx) := hR₂.rep
  have hz₂ : T₂.parentOf ze.addr = some p'.addr := hR₂.rep.parentOf_child
  obtain ⟨T₃, hT₃, hR₃⟩ := hrep₂.recolor .red
  have hz₃ : T₃.parentOf ze.addr = some p'.addr :=
    (show Rep T₃ (plug (branch d' .black p' _ s') (⟨d', .red, g, u⟩ :: ctx)) from
      hR₃.rep).parentOf_child
  obtain ⟨T₄, hT₄, hR₄⟩ := hR₃.rep.rotate_flip
  refine ⟨T₄, ze.addr, branch .left .red ze z₁ z₂, p', branch d' .red g s' u, ?_,
    ⟨hR₄.rep, (rootPtr_branch ..).symm, ht', ⟨_, hs'.branch_red hu⟩, hctx⟩,
    hR₁.trans (hR₂.trans (hR₃.trans hR₄))⟩
  unfold rbtreeInsertRotate
  rw [rootPtr_branch] at hinner
  refine bind_of_eq hinner (bind_of_eq hrep₁.parentOf_child (bind_of_eq hT₂ ?_))
  refine bind_of_eq hz₂ (bind_of_eq hrep₂.parentOf_child (bind_of_eq hT₃ ?_))
  exact bind_of_eq hz₃ (bind_of_eq hR₃.rep.parentOf_child (bind_of_eq hT₄ rfl))

/-- **One step of the loop**: the defect is closer to the root. -/
theorem insertFixupStep_eq
    (h : Inserting T z t (⟨d, .red, p, s⟩ :: ⟨d', .black, g, u⟩ :: ctx) n) :
    ∃ T' z' t' ctx' n', rbtreeInsertFixupStep d' T z = some (T', z')
      ∧ Inserting T' z' t' ctx' n' ∧ ctx'.length < ctx.length + 2
      ∧ Reshapes T (plug t (⟨d, .red, p, s⟩ :: ⟨d', .black, g, u⟩ :: ctx)) T' (plug t' ctx') := by
  obtain ⟨-, hs, ⟨c, hu⟩, hctx⟩ := h.fits
  have hp : Rep T (plug (branch d .red p t s) (⟨d', .black, g, u⟩ :: ctx)) := h.rep
  have hg : Rep T (plug (branch d' .black g (branch d .red p t s) u) ctx) := h.rep
  have hu' : T.colorOf (rootPtr T.nil u) = some (colorCode c) := by
    rw [← hu.color_eq]
    have hflip := h.rep
    exact Rep.colorOf_focus (show Rep T (plug u (⟨d'.flip, .black, g, branch d .red p t s⟩ :: ctx)) by
      rw [plug_flip]
      exact hflip)
  unfold rbtreeInsertFixupStep
  cases c with
  | red =>
    obtain ⟨T', t', hrun, hI, hR⟩ := insertRecolor_eq h hs hu hctx
    refine ⟨T', g.addr, t', ctx, n + 1, ?_, hI, by omega, hR⟩
    refine bind_of_eq h.parentOf_eq (bind_of_eq hp.parentOf_focus ?_)
    exact bind_of_eq hg.childOf_flip_focus (bind_of_eq hu' ((if_pos rfl).trans hrun))
  | black =>
    obtain ⟨T', z', t', p', s', hrun, hI, hR⟩ := insertRotate_eq h hs hu hctx
    refine ⟨T', z', t', _, n, ?_, hI, Nat.lt_succ_self _, hR⟩
    refine bind_of_eq h.parentOf_eq (bind_of_eq hp.parentOf_focus ?_)
    exact bind_of_eq hg.childOf_flip_focus (bind_of_eq hu' ((if_neg (by decide)).trans hrun))

/-- **What a round of the loop dereferences**: the parent and the grandparent
are nodes; the uncle is one too, unless it is `nil`, of which only the colour
is read; and where the uncle is black, what the rotations find above the focus
are nodes again. -/
structure InsertDerefs (N : Ptr → Prop) (T : KvsRbtree) (z : Ptr) (d : Side) (p g y : Ptr) :
    Prop where
  parent : T.parentOf z = some p ∧ N p
  grandparent : T.parentOf p = some g ∧ N g
  side : (T.childOf .left g).map (fun l => if p = l then Side.left else .right) = some d
  uncle : T.childOf d.flip g = some y ∧ (N y ∨ (y = T.nil ∧ T.colorOf y = some BLACK))
  rotated : T.colorOf y ≠ some RED → ∃ T' z' p' g', rbtreeInsertInner d T z = some (T', z')
    ∧ T'.parentOf z' = some p' ∧ T'.parentOf p' = some g' ∧ N p' ∧ N g'

/-- The pointers a round dereferences are real nodes. -/
def InsertReal (N : Ptr → Prop) (s : KvsRbtree × Ptr) : Prop :=
  ∃ d p g y, InsertDerefs N s.1 s.2 d p g y

/-- The pointer to a part of the tree that is not empty is to a node. -/
theorem real_of_ne_nil {N : Ptr → Prop} {nil : Ptr} (hN : ∀ q ∈ addrs (plug t ctx).toList, N q)
    (ht : t ≠ .nil) : N (rootPtr nil t) := by
  cases t with
  | nil => exact absurd rfl ht
  | node c l e r =>
    refine hN _ ((perm_addrs_plug _ ctx).mem_iff.mpr (List.mem_append_left _ ?_))
    exact mem_addrs (by simp [toList])

/-- The pointer to a part of the tree is to a node, or is `nil`, which is
black. -/
theorem Rep.real_or_nil {N : Ptr → Prop} (h : Rep T (plug t ctx))
    (hN : ∀ q ∈ addrs (plug t ctx).toList, N q) :
    N (rootPtr T.nil t) ∨ (rootPtr T.nil t = T.nil ∧ T.colorOf (rootPtr T.nil t) = some BLACK) := by
  by_cases ht : t = .nil
  · subst ht
    exact .inr ⟨rfl, h.colorOf_focus⟩
  · exact .inl (real_of_ne_nil hN ht)

/-- The nodes above the focus are nodes of the tree. -/
theorem mem_addrs_frame {f : Frame RbEntry} (hf : f ∈ ctx) :
    f.elem.addr ∈ addrs (plug t ctx).toList := by
  refine (perm_addrs_plug t ctx).mem_iff.mpr (List.mem_append_right _ ?_)
  induction ctx with
  | nil => cases hf
  | cons g ctx ih =>
    rw [outer, addrs_cons, addrs_append]
    rcases List.mem_cons.mp hf with rfl | hf
    · exact List.mem_cons_self
    · exact List.mem_cons_of_mem _ (List.mem_append_right _ (ih hf))

/-- **A round dereferences real nodes.** -/
theorem insertDerefs
    (h : Inserting T z t (⟨d, .red, p, s⟩ :: ⟨d', .black, g, u⟩ :: ctx) n) {N : Ptr → Prop}
    (hN : ∀ q ∈ addrs (plug t (⟨d, .red, p, s⟩ :: ⟨d', .black, g, u⟩ :: ctx)).toList, N q) :
    InsertDerefs N T z d' p.addr g.addr (rootPtr T.nil u) := by
  obtain ⟨-, hs, -⟩ := h.fits
  have hp : Rep T (plug (branch d .red p t s) (⟨d', .black, g, u⟩ :: ctx)) := h.rep
  have hg : Rep T (plug (branch d' .black g (branch d .red p t s) u) ctx) := h.rep
  have hu : Rep T (plug u (⟨d'.flip, .black, g, branch d .red p t s⟩ :: ctx)) := by
    rw [plug_flip]
    exact h.rep
  obtain ⟨l, hl, hside⟩ := hp.side_eq (Or.inl (RBTree.branch_ne_nil d .red p t s))
  rw [rootPtr_branch] at hside
  refine ⟨⟨h.parentOf_eq, hN _ (mem_addrs_frame (f := ⟨d, .red, p, s⟩) (by simp))⟩,
    ⟨hp.parentOf_focus, hN _ (mem_addrs_frame (f := ⟨d', .black, g, u⟩) (by simp))⟩,
    by rw [hl, Option.map_some, hside], ⟨hg.childOf_flip_focus, hu.real_or_nil ?_⟩, fun _ => ?_⟩
  · rw [plug_flip]
    exact hN
  · obtain ⟨T', t', p', s', hinner, ht', -, hR⟩ := insertInner_eq h hs d'
    obtain ⟨ze, z₁, z₂, rfl, -⟩ := ht'.exists_branch_red .left
    rw [rootPtr_branch] at hinner
    have hN' := hN
    rw [← hR.toList_eq] at hN'
    have hp' : Rep T' (plug (branch d' .red p' _ s') (⟨d', .black, g, u⟩ :: ctx)) := hR.rep
    exact ⟨T', ze.addr, p'.addr, g.addr, hinner, hp'.parentOf_child, hp'.parentOf_focus,
      hN' _ (mem_addrs_frame (f := ⟨d', .red, p', s'⟩) (by simp)),
      hN' _ (mem_addrs_frame (f := ⟨d', .black, g, u⟩) (by simp))⟩

/-- **The loop of `rbtree_insert_fixup` once round**, or at its end. -/
def rbtreeInsertFixupRound (s : KvsRbtree × Ptr) : Option (Option (KvsRbtree × Ptr)) := do
  let zp ← s.1.parentOf s.2
  if (← s.1.colorOf zp) = RED then
    let zpp ← s.1.parentOf zp
    let l ← s.1.childOf .left zpp
    let next ← rbtreeInsertFixupStep (if zp = l then .left else .right) s.1 s.2
    return some next
  else
    return none

theorem insertFixupLoop_eq (fuel : ℕ) (T : KvsRbtree) (z : Ptr) :
    rbtreeInsertFixupLoop fuel T z = (loopOn rbtreeInsertFixupRound fuel (T, z)).map Prod.fst := by
  induction fuel generalizing T z with
  | zero => rfl
  | succ fuel ih =>
    simp only [rbtreeInsertFixupLoop, loopOn, ih]
    show _ = Option.map Prod.fst ((rbtreeInsertFixupRound (T, z)).bind _)
    unfold rbtreeInsertFixupRound
    cases T.parentOf z with
    | none => rfl
    | some zp =>
      simp only [Option.bind_eq_bind, Option.bind_some]
      cases T.colorOf zp with
      | none => rfl
      | some color =>
        simp only [Option.bind_some]
        split
        · cases T.parentOf zp with
          | none => rfl
          | some zpp =>
            simp only [Option.bind_some]
            cases T.childOf .left zpp with
            | none => rfl
            | some l =>
              simp only [Option.bind_some]
              cases rbtreeInsertFixupStep (if zp = l then .left else .right) T z <;> rfl
        · rfl

/-- **The loop ends with the tree repaired**, but for the colour of its root. -/
theorem insertFixup_ends (N : Ptr → Prop) (k : ℕ) : ∀ {T : KvsRbtree} {z : Ptr}
    {t : RBTree RbEntry} {ctx : List (Frame RbEntry)} {n : ℕ}, Inserting T z t ctx n →
    ctx.length ≤ k → (∀ q ∈ addrs (plug t ctx).toList, N q) →
    ∃ i T' z' W', i ≤ k ∧ Ends rbtreeInsertFixupRound (InsertReal N) i (T, z) (T', z')
      ∧ Reshapes T (plug t ctx) T' W' ∧ ∃ m, Balanced (W'.recolor .black) .black m := by
  induction k using Nat.strong_induction_on with
  | _ k ih =>
    intro T z t ctx n h hk hN
    have hz := h.parentOf_eq
    -- the loop ends below `nil` and below a black node
    have hend : T.colorOf (parentPtr T.nil ctx) = some BLACK →
        rbtreeInsertFixupRound (T, z) = some none := fun hcolor =>
      bind_of_eq hz (bind_of_eq hcolor (if_neg (by decide)))
    cases ctx with
    | nil =>
      obtain ⟨p, hp⟩ := h.rep.nil_cell
      exact ⟨0, T, z, t, Nat.zero_le k, .stop (hend (colorOf_eq hp)), h.rep.refl_reshapes, n + 1,
        h.bal.recolor_black⟩
    | cons f ctx =>
      obtain ⟨d, c, p, s⟩ := f
      have hp : Rep T (plug (branch d c p t s) ctx) := h.rep
      have hcolor : T.colorOf p.addr = some (colorCode c) :=
        (colorOf_eq hp.load_focus).trans (congrArg some (color_cell ..))
      cases c with
      | black =>
        obtain ⟨m, hm⟩ := h.bal.plug (show Fits (⟨d, .black, p, s⟩ :: ctx) .red n from h.fits)
        refine ⟨0, T, z, _, Nat.zero_le k, .stop (hend hcolor), h.rep.refl_reshapes, m, ?_⟩
        rw [hm.recolor_self]
        exact hm
      | red =>
        obtain ⟨d', g, u, ctx, rfl, -⟩ := h.fits.2.2.of_red
        obtain ⟨T₁, z₁, t₁, ctx₁, n₁, hstep, hI, hlen, hR⟩ := insertFixupStep_eq h
        have hderefs := insertDerefs h hN
        obtain ⟨l, hl, hside⟩ := Option.map_eq_some_iff.mp hderefs.side
        have hround : rbtreeInsertFixupRound (T, z) = some (some (T₁, z₁)) := by
          refine bind_of_eq hz (bind_of_eq hcolor ((if_pos rfl).trans ?_))
          refine bind_of_eq hp.parentOf_focus (bind_of_eq hl ?_)
          rw [show (if parentPtr T.nil (⟨d, .red, p, s⟩ :: ⟨d', .black, g, u⟩ :: ctx) = l
            then Side.left else Side.right) = d' from hside]
          exact bind_of_eq hstep rfl
        simp only [List.length_cons] at hk
        rw [← hR.toList_eq] at hN
        obtain ⟨i, T', z', W', hi, hends, hR', hbal⟩ := ih (k - 1) (by omega) hI (by omega) hN
        exact ⟨i + 1, T', z', W', by omega, .round ⟨_, _, _, _, hderefs⟩ hround hends,
          hR.trans hR', hbal⟩

/-- **The fixup after an insertion** leaves a balanced tree of the same
nodes. -/
theorem insertFixup_eq (h : Inserting T z t ctx n) :
    ∃ T' W', rbtreeInsertFixup T z = some T' ∧ Reshapes T (plug t ctx) T' W'
      ∧ ∃ m, Balanced W' .black m := by
  have hfuel : ctx.length < T.nodes.next :=
    lt_of_le_of_lt (length_le_toList_plug t ctx) h.rep.length_lt
  obtain ⟨i, T₁, z₁, W₁, hi, hends, hR₁, m, hbal⟩ :=
    insertFixup_ends (fun _ => True) ctx.length h le_rfl (fun _ _ => trivial)
  have hloop : rbtreeInsertFixupLoop T.nodes.next T z = some T₁ := by
    rw [insertFixupLoop_eq, hends.loopOn_eq (lt_of_le_of_lt hi hfuel)]
    rfl
  cases W₁ with
  | nil =>
    -- the tree has the focus as an element
    exfalso
    obtain ⟨e, x, y, rfl, -⟩ := h.bal.exists_branch_red .left
    have hlist := hR₁.toList_eq
    rw [toList_plug] at hlist
    simp [branch, toList] at hlist
  | node c l e r =>
    obtain ⟨T₂, hT₂, hR₂⟩ := Rep.recolor (show Rep T₁ (plug (branch .left c e l r) []) from hR₁.rep)
      .black
    refine ⟨T₂, node .black l e r, bind_of_eq hloop ?_, hR₁.trans hR₂, m, hbal⟩
    rw [hR₁.rep.root_eq]
    exact hT₂

end Fixup

/-! ## The position of a key -/

/-- The nodes are in the order of their keys. -/
def Sorted (L : List RbEntry) : Prop := L.Pairwise (fun a b => a.item.k < b.item.k)

/-- The keys of the nodes are where they say. -/
def Keyed (T : KvsRbtree) (L : List RbEntry) : Prop :=
  ∀ e ∈ L, T.strs.load e.item.key = some e.item.k

theorem Rep.keyAt {T : KvsRbtree} {W : RBTree RbEntry} {e : RbEntry} (h : Rep T W)
    (hkeys : Keyed T W.toList) (he : e ∈ W.toList) : T.keyAt e.addr = some e.item.k := by
  obtain ⟨n, hn, hkey, -⟩ := h.load_of_mem he
  unfold KvsRbtree.keyAt
  refine bind_of_eq hn ?_
  rw [hkey]
  exact hkeys e he

section Descent

variable {T : KvsRbtree} {z : Ptr} {key : CString}

/-- **The descent finds the place of a new key**: between the nodes with
smaller keys and those with larger ones. -/
theorem insertDescend_eq (hz : T.keyAt z = some key) (t : RBTree RbEntry) :
    ∀ {ctx : List (Frame RbEntry)} {fuel : ℕ}, Rep T (plug t ctx) → Keyed T (plug t ctx).toList →
      Sorted (plug t ctx).toList → (∀ e ∈ (plug t ctx).toList, e.item.k ≠ key) →
      (∀ e ∈ before ctx, e.item.k < key) → (∀ e ∈ after ctx, key < e.item.k) →
      t.toList.length < fuel →
      ∃ ctx', rbtreeInsertDescend T z fuel (rootPtr T.nil t) (parentPtr T.nil ctx)
          = some (some (parentPtr T.nil ctx'))
        ∧ plug t ctx = plug .nil ctx' ∧ (∀ e ∈ before ctx', e.item.k < key)
        ∧ ∀ e ∈ after ctx', key < e.item.k := by
  induction t with
  | nil =>
    intro ctx fuel _ _ _ _ hbefore hafter hfuel
    obtain ⟨fuel, rfl⟩ := Nat.exists_eq_add_of_lt hfuel
    refine ⟨ctx, ?_, rfl, hbefore, hafter⟩
    exact if_neg (not_not.mpr rfl)
  | node c l e r ihl ihr =>
    intro ctx fuel hrep hkeys hsorted hnew hbefore hafter hfuel
    obtain ⟨fuel, rfl⟩ := Nat.exists_eq_add_of_lt hfuel
    have hrep' : Rep T (plug (branch .left c e l r) ctx) := hrep
    have hmem : e ∈ (plug (node c l e r) ctx).toList := by
      rw [toList_plug]
      simp [toList]
    have hk := hrep.keyAt hkeys hmem
    have hne : e.addr ≠ T.nil := hrep'.addr_ne_nil
    have hmid : Sorted (l.toList ++ e :: r.toList) := by
      have hs := hsorted
      rw [toList_plug] at hs
      exact (List.pairwise_append.mp (List.pairwise_append.mp hs).1).2.1
    obtain ⟨-, hright, hleft⟩ := List.pairwise_append.mp hmid
    have hstep : rbtreeInsertDescend T z ((l.toList ++ e :: r.toList).length + fuel + 1) e.addr
        (parentPtr T.nil ctx)
        = if strcmp key e.item.k < 0 then
            rbtreeInsertDescend T z ((l.toList ++ e :: r.toList).length + fuel)
              (rootPtr T.nil l) e.addr
          else if 0 < strcmp key e.item.k then
            rbtreeInsertDescend T z ((l.toList ++ e :: r.toList).length + fuel)
              (rootPtr T.nil r) e.addr
          else some none := by
      refine (if_pos hne).trans (bind_of_eq hz (bind_of_eq hk ?_))
      split
      · exact bind_of_eq hrep'.childOf_focus rfl
      · refine bind_of_eq hz (bind_of_eq hk ?_)
        split
        · exact bind_of_eq hrep'.childOf_flip_focus rfl
        · rfl
    show ∃ ctx', rbtreeInsertDescend T z ((l.toList ++ e :: r.toList).length + fuel + 1) e.addr
      (parentPtr T.nil ctx) = _ ∧ _
    rw [hstep]
    rcases lt_or_gt_of_ne (hnew e hmem) with hlt | hgt
    · rw [if_neg (fun h => lt_asymm hlt ((strcmp_neg _ _).mp h)), if_pos ((strcmp_pos _ _).mpr hlt)]
      refine @ihr (⟨.right, c, e, l⟩ :: ctx) _ hrep hkeys hsorted hnew ?_ hafter ?_
      · intro x hx
        rcases List.mem_append.mp hx with hx | hx
        · exact hbefore x hx
        · rcases List.mem_append.mp hx with hx | hx
          · exact (hleft x hx e List.mem_cons_self).trans hlt
          · rw [List.mem_singleton.mp hx]
            exact hlt
      · simp only [List.length_append, List.length_cons]
        omega
    · rw [if_pos ((strcmp_neg _ _).mpr hgt)]
      refine @ihl (⟨.left, c, e, r⟩ :: ctx) _ hrep hkeys hsorted hnew hbefore ?_ ?_
      · intro x hx
        rcases List.mem_append.mp hx with hx | hx
        · rcases List.mem_cons.mp hx with rfl | hx
          · exact hgt
          · exact hgt.trans ((List.pairwise_cons.mp hright).1 x hx)
        · exact hafter x hx
      · simp only [List.length_append, List.length_cons]
        omega

/-- **Attaching the new node** below the last node of the descent. -/
theorem attach_eq {ctx : List (Frame RbEntry)} (h : Around T.nodes T.nil T.nil ctx)
    (hroot : T.root = topPtr T.nil ctx) (hnil : T.nil ∉ addrs (outer ctx))
    (hkeys : Keyed T (outer ctx)) (hz : T.keyAt z = some key)
    (hbefore : ∀ e ∈ before ctx, e.item.k < key) (hafter : ∀ e ∈ after ctx, key < e.item.k) :
    rbtreeAttach T (parentPtr T.nil ctx) z
      = some { T with root := topPtr z ctx, nodes := rehang T.nodes ctx z } := by
  unfold rbtreeAttach
  cases ctx with
  | nil => exact if_pos rfl
  | cons f ctx =>
    obtain ⟨d, c, e, s⟩ := f
    obtain ⟨hf, -, -⟩ := h
    have hne : e.addr ≠ T.nil := fun heq => hnil (heq ▸ List.mem_cons_self)
    have hk : T.keyAt e.addr = some e.item.k := by
      unfold KvsRbtree.keyAt
      refine bind_of_eq hf ?_
      rw [key_cell]
      exact hkeys e List.mem_cons_self
    refine (if_neg hne).trans (bind_of_eq hz (bind_of_eq hk ?_))
    have hchild : T.setChild d e.addr z
        = some { T with root := topPtr z (⟨d, c, e, s⟩ :: ctx),
                        nodes := rehang T.nodes (⟨d, c, e, s⟩ :: ctx) z } := by
      rw [show topPtr z (⟨d, c, e, s⟩ :: ctx) = T.root from hroot.symm]
      exact write_eq hf _
    cases d with
    | left => exact (if_pos ((strcmp_neg _ _).mpr (hafter e List.mem_cons_self))).trans hchild
    | right =>
      have hlt : e.item.k < key := hbefore e (by simp [before])
      exact (if_neg (fun h => lt_asymm hlt ((strcmp_neg _ _).mp h))).trans hchild

end Descent

section Insert

variable {T : KvsRbtree} {W : RBTree RbEntry} {e : RbEntry} {n : RbNode} {m : ℕ}

/-- **The new node in its place**, red, before the fixup. -/
theorem place_eq {ctx : List (Frame RbEntry)} (h : Rep T (plug .nil ctx))
    (hkeys : Keyed T (plug RBTree.nil ctx).toList) (hkey : T.strs.load e.item.key = some e.item.k)
    (hload : T.nodes.load e.addr = some n) (hnk : n.key = e.item.key)
    (hnv : n.value = e.item.value)
    (hfresh : e.addr ∉ T.nil :: addrs (plug RBTree.nil ctx).toList)
    (hbefore : ∀ x ∈ before ctx, x.item.k < e.item.k)
    (hafter : ∀ x ∈ after ctx, e.item.k < x.item.k) :
    ∃ T', rbtreePlace T (parentPtr T.nil ctx) e.addr = some T'
      ∧ Rep T' (plug (node .red .nil e .nil) ctx)
      ∧ Keeps T T' (e :: (plug RBTree.nil ctx).toList) := by
  obtain ⟨-, haround⟩ := sub_plug.mp h.sub
  have hperm := perm_addrs_plug RBTree.nil ctx
  have hmem : ∀ q, q ∈ addrs (outer ctx) ↔ q ∈ addrs (plug RBTree.nil ctx).toList := fun q => by
    rw [hperm.mem_iff]
    exact Iff.rfl
  obtain ⟨hen, heW⟩ : e.addr ≠ T.nil ∧ e.addr ∉ addrs (plug RBTree.nil ctx).toList := by
    rw [List.mem_cons, not_or] at hfresh
    exact hfresh
  obtain ⟨hnilW, hndW⟩ := List.nodup_cons.mp h.nodup
  have heO : e.addr ∉ addrs (outer ctx) := fun hm => heW ((hmem _).mp hm)
  have hnilO : T.nil ∉ addrs (outer ctx) := fun hm => hnilW ((hmem _).mp hm)
  -- the writes, in the order of the program
  let T₁ := T.put e.addr (fun n => { n with parent := parentPtr T.nil ctx })
  let T₂ : KvsRbtree :=
    { T₁ with root := topPtr e.addr ctx, nodes := rehang T₁.nodes ctx e.addr }
  let T₃ := T₂.put e.addr (fun n => n.withChild .left T.nil)
  let T₄ := T₃.put e.addr (fun n => n.withChild .right T.nil)
  let T₅ := T₄.put e.addr (fun n => { n with color := RED })
  have h₁ : T₁.nodes.load e.addr = some { n with parent := parentPtr T.nil ctx } :=
    load_put_self _ hload
  have h₂ : T₂.nodes.load e.addr = some { n with parent := parentPtr T.nil ctx } :=
    (load_rehang heO).trans h₁
  have h₃ : T₃.nodes.load e.addr = some { n with parent := parentPtr T.nil ctx, left := T.nil } :=
    load_put_self _ h₂
  have h₄ : T₄.nodes.load e.addr
      = some { n with parent := parentPtr T.nil ctx, left := T.nil, right := T.nil } :=
    load_put_self _ h₃
  have h₅ : T₅.nodes.load e.addr
      = some (cell .red e (parentPtr T.nil ctx) .left T.nil T.nil) := by
    refine (load_put_self _ h₄).trans ?_
    show some (RbNode.mk RED T.nil T.nil (parentPtr T.nil ctx) n.key n.value) = _
    rw [hnk, hnv]
    rfl
  have haround₁ : Around T₁.nodes T.nil T.nil ctx :=
    haround.congr (fun q hq => load_put_of_ne T _ (fun heq => heO (heq ▸ hq)))
  have hkey₁ : T₁.keyAt e.addr = some e.item.k := by
    unfold KvsRbtree.keyAt
    refine bind_of_eq h₁ ?_
    show T.strs.load n.key = _
    rw [hnk]
    exact hkey
  have hfar : ∀ q, q ≠ e.addr → T₅.nodes.load q = T₂.nodes.load q := fun q hq => by
    rw [show T₅.nodes.load q = T₄.nodes.load q from load_put_of_ne T₄ _ hq,
      show T₄.nodes.load q = T₃.nodes.load q from load_put_of_ne T₃ _ hq,
      show T₃.nodes.load q = T₂.nodes.load q from load_put_of_ne T₂ _ hq]
  have hout : ∀ q, q ≠ e.addr → q ∉ addrs (outer ctx) → T₅.nodes.load q = T.nodes.load q :=
    fun q hq hqO => by
      rw [hfar q hq, show T₂.nodes.load q = T₁.nodes.load q from load_rehang hqO,
        show T₁.nodes.load q = T.nodes.load q from load_put_of_ne T _ hq]
  have hOnd : (addrs (outer ctx)).Nodup := by
    have hnd := hperm.nodup_iff.mp hndW
    exact hnd
  refine ⟨T₅, ?_, ⟨?_, sub_plug.mpr ⟨⟨?_, trivial, trivial⟩, ?_⟩, ?_, ?_⟩, ⟨rfl, rfl, ?_, ?_⟩⟩
  · refine bind_of_eq (write_eq hload _) ?_
    refine bind_of_eq (attach_eq (T := T₁) haround₁ ?_ hnilO ?_ hkey₁ hbefore hafter) ?_
    · exact h.root_eq.trans (rootPtr_plug _ _ _)
    · intro x hx
      exact hkeys x ((perm_plug _ _).mem_iff.mpr hx)
    refine bind_of_eq (write_eq h₂ _) (bind_of_eq (write_eq h₃ _) (write_eq h₄ _))
  · rw [rootPtr_plug]
    rfl
  · exact h₅
  · exact (haround₁.rehang hOnd).congr (fun q hq => hfar q (fun heq => heO (heq ▸ hq)))
  · obtain ⟨p, hp⟩ := h.nil_cell
    exact ⟨p, (hout _ hen.symm hnilO).trans hp⟩
  · have hperm' := perm_addrs_plug (node .red .nil e .nil) ctx
    refine List.nodup_cons.mpr ⟨fun hm => ?_, hperm'.nodup_iff.mpr ?_⟩
    · rcases List.mem_cons.mp (hperm'.mem_iff.mp hm) with heq | hm
      · exact hen heq.symm
      · exact hnilO hm
    · exact List.nodup_cons.mpr ⟨heO, hOnd⟩
  · simp [T₅, T₄, T₃, T₂, T₁, put]
  · intro q hq
    rw [addrs_cons, List.mem_cons, not_or, ← hmem] at hq
    exact hout q hq.1 hq.2

/-- **A new node is put below a leaf**, between the smaller and the larger
keys, where the loop finds it. -/
theorem exists_placed (h : Rep T W) (hbal : Balanced W .black m) (hsorted : Sorted W.toList)
    (hkeys : Keyed T W.toList) (hkey : T.strs.load e.item.key = some e.item.k)
    (hload : T.nodes.load e.addr = some n) (hnk : n.key = e.item.key)
    (hnv : n.value = e.item.value) (hfresh : e.addr ∉ T.nil :: addrs W.toList)
    (hnew : ∀ x ∈ W.toList, x.item.k ≠ e.item.k) :
    ∃ ctx T', rbtreeInsertDescend T e.addr T.nodes.next T.root T.nil
          = some (some (parentPtr T.nil ctx))
      ∧ rbtreePlace T (parentPtr T.nil ctx) e.addr = some T' ∧ W = plug .nil ctx
      ∧ (∀ x ∈ before ctx, x.item.k < e.item.k) ∧ (∀ x ∈ after ctx, e.item.k < x.item.k)
      ∧ Inserting T' e.addr (node .red .nil e .nil) ctx 0 ∧ Keeps T T' (e :: W.toList) := by
  have hz : T.keyAt e.addr = some e.item.k := by
    unfold KvsRbtree.keyAt
    refine bind_of_eq hload ?_
    rw [hnk]
    exact hkey
  obtain ⟨ctx, hdesc, hplug, hbefore, hafter⟩ :=
    @insertDescend_eq T e.addr e.item.k hz W [] T.nodes.next h hkeys hsorted hnew
      (fun _ hx => absurd hx List.not_mem_nil) (fun _ hx => absurd hx List.not_mem_nil) h.length_lt
  have hW : W = plug .nil ctx := hplug
  subst hW
  obtain ⟨T', hplace, hrep, hkeeps⟩ := place_eq h hkeys hkey hload hnk hnv hfresh hbefore hafter
  obtain ⟨c, k, hnil, hfits⟩ := exists_fits hbal
  obtain rfl : k = 0 := by
    cases hnil
    rfl
  rw [← h.root_eq] at hdesc
  exact ⟨ctx, T', hdesc, hplace, rfl, hbefore, hafter,
    ⟨hrep, rfl, .red .nil .nil, hfits.to_black⟩, hkeeps⟩

/-- **`rbtree_insert`** puts a new node at its place in the order, and leaves
a balanced tree. -/
theorem insert_eq (h : Rep T W) (hbal : Balanced W .black m) (hsorted : Sorted W.toList)
    (hkeys : Keyed T W.toList) (hkey : T.strs.load e.item.key = some e.item.k)
    (hload : T.nodes.load e.addr = some n) (hnk : n.key = e.item.key)
    (hnv : n.value = e.item.value) (hfresh : e.addr ∉ T.nil :: addrs W.toList)
    (hnew : ∀ x ∈ W.toList, x.item.k ≠ e.item.k) :
    ∃ T' W' xs ys m', rbtreeInsert T e.addr = some T' ∧ Rep T' W' ∧ Balanced W' .black m'
      ∧ W.toList = xs ++ ys ∧ W'.toList = xs ++ e :: ys ∧ Sorted (xs ++ e :: ys)
      ∧ Keeps T T' (e :: W.toList) := by
  obtain ⟨ctx, T₁, hdesc, hplace, rfl, hbefore, hafter, hins, hkeeps₁⟩ :=
    exists_placed h hbal hsorted hkeys hkey hload hnk hnv hfresh hnew
  obtain ⟨T₂, W', hfix, hR, m', hbal'⟩ := insertFixup_eq hins
  have hlist : (plug RBTree.nil ctx).toList = before ctx ++ after ctx := by
    rw [toList_plug]
    simp [toList]
  have hlist' : (plug (node .red .nil e .nil) ctx).toList = before ctx ++ e :: after ctx := by
    rw [toList_plug]
    simp [toList]
  refine ⟨T₂, W', before ctx, after ctx, m', ?_, hR.rep, hbal', hlist, ?_, ?_, ?_⟩
  · unfold rbtreeInsert
    exact bind_of_eq hdesc (bind_of_eq hplace hfix)
  · rw [hR.toList_eq, hlist']
  · unfold Sorted at hsorted ⊢
    rw [hlist, List.pairwise_append] at hsorted
    refine List.pairwise_append.mpr ⟨hsorted.1, List.pairwise_cons.mpr ⟨hafter, hsorted.2.1⟩, ?_⟩
    intro a ha b hb
    rcases List.mem_cons.mp hb with rfl | hb
    · exact hbefore a ha
    · exact hsorted.2.2 a ha b hb
  · refine hkeeps₁.trans ?_
    have hperm : (plug (node .red .nil e .nil) ctx).toList.Perm
        (e :: (plug RBTree.nil ctx).toList) := by
      rw [hlist, hlist']
      exact List.perm_middle
    exact ⟨hR.keeps.nil_eq, hR.keeps.strs_eq, hR.keeps.next_eq, fun q hq =>
      hR.keeps.load_eq q (fun hm => hq ((hperm.map RbEntry.addr).mem_iff.mp hm))⟩

end Insert

end KvsRbtree
