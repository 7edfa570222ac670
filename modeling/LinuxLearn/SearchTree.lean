import LinuxLearn.RedBlack

/-!
# Search trees and their contexts

The elements of a search tree are in the order of their keys. Looking for a key goes down from
the root: `zoom` is where that ends, a focus that is empty or has the key at its root, with all
smaller keys before it and all larger ones after it (`Around.zoom`). So what is looked up,
inserted and removed can be told from the list of the elements.
-/

open RedBlack
open RedBlack.RBTree (plug branch node toList)

namespace SearchTree

variable {β κ : Type} [LinearOrder κ] (key : β → κ)

/-- **In the order of their keys.** -/
def Sorted (l : List β) : Prop := l.Pairwise (fun a b => key a < key b)

/-- **Where looking for a key ends**, from a focus. -/
def zoom (k : κ) : RBTree β → List (Frame β) → RBTree β × List (Frame β)
  | .nil, ctx => (.nil, ctx)
  | .node c l a r, ctx =>
    if k < key a then zoom k l (⟨.left, c, a, r⟩ :: ctx)
    else if key a < k then zoom k r (⟨.right, c, a, l⟩ :: ctx)
    else (node c l a r, ctx)

/-- **A key belongs at the focus**: what is before it has smaller keys, and what is after it larger
ones. -/
structure Around (k : κ) (ctx : List (Frame β)) : Prop where
  before : ∀ a ∈ before ctx, key a < k
  after : ∀ a ∈ after ctx, k < key a

variable {key} {k : κ} {t : RBTree β} {ctx : List (Frame β)} {l : List β} {a b : β}

variable (key) in
theorem around_nil (k : κ) : Around key k [] :=
  ⟨fun _ h => absurd h List.not_mem_nil, fun _ h => absurd h List.not_mem_nil⟩

variable (key k) in
/-- Looking for a key leaves the tree what it is. -/
theorem plug_zoom (t : RBTree β) (ctx : List (Frame β)) :
    plug (zoom key k t ctx).1 (zoom key k t ctx).2 = plug t ctx := by
  induction t generalizing ctx with
  | nil => rfl
  | node c l a r ihl ihr =>
    unfold zoom
    split
    · exact ihl _
    · split
      · exact ihr _
      · rfl

/-- **The key belongs where looking for it ends.** -/
theorem Around.zoom (hctx : Around key k ctx) (h : Sorted key t.toList) :
    Around key k (zoom key k t ctx).2 := by
  induction t generalizing ctx with
  | nil => exact hctx
  | node c l a r ihl ihr =>
    obtain ⟨hl, har, hlar⟩ := List.pairwise_append.mp h
    obtain ⟨ha, hr⟩ := List.pairwise_cons.mp har
    unfold SearchTree.zoom
    split
    · next hlt =>
      refine ihl ⟨hctx.before, fun b hb => ?_⟩ hl
      rcases List.mem_append.mp hb with hb | hb
      · rcases List.mem_cons.mp hb with rfl | hb
        · exact hlt
        · exact hlt.trans (ha b hb)
      · exact hctx.after b hb
    · split
      · next hgt =>
        refine ihr ⟨fun b hb => ?_, hctx.after⟩ hr
        rcases List.mem_append.mp hb with hb | hb
        · exact hctx.before b hb
        · rcases List.mem_append.mp hb with hb | hb
          · exact (hlar b hb a List.mem_cons_self).trans hgt
          · rw [List.mem_singleton.mp hb]
            exact hgt
      · exact hctx

variable (key k t ctx) in
/-- The focus is empty then, or has the key at its root. -/
theorem zoom_cases : (zoom key k t ctx).1 = .nil
    ∨ ∃ c l a r, (zoom key k t ctx).1 = node c l a r ∧ key a = k := by
  induction t generalizing ctx with
  | nil => exact Or.inl rfl
  | node c l a r ihl ihr =>
    unfold zoom
    split
    · exact ihl _
    · next hlt =>
      split
      · exact ihr _
      · next hgt => exact Or.inr ⟨c, l, a, r, rfl, le_antisymm (not_lt.mp hlt) (not_lt.mp hgt)⟩

/-! ## From either side -/

/-- A tree by induction on its branches, with the child on side `d` first. -/
theorem branch_induction (d : Side) {P : RBTree β → Prop} (nil : P .nil)
    (branch : ∀ c a t s, P t → P s → P (RBTree.branch d c a t s)) (t : RBTree β) : P t := by
  induction t with
  | nil => exact nil
  | node c l a r ihl ihr =>
    cases d with
    | left => exact branch c a l r ihl ihr
    | right => exact branch c a r l ihr ihl

/-- The elements in the order in which one goes towards side `d`. -/
def listTo (d : Side) (t : RBTree β) : List β :=
  match d with
  | .left => t.toList.reverse
  | .right => t.toList

/-- The elements beyond the focus, towards side `d`. -/
def beyond (d : Side) (ctx : List (Frame β)) : List β :=
  match d with
  | .left => (before ctx).reverse
  | .right => after ctx

section Sides

variable {d : Side} {c : Color} {s : RBTree β}

@[simp] theorem listTo_nil : listTo d (.nil : RBTree β) = [] := by
  cases d <;> rfl

@[simp] theorem beyond_nil : beyond d ([] : List (Frame β)) = [] := by
  cases d <;> rfl

theorem listTo_branch : listTo d (branch d c a t s) = listTo d s ++ a :: listTo d t := by
  cases d with
  | left =>
    show (t.toList ++ a :: s.toList).reverse = _
    rw [List.reverse_append, List.reverse_cons, List.append_assoc]
    rfl
  | right => rfl

theorem listTo_branch_flip : listTo d.flip (branch d c a t s) = listTo d.flip t ++ a :: listTo d.flip s := by
  rw [← RBTree.branch_flip, listTo_branch]

theorem beyond_cons : beyond d (⟨d, c, a, s⟩ :: ctx) = beyond d ctx := by
  cases d <;> rfl

theorem beyond_cons_flip : beyond d (⟨d.flip, c, a, s⟩ :: ctx) = a :: (listTo d s ++ beyond d ctx) := by
  cases d with
  | left =>
    show (before ctx ++ (s.toList ++ [a])).reverse = _
    rw [List.reverse_append, List.reverse_append]
    rfl
  | right => rfl

/-- **The elements of a tree split at a node**, in the order towards side `d`. -/
theorem listTo_plug (t : RBTree β) (ctx : List (Frame β)) :
    ∃ xs, listTo d (plug t ctx) = xs ++ listTo d t ++ beyond d ctx := by
  cases d with
  | left =>
    refine ⟨(after ctx).reverse, ?_⟩
    show (plug t ctx).toList.reverse = _
    rw [toList_plug, List.reverse_append, List.reverse_append, ← List.append_assoc]
    rfl
  | right => exact ⟨before ctx, toList_plug t ctx⟩

theorem listTo_flip (d : Side) (t : RBTree β) : listTo d.flip t = (listTo d t).reverse := by
  cases d with
  | left => exact (List.reverse_reverse _).symm
  | right => rfl

/-- A node with nothing below it or beyond it, towards a side, is the last one there. -/
theorem exists_listTo_last (h : beyond d ctx = []) :
    ∃ xs, listTo d (plug (branch d c a .nil s) ctx) = xs ++ [a] := by
  obtain ⟨xs, hxs⟩ := listTo_plug (d := d) (branch d c a .nil s) ctx
  refine ⟨xs ++ listTo d s, ?_⟩
  rw [hxs, h, listTo_branch, listTo_nil, List.append_nil, List.append_assoc]

theorem mem_listTo : a ∈ listTo d t ↔ a ∈ t.toList := by
  cases d with
  | left => exact List.mem_reverse
  | right => exact Iff.rfl

theorem outer_append (ctx ctx' : List (Frame β)) : outer (ctx ++ ctx') = outer ctx ++ outer ctx' := by
  induction ctx with
  | nil => rfl
  | cons f ctx ih =>
    rw [List.cons_append, outer, outer, ih, List.cons_append, List.append_assoc]

/-- A node with its two trees. -/
theorem length_branch (d : Side) (c : Color) (a : β) (t s : RBTree β) :
    (branch d c a t s).toList.length = t.toList.length + s.toList.length + 1 := by
  rw [(perm_branch d c a t s).length_eq, List.length_cons, List.length_append]

theorem beyond_append (ctx ctx' : List (Frame β)) :
    beyond d (ctx ++ ctx') = beyond d ctx ++ beyond d ctx' := by
  induction ctx with
  | nil =>
    rw [beyond_nil]
    rfl
  | cons f ctx ih =>
    obtain ⟨d', c, a, s⟩ := f
    rw [List.cons_append]
    by_cases hd : d' = d
    · subst hd
      rw [beyond_cons, beyond_cons, ih]
    · obtain rfl := Side.eq_flip_of_ne hd
      rw [beyond_cons_flip, beyond_cons_flip, ih, List.cons_append, List.append_assoc]

end Sides

/-! ## Sorted lists -/

/-- An element between smaller and larger ones is in order. -/
theorem Sorted.insert {before after : List β} (h : Sorted key (before ++ after)) (hb : ∀ x ∈ before, key x < key a)
    (ha : ∀ x ∈ after, key a < key x) : Sorted key (before ++ a :: after) := by
  obtain ⟨hbefore, hafter, hacross⟩ := List.pairwise_append.mp h
  refine List.pairwise_append.mpr ⟨hbefore, List.pairwise_cons.mpr ⟨ha, hafter⟩, fun x hx y hy => ?_⟩
  rcases List.mem_cons.mp hy with rfl | hy
  · exact hb x hx
  · exact hacross x hx y hy

theorem Sorted.remove {before after : List β} (h : Sorted key (before ++ a :: after)) :
    Sorted key (before ++ after) :=
  List.Pairwise.sublist (List.Sublist.append (List.Sublist.refl _) (List.sublist_cons_self _ _)) h

/-- **There is one element with a key.** -/
theorem Sorted.eq_of_key_eq (h : Sorted key l) (ha : a ∈ l) (hb : b ∈ l) (hab : key a = key b) : a = b := by
  have hnd : (l.map key).Nodup := List.pairwise_map.mpr (h.imp (fun hlt => hlt.ne))
  exact List.inj_on_of_nodup_map hnd ha hb hab

/-- What is before and after an element of a sorted list is told apart by the keys. -/
theorem Sorted.filter_eq {xs ys : List β} (h : Sorted key (xs ++ a :: ys)) :
    (xs ++ ys).filter (fun b => key b < key a) = xs ∧ (xs ++ ys).filter (fun b => key a < key b) = ys := by
  obtain ⟨-, hays, hacross⟩ := List.pairwise_append.mp h
  have hxs : ∀ x ∈ xs, key x < key a := fun x hx => hacross x hx a List.mem_cons_self
  have hys : ∀ y ∈ ys, key a < key y := (List.pairwise_cons.mp hays).1
  constructor
  · rw [List.filter_append, List.filter_eq_self.mpr (by simpa using hxs),
      List.filter_eq_nil_iff.mpr (by simpa using fun y hy => (hys y hy).le), List.append_nil]
  · rw [List.filter_append, List.filter_eq_nil_iff.mpr (by simpa using fun x hx => (hxs x hx).le),
      List.filter_eq_self.mpr (by simpa using hys), List.nil_append]

/-- **Filtering a key out** of a sorted list removes the element that has it. -/
theorem Sorted.filter_ne {xs ys : List β} (h : Sorted key (xs ++ a :: ys)) :
    (xs ++ a :: ys).filter (fun b => key b ≠ key a) = xs ++ ys := by
  obtain ⟨-, hays, hacross⟩ := List.pairwise_append.mp h
  have hxs : ∀ x ∈ xs, key x ≠ key a := fun x hx => (hacross x hx a List.mem_cons_self).ne
  have hys : ∀ y ∈ ys, key y ≠ key a := fun y hy => ((List.pairwise_cons.mp hays).1 y hy).ne'
  rw [List.filter_append, List.filter_cons_of_neg (by simp), List.filter_eq_self.mpr (by simpa using hxs),
    List.filter_eq_self.mpr (by simpa using hys)]

/-- **Searching for a key** finds the element that has it. -/
theorem Sorted.find?_eq (h : Sorted key l) (ha : a ∈ l) (hk : key a = k) :
    l.find? (fun b => key b = k) = some a := by
  cases hfind : l.find? (fun b => key b = k) with
  | none =>
    rw [List.find?_eq_none] at hfind
    exact absurd (by simpa using hk) (hfind a ha)
  | some b =>
    have hb := List.find?_some hfind
    rw [decide_eq_true_eq] at hb
    rw [h.eq_of_key_eq (List.mem_of_find?_eq_some hfind) ha (hb.trans hk.symm)]

/-! ## Looking up from the root -/

/-- The elements of a tree, split where looking for a key ends. -/
theorem toList_zoom (key : β → κ) (k : κ) (t : RBTree β) : before (zoom key k t []).2 ++ (zoom key k t []).1.toList
    ++ after (zoom key k t []).2 = t.toList := by
  rw [← toList_plug, plug_zoom]
  rfl

/-- **A key that is not there** is looked for in vain. -/
theorem zoom_eq_nil (h : ∀ a ∈ t.toList, key a ≠ k) : (zoom key k t []).1 = .nil := by
  rcases zoom_cases key k t [] with hz | ⟨c, l, a, r, hz, hk⟩
  · exact hz
  · refine absurd hk (h a ?_)
    rw [← toList_zoom key k t, hz]
    simp [toList]

/-- **A key that is there** is found. -/
theorem zoom_eq_node (hs : Sorted key t.toList) (ha : a ∈ t.toList) (hk : key a = k) :
    ∃ c l r, (zoom key k t []).1 = node c l a r := by
  have haround := (around_nil key k).zoom hs
  have hmem := ha
  rw [← toList_zoom key k t, List.append_assoc, List.mem_append, List.mem_append] at hmem
  have hfocus : a ∈ (zoom key k t []).1.toList := by
    rcases hmem with hb | hf | haf
    · exact absurd hk (haround.before a hb).ne
    · exact hf
    · exact absurd hk (haround.after a haf).ne'
  rcases zoom_cases key k t [] with hz | ⟨c, l, b, r, hz, hkb⟩
  · rw [hz] at hfocus
    exact absurd hfocus List.not_mem_nil
  · have hb : b ∈ t.toList := by
      rw [← toList_zoom key k t, hz]
      simp [toList]
    obtain rfl := hs.eq_of_key_eq hb ha (hkb.trans hk.symm)
    exact ⟨c, l, r, hz⟩

end SearchTree
