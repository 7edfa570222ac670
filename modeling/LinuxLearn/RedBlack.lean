import Mathlib.Tactic

/-!
# Red-black trees and their contexts

A binary search tree that is repaired in place is never looked at whole:
the program holds a pointer to one node and moves it up or down. Here a
tree is therefore split at a **focus**: the subtree there, and the list of
`Frame`s on the way from it up to the root. `plug` puts the two together.

The two halves of every red-black algorithm are mirror images. A node is
written `branch d c a t s`, with `t` the child on side `d` and `s` the other,
so that one statement covers both halves.

`Balanced t c n` is the red-black property of a tree with root colour `c`
and black height `n`, and `Fits ctx c n` is the same property of what is
around such a tree: `Balanced.plug` and `exists_fits` say that the two
together are the property of the whole. While an algorithm runs, its
focus is balanced and its context fits, but not each other; that is what
the loops repair.
-/

namespace RedBlack

/-- A side of a node. -/
inductive Side where
  | left
  | right
deriving DecidableEq

/-- The other side. -/
def Side.flip : Side → Side
  | .left => .right
  | .right => .left

@[simp] theorem Side.flip_flip (d : Side) : d.flip.flip = d := by
  cases d <;> rfl

@[simp] theorem Side.flip_ne (d : Side) : d.flip ≠ d := by
  cases d <;> decide

theorem Side.eq_flip_of_ne {d e : Side} (h : d ≠ e) : d = e.flip := by
  cases d <;> cases e <;> first | rfl | exact absurd rfl h

/-- The colour of a node. -/
inductive Color where
  | red
  | black
deriving DecidableEq

/-- A binary tree with coloured nodes. -/
inductive RBTree (α : Type) where
  | nil
  | node (c : Color) (l : RBTree α) (a : α) (r : RBTree α)

/-- **One step from a subtree to its parent**: the side the subtree is on, the
parent's colour and element, and its other child. -/
structure Frame (α : Type) where
  side : Side
  color : Color
  elem : α
  sibling : RBTree α

variable {α : Type}

namespace RBTree

/-- **A node by sides**: `t` is the child on side `d`, `s` the other one. -/
def branch (d : Side) (c : Color) (a : α) (t s : RBTree α) : RBTree α :=
  match d with
  | .left => node c t a s
  | .right => node c s a t

/-- A node can be read from either side. -/
theorem branch_flip (d : Side) (c : Color) (a : α) (t s : RBTree α) :
    branch d.flip c a t s = branch d c a s t := by
  cases d <;> rfl

theorem branch_ne_nil (d : Side) (c : Color) (a : α) (t s : RBTree α) :
    branch d c a t s ≠ nil := by
  cases d <;> exact fun h => by cases h

/-- The elements in order. -/
def toList : RBTree α → List α
  | nil => []
  | node _ l a r => l.toList ++ a :: r.toList

/-- The colour of the root; an empty tree is black. -/
def color : RBTree α → Color
  | nil => .black
  | node c _ _ _ => c

/-- The tree with another root colour. -/
def recolor (c : Color) : RBTree α → RBTree α
  | nil => nil
  | node _ l a r => node c l a r

/-- The colours on the paths from the root to the empty trees. -/
def paths : RBTree α → List (List Color)
  | nil => [[]]
  | node c l _ r => (l.paths ++ r.paths).map (fun p => c :: p)

/-- The tree and all the trees below its nodes. -/
def subtrees : RBTree α → List (RBTree α)
  | nil => [nil]
  | node c l a r => node c l a r :: (l.subtrees ++ r.subtrees)

/-- Putting a subtree in its context, whose innermost frame comes first. -/
def plug : RBTree α → List (Frame α) → RBTree α
  | t, [] => t
  | t, f :: ctx => plug (branch f.side f.color f.elem t f.sibling) ctx

@[simp] theorem color_branch (d : Side) (c : Color) (a : α) (t s : RBTree α) :
    (branch d c a t s).color = c := by
  cases d <;> rfl

@[simp] theorem recolor_branch (d : Side) (c c' : Color) (a : α) (t s : RBTree α) :
    (branch d c a t s).recolor c' = branch d c' a t s := by
  cases d <;> rfl

@[simp] theorem toList_recolor (c : Color) (t : RBTree α) : (t.recolor c).toList = t.toList := by
  cases t <;> rfl

/-- Recolouring a node does not change the order of the elements. -/
theorem toList_branch_color (d : Side) (c c' : Color) (a : α) (t s : RBTree α) :
    (branch d c a t s).toList = (branch d c' a t s).toList := by
  cases d <;> rfl

/-- **A rotation does not change the order of the elements.** -/
theorem toList_rotate (d : Side) (c₁ c₂ c₃ c₄ : Color) (x y : α) (A B C : RBTree α) :
    (branch d c₁ x A (branch d c₂ y B C)).toList = (branch d c₃ y (branch d c₄ x A B) C).toList := by
  cases d <;> simp [branch, toList]

end RBTree

open RedBlack.RBTree

/-- Moving the focus from one child of a node to the other. -/
theorem plug_flip (d : Side) (c : Color) (a : α) (t s : RBTree α) (ctx : List (Frame α)) :
    plug s (⟨d.flip, c, a, t⟩ :: ctx) = plug t (⟨d, c, a, s⟩ :: ctx) :=
  congrArg (fun t => plug t ctx) (branch_flip d c a s t)

/-- The elements before the focus. -/
def before : List (Frame α) → List α
  | [] => []
  | ⟨.left, _, _, _⟩ :: ctx => before ctx
  | ⟨.right, _, a, s⟩ :: ctx => before ctx ++ (s.toList ++ [a])

/-- The elements after the focus. -/
def after : List (Frame α) → List α
  | [] => []
  | ⟨.left, _, a, s⟩ :: ctx => a :: s.toList ++ after ctx
  | ⟨.right, _, _, _⟩ :: ctx => after ctx

/-- **The elements of a tree split at the focus.** -/
theorem toList_plug (t : RBTree α) (ctx : List (Frame α)) :
    (plug t ctx).toList = before ctx ++ t.toList ++ after ctx := by
  induction ctx generalizing t with
  | nil => simp [plug, before, after]
  | cons f ctx ih =>
    obtain ⟨d, c, a, s⟩ := f
    show (plug (branch d c a t s) ctx).toList = _
    rw [ih]
    cases d <;> simp [before, after, branch, toList]

/-- Plugging in two steps. -/
theorem plug_append (t : RBTree α) (ctx ctx' : List (Frame α)) :
    plug t (ctx ++ ctx') = plug (plug t ctx) ctx' := by
  induction ctx generalizing t with
  | nil => rfl
  | cons f ctx ih => exact ih _

theorem before_append (ctx ctx' : List (Frame α)) :
    before (ctx ++ ctx') = before ctx' ++ before ctx := by
  induction ctx with
  | nil => exact (List.append_nil _).symm
  | cons f ctx ih =>
    obtain ⟨d, c, a, s⟩ := f
    cases d with
    | left => exact ih
    | right =>
      show before (ctx ++ ctx') ++ (s.toList ++ [a]) = before ctx' ++ (before ctx ++ (s.toList ++ [a]))
      rw [ih, List.append_assoc]

/-- The elements around the focus, from the inside out. -/
def outer : List (Frame α) → List α
  | [] => []
  | f :: ctx => f.elem :: (f.sibling.toList ++ outer ctx)

theorem perm_branch (d : Side) (c : Color) (a : α) (t s : RBTree α) :
    (branch d c a t s).toList.Perm (a :: (t.toList ++ s.toList)) := by
  cases d with
  | left => exact List.perm_middle
  | right => exact List.perm_middle.trans (List.perm_append_comm.cons a)

/-- The elements of a tree are those of the focus and those around it. -/
theorem perm_plug (t : RBTree α) (ctx : List (Frame α)) :
    (plug t ctx).toList.Perm (t.toList ++ outer ctx) := by
  induction ctx generalizing t with
  | nil => simp [plug, outer]
  | cons f ctx ih =>
    refine (ih (branch f.side f.color f.elem t f.sibling)).trans ?_
    refine ((perm_branch f.side f.color f.elem t f.sibling).append_right (outer ctx)).trans ?_
    rw [List.cons_append, List.append_assoc]
    exact List.perm_middle.symm

/-- A context is no longer than it has elements. -/
theorem length_le_toList_plug (t : RBTree α) (ctx : List (Frame α)) :
    ctx.length ≤ (plug t ctx).toList.length := by
  have hctx : ctx.length ≤ (outer ctx).length := by
    induction ctx with
    | nil => exact le_rfl
    | cons f ctx ih =>
      rw [outer, List.length_cons, List.length_cons, List.length_append]
      omega
  rw [(perm_plug t ctx).length_eq, List.length_append]
  omega

/-- Exchanging the focus for one with the same elements. -/
theorem toList_plug_congr {t t' : RBTree α} (h : t.toList = t'.toList) (ctx : List (Frame α)) :
    (plug t ctx).toList = (plug t' ctx).toList := by
  rw [toList_plug, toList_plug, h]

/-- **Every element can be focused on.** -/
theorem exists_focus {a : α} {t : RBTree α} (h : a ∈ t.toList) :
    ∃ c l r ctx, t = plug (node c l a r) ctx := by
  suffices hgen : ∀ ctx₀ : List (Frame α), ∃ c l r ctx, plug t ctx₀ = plug (node c l a r) ctx from
    hgen []
  induction t with
  | nil => cases h
  | node c l b r ihl ihr =>
    intro ctx₀
    rcases List.mem_append.mp h with h | h
    · exact ihl h (⟨.left, c, b, r⟩ :: ctx₀)
    · rcases List.mem_cons.mp h with rfl | h
      · exact ⟨c, l, r, ctx₀, rfl⟩
      · exact ihr h (⟨.right, c, b, l⟩ :: ctx₀)

/-! ## The red-black property -/

/-- **The red-black property** of a tree with the given root colour and black
height: the children of a red node are black, and every path passes as many
black nodes. -/
inductive Balanced : RBTree α → Color → ℕ → Prop where
  | nil : Balanced nil .black 0
  | red {l r : RBTree α} {a : α} {n : ℕ} : Balanced l .black n → Balanced r .black n →
      Balanced (node .red l a r) .red n
  | black {l r : RBTree α} {a : α} {c₁ c₂ : Color} {n : ℕ} : Balanced l c₁ n → Balanced r c₂ n →
      Balanced (node .black l a r) .black (n + 1)

namespace Balanced

variable {t s : RBTree α} {d : Side} {c c₁ c₂ : Color} {a : α} {n : ℕ}

theorem color_eq (h : Balanced t c n) : t.color = c := by
  cases h <;> rfl

theorem branch_red (ht : Balanced t .black n) (hs : Balanced s .black n) :
    Balanced (branch d .red a t s) .red n := by
  cases d with
  | left => exact .red ht hs
  | right => exact .red hs ht

theorem branch_black (ht : Balanced t c₁ n) (hs : Balanced s c₂ n) :
    Balanced (branch d .black a t s) .black (n + 1) := by
  cases d with
  | left => exact .black ht hs
  | right => exact .black hs ht

/-- A red tree is a red node over black trees. -/
theorem exists_branch_red (h : Balanced t .red n) (d : Side) :
    ∃ a x y, t = branch d .red a x y ∧ Balanced x .black n ∧ Balanced y .black n := by
  cases h with
  | red hl hr =>
    cases d with
    | left => exact ⟨_, _, _, rfl, hl, hr⟩
    | right => exact ⟨_, _, _, rfl, hr, hl⟩

/-- A black tree of positive height is a black node over two trees. -/
theorem exists_branch_black (h : Balanced t .black (n + 1)) (d : Side) :
    ∃ a x y c₁ c₂, t = branch d .black a x y ∧ Balanced x c₁ n ∧ Balanced y c₂ n := by
  cases h with
  | black hl hr =>
    cases d with
    | left => exact ⟨_, _, _, _, _, rfl, hl, hr⟩
    | right => exact ⟨_, _, _, _, _, rfl, hr, hl⟩

/-- A tree of positive height is not empty. -/
theorem ne_nil (h : Balanced t c (n + 1)) : t ≠ .nil := by
  rintro rfl
  cases h

theorem of_branch_red (h : Balanced (branch d .red a t s) c n) :
    c = .red ∧ Balanced t .black n ∧ Balanced s .black n := by
  cases d with
  | left =>
    cases h with
    | red ht hs => exact ⟨rfl, ht, hs⟩
  | right =>
    cases h with
    | red hs ht => exact ⟨rfl, ht, hs⟩

theorem of_branch_black (h : Balanced (branch d .black a t s) c n) :
    c = .black ∧ ∃ m c₁ c₂, n = m + 1 ∧ Balanced t c₁ m ∧ Balanced s c₂ m := by
  cases d with
  | left =>
    cases h with
    | black ht hs => exact ⟨rfl, _, _, _, rfl, ht, hs⟩
  | right =>
    cases h with
    | black hs ht => exact ⟨rfl, _, _, _, rfl, ht, hs⟩

/-- A balanced tree has its root colour. -/
theorem recolor_self (h : Balanced t c n) : t.recolor c = t := by
  cases h <;> rfl

/-- Blackening a red root raises the black height. -/
theorem recolor_black (h : Balanced t .red n) : Balanced (t.recolor .black) .black (n + 1) := by
  cases h with
  | red hl hr => exact .black hl hr

end Balanced

/-- **The red-black property of a context**: what is around a subtree with
the given root colour and black height, in a tree with a black root. -/
def Fits : List (Frame α) → Color → ℕ → Prop
  | [], c, _ => c = .black
  | ⟨_, .red, _, s⟩ :: ctx, c, n => c = .black ∧ Balanced s .black n ∧ Fits ctx .red n
  | ⟨_, .black, _, s⟩ :: ctx, _, n => (∃ c', Balanced s c' n) ∧ Fits ctx .black (n + 1)

/-- A context takes a black subtree in place of any. -/
theorem Fits.to_black {ctx : List (Frame α)} {c : Color} {n : ℕ} (h : Fits ctx c n) :
    Fits ctx .black n := by
  cases ctx with
  | nil => rfl
  | cons f ctx =>
    obtain ⟨d, fc, a, s⟩ := f
    cases fc with
    | red => exact ⟨rfl, h.2⟩
    | black => exact h

/-- The sibling of a subtree of positive height is not empty. -/
theorem Fits.sibling_ne_nil {f : Frame α} {ctx : List (Frame α)} {c : Color} {n : ℕ}
    (h : Fits (f :: ctx) c (n + 1)) : f.sibling ≠ nil := by
  obtain ⟨d, fc, a, s⟩ := f
  cases fc with
  | red => exact h.2.1.ne_nil
  | black =>
    obtain ⟨⟨c', hs⟩, -⟩ := h
    exact hs.ne_nil

/-- **A balanced subtree in a context that fits is a balanced tree.** -/
theorem Balanced.plug {t : RBTree α} {ctx : List (Frame α)} {c : Color} {n : ℕ}
    (ht : Balanced t c n) (hctx : Fits ctx c n) : ∃ m, Balanced (plug t ctx) .black m := by
  induction ctx generalizing t c n with
  | nil =>
    obtain rfl : c = .black := hctx
    exact ⟨n, ht⟩
  | cons f ctx ih =>
    obtain ⟨d, fc, a, s⟩ := f
    cases fc with
    | red =>
      obtain ⟨rfl, hs, hrest⟩ := hctx
      exact ih (ht.branch_red hs) hrest
    | black =>
      obtain ⟨⟨c', hs⟩, hrest⟩ := hctx
      exact ih (ht.branch_black hs) hrest

/-- Whether a context fits does not depend on its elements. -/
theorem Fits.set_elem {ctx ctx' : List (Frame α)} {d : Side} {k : Color} {a : α} (b : α)
    {s : RBTree α} {c : Color} {n : ℕ} (h : Fits (ctx ++ ⟨d, k, a, s⟩ :: ctx') c n) :
    Fits (ctx ++ ⟨d, k, b, s⟩ :: ctx') c n := by
  induction ctx generalizing c n with
  | nil => cases k <;> exact h
  | cons f ctx ih =>
    obtain ⟨d', k', a', s'⟩ := f
    cases k' with
    | red => exact ⟨h.1, h.2.1, ih h.2.2⟩
    | black => exact ⟨h.1, ih h.2⟩

/-- **Focusing in a balanced tree** gives a balanced subtree in a context that
fits it. -/
theorem exists_fits {t : RBTree α} {ctx : List (Frame α)} {m : ℕ}
    (h : Balanced (plug t ctx) .black m) : ∃ c n, Balanced t c n ∧ Fits ctx c n := by
  induction ctx generalizing t with
  | nil => exact ⟨.black, m, h, rfl⟩
  | cons f ctx ih =>
    obtain ⟨d, fc, a, s⟩ := f
    obtain ⟨c, n, hbal, hrest⟩ := ih h
    cases fc with
    | red =>
      obtain ⟨rfl, ht, hs⟩ := hbal.of_branch_red
      exact ⟨.black, n, ht, rfl, hs, hrest⟩
    | black =>
      obtain ⟨rfl, k, c₁, c₂, rfl, ht, hs⟩ := hbal.of_branch_black
      exact ⟨c₁, k, ht, ⟨c₂, hs⟩, hrest⟩

/-- The parent of a red parent is black, and is there. -/
theorem Fits.of_red {ctx : List (Frame α)} {n : ℕ} (h : Fits ctx .red n) :
    ∃ d a s ctx', ctx = ⟨d, .black, a, s⟩ :: ctx' ∧ (∃ c, Balanced s c n)
      ∧ Fits ctx' .black (n + 1) := by
  cases ctx with
  | nil => cases h
  | cons f ctx =>
    obtain ⟨d, fc, a, s⟩ := f
    cases fc with
    | red => cases h.1
    | black => exact ⟨d, a, s, ctx, rfl, h⟩

/-! ## Paths -/

namespace Balanced

variable {t : RBTree α} {c : Color} {n : ℕ}

/-- **Every path passes the black height.** -/
theorem count_black (h : Balanced t c n) : ∀ p ∈ t.paths, p.count Color.black = n := by
  induction h with
  | nil => simp [paths]
  | red hl hr ihl ihr =>
    intro p hp
    obtain ⟨q, hq, rfl⟩ := List.mem_map.mp hp
    rcases List.mem_append.mp hq with hq | hq
    · simpa using ihl q hq
    · simpa using ihr q hq
  | black hl hr ihl ihr =>
    intro p hp
    obtain ⟨q, hq, rfl⟩ := List.mem_map.mp hp
    rcases List.mem_append.mp hq with hq | hq
    · simpa using ihl q hq
    · simpa using ihr q hq

/-- A path is at most twice as long as it is black, and one longer from a red
root. -/
theorem length_path (h : Balanced t c n) :
    ∀ p ∈ t.paths, p.length ≤ 2 * n + (if c = .red then 1 else 0) := by
  induction h with
  | nil => simp [paths]
  | red hl hr ihl ihr =>
    intro p hp
    obtain ⟨q, hq, rfl⟩ := List.mem_map.mp hp
    rcases List.mem_append.mp hq with hq | hq
    · simpa using ihl q hq
    · simpa using ihr q hq
  | @black l r a c₁ c₂ n hl hr ihl ihr =>
    have hle : ∀ c : Color, (if c = .red then 1 else 0) ≤ 1 := fun c => by split <;> omega
    intro p hp
    obtain ⟨q, hq, rfl⟩ := List.mem_map.mp hp
    rw [List.length_cons, if_neg (by decide)]
    rcases List.mem_append.mp hq with hq | hq
    · have hlen := ihl q hq
      have hc := hle c₁
      omega
    · have hlen := ihr q hq
      have hc := hle c₂
      omega

/-- A tree of black height `n` has at least `2 ^ n - 1` elements. -/
theorem two_pow_le (h : Balanced t c n) : 2 ^ n ≤ t.toList.length + 1 := by
  induction h with
  | nil => simp [toList]
  | red hl hr ihl ihr =>
    simp only [toList, List.length_append, List.length_cons]
    omega
  | black hl hr ihl ihr =>
    simp only [toList, List.length_append, List.length_cons, pow_succ]
    omega

/-- **A red-black tree is shallow**: a path with `h` nodes in a tree of `k`
has `2 ^ h ≤ (k + 1) ^ 2`. -/
theorem two_pow_length_le (h : Balanced t .black n) {p : List Color} (hp : p ∈ t.paths) :
    2 ^ p.length ≤ (t.toList.length + 1) ^ 2 := by
  have hlen : p.length ≤ 2 * n := by simpa using h.length_path p hp
  calc 2 ^ p.length ≤ 2 ^ (2 * n) := Nat.pow_le_pow_right Nat.two_pos hlen
    _ = (2 ^ n) ^ 2 := by rw [mul_comm, pow_mul]
    _ ≤ (t.toList.length + 1) ^ 2 := Nat.pow_le_pow_left h.two_pow_le 2

/-- The trees below a balanced tree are balanced. -/
theorem subtree (h : Balanced t c n) : ∀ s ∈ t.subtrees, ∃ c n, Balanced s c n := by
  induction h with
  | nil =>
    intro s hs
    rw [List.mem_singleton.mp hs]
    exact ⟨_, _, .nil⟩
  | red hl hr ihl ihr =>
    intro s hs
    rcases List.mem_cons.mp hs with rfl | hs
    · exact ⟨_, _, hl.red hr⟩
    · rcases List.mem_append.mp hs with hs | hs
      · exact ihl s hs
      · exact ihr s hs
  | black hl hr ihl ihr =>
    intro s hs
    rcases List.mem_cons.mp hs with rfl | hs
    · exact ⟨_, _, hl.black hr⟩
    · rcases List.mem_append.mp hs with hs | hs
      · exact ihl s hs
      · exact ihr s hs

/-- The children of a red node are black. -/
theorem children_black {l r : RBTree α} {a : α} (h : Balanced (node .red l a r) c n) :
    l.color = .black ∧ r.color = .black := by
  cases h with
  | red hl hr => exact ⟨hl.color_eq, hr.color_eq⟩

end Balanced

end RedBlack
