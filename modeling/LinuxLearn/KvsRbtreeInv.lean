import LinuxLearn.KvsRbtreeDelete

/-!
# The invariant of the red-black tree

Between calls the nodes of the engine form a balanced tree, sorted by the
keys, whose nodes own their strings. Every operation keeps this, and does
to the entries what the map does: `implements`. Two of the main results
are what that says about every run from `kvs_rbtree_create`: the shape of
the tree in memory, and the results of the calls. The third is about the
two fixups, on any red-black tree: they end, and dereference nodes of the
tree only (`fixups_end`).
-/

open RedBlack
open RedBlack.RBTree (plug branch node toList)

namespace KvsRbtree

/-- **A red-black tree with its keys**: what the operations need of the tree,
whoever owns the strings. -/
structure Fit (T : KvsRbtree) (W : RBTree RbEntry) : Prop where
  rep : Rep T W
  bal : ∃ m, Balanced W .black m
  sorted : Sorted W.toList
  keyed : Keyed T W.toList

/-- **The invariant of the engine**, for the tree of its nodes. -/
structure Inv (T : KvsRbtree) (W : RBTree RbEntry) : Prop where
  rep : Rep T W
  bal : ∃ m, Balanced W .black m
  sorted : Sorted W.toList
  owns : Owns T.strs (W.toList.map RbEntry.item)

section Search

variable {T : KvsRbtree} {key : CString}

/-- **The search** ends at the node with the key, or at `nil`. -/
theorem searchFrom_eq (t : RBTree RbEntry) : ∀ {ctx : List (Frame RbEntry)} {fuel : ℕ},
    Rep T (plug t ctx) → Keyed T (plug t ctx).toList → Sorted t.toList →
    t.toList.length < fuel →
    ∃ p, rbtreeSearchFrom T key fuel (rootPtr T.nil t) = some p
      ∧ ((∃ e ∈ t.toList, e.item.k = key ∧ p = e.addr)
        ∨ ((∀ e ∈ t.toList, e.item.k ≠ key) ∧ p = T.nil)) := by
  induction t with
  | nil =>
    intro ctx fuel _ _ _ hfuel
    obtain ⟨fuel, rfl⟩ := Nat.exists_eq_add_of_lt hfuel
    refine ⟨T.nil, if_neg (not_not.mpr rfl), Or.inr ⟨fun e he => ?_, rfl⟩⟩
    cases he
  | node c l e r ihl ihr =>
    intro ctx fuel hrep hkeys hsorted hfuel
    obtain ⟨fuel, rfl⟩ := Nat.exists_eq_add_of_lt hfuel
    have hrep' : Rep T (plug (branch .left c e l r) ctx) := hrep
    have hk : T.keyAt e.addr = some e.item.k := hrep.keyAt hkeys (by
      rw [toList_plug]
      simp [toList])
    obtain ⟨hsl, hsr, hlr⟩ := List.pairwise_append.mp (show Sorted (l.toList ++ e :: r.toList) from
      hsorted)
    have hleft : ∀ x ∈ l.toList, x.item.k < e.item.k := fun x hx => hlr x hx e List.mem_cons_self
    have hright : ∀ x ∈ r.toList, e.item.k < x.item.k := (List.pairwise_cons.mp hsr).1
    have hlen : l.toList.length < (node c l e r).toList.length + fuel
        ∧ r.toList.length < (node c l e r).toList.length + fuel := by
      simp only [toList, List.length_append, List.length_cons]
      omega
    have hmem : ∀ x, x ∈ (node c l e r).toList ↔ x ∈ l.toList ∨ x = e ∨ x ∈ r.toList := fun x => by
      simp [toList]
    -- one step of the search, at the root of the subtree
    have hstep : ∀ {o : Option Ptr}, (if strcmp key e.item.k < 0 then
          rbtreeSearchFrom T key ((node c l e r).toList.length + fuel) (rootPtr T.nil l)
        else if 0 < strcmp key e.item.k then
          rbtreeSearchFrom T key ((node c l e r).toList.length + fuel) (rootPtr T.nil r)
        else some e.addr) = o →
        rbtreeSearchFrom T key ((node c l e r).toList.length + fuel + 1) (rootPtr T.nil (node c l e r))
          = o := by
      intro o ho
      refine (if_pos hrep'.addr_ne_nil).trans (bind_of_eq hk (Eq.trans ?_ ho))
      split
      · exact bind_of_eq hrep'.childOf_focus rfl
      · split
        · exact bind_of_eq hrep'.childOf_flip_focus rfl
        · rfl
    rcases lt_trichotomy key e.item.k with hlt | heq | hgt
    · obtain ⟨p, hp, hcase⟩ := @ihl (⟨.left, c, e, r⟩ :: ctx) _ hrep hkeys hsl hlen.1
      refine ⟨p, hstep ((if_pos ((strcmp_neg _ _).mpr hlt)).trans hp), ?_⟩
      refine hcase.imp ?_ ?_
      · rintro ⟨x, hx, h⟩
        exact ⟨x, (hmem x).mpr (Or.inl hx), h⟩
      · rintro ⟨hmiss, h⟩
        refine ⟨fun x hx => ?_, h⟩
        rcases (hmem x).mp hx with hx | rfl | hx
        · exact hmiss x hx
        · exact hlt.ne'
        · exact (hlt.trans (hright x hx)).ne'
    · refine ⟨e.addr, hstep ?_, Or.inl ⟨e, (hmem e).mpr (Or.inr (Or.inl rfl)), heq.symm, rfl⟩⟩
      rw [(strcmp_eq_zero _ _).mpr heq]
      rfl
    · obtain ⟨p, hp, hcase⟩ := @ihr (⟨.right, c, e, l⟩ :: ctx) _ hrep hkeys
        (List.pairwise_cons.mp hsr).2 hlen.2
      refine ⟨p, hstep ((if_neg (fun h => lt_asymm hgt ((strcmp_neg _ _).mp h))).trans
        ((if_pos ((strcmp_pos _ _).mpr hgt)).trans hp)), ?_⟩
      refine hcase.imp ?_ ?_
      · rintro ⟨x, hx, h⟩
        exact ⟨x, (hmem x).mpr (Or.inr (Or.inr hx)), h⟩
      · rintro ⟨hmiss, h⟩
        refine ⟨fun x hx => ?_, h⟩
        rcases (hmem x).mp hx with hx | rfl | hx
        · exact ((hleft x hx).trans hgt).ne
        · exact hgt.ne
        · exact hmiss x hx

end Search

namespace Fit

variable {T : KvsRbtree} {W : RBTree RbEntry} {e : RbEntry} {key : CString}

theorem nodup (h : Fit T W) : (keysOf (W.toList.map RbEntry.item)).Nodup := by
  unfold keysOf
  rw [List.map_map]
  exact List.pairwise_map.mpr (h.sorted.imp (fun hlt => hlt.ne))

theorem key_inj (h : Fit T W) {e' : RbEntry} (he : e ∈ W.toList) (he' : e' ∈ W.toList)
    (hk : e.item.k = e'.item.k) : e = e' := by
  have hnd := h.nodup
  unfold keysOf at hnd
  rw [List.map_map] at hnd
  exact List.inj_on_of_nodup_map hnd he he' hk

theorem search_eq (h : Fit T W) (key : CString) :
    ∃ p, rbtreeSearch T key = some p
      ∧ ((∃ e ∈ W.toList, e.item.k = key ∧ p = e.addr)
        ∨ ((∀ e ∈ W.toList, e.item.k ≠ key) ∧ p = T.nil)) := by
  unfold rbtreeSearch
  rw [h.rep.root_eq]
  exact @searchFrom_eq T key W [] _ h.rep h.keyed h.sorted h.rep.length_lt

theorem search_hit (h : Fit T W) (he : e ∈ W.toList) :
    rbtreeSearch T e.item.k = some e.addr := by
  obtain ⟨p, hp, ⟨e', he', hk, rfl⟩ | ⟨hmiss, -⟩⟩ := h.search_eq e.item.k
  · rw [hp, h.key_inj he' he hk]
  · exact absurd rfl (hmiss e he)

theorem search_miss (h : Fit T W) (hk : ∀ e ∈ W.toList, e.item.k ≠ key) :
    rbtreeSearch T key = some T.nil := by
  obtain ⟨p, hp, ⟨e, he, hek, -⟩ | ⟨-, rfl⟩⟩ := h.search_eq key
  · exact absurd hek (hk e he)
  · exact hp

theorem addr_ne_nil (h : Fit T W) (he : e ∈ W.toList) : e.addr ≠ T.nil :=
  fun heq => (List.nodup_cons.mp h.rep.nodup).1 (heq ▸ mem_addrs he)

theorem addr_ne_null (h : Fit T W) (he : e ∈ W.toList) : e.addr ≠ 0 := by
  obtain ⟨n, hn, -⟩ := h.rep.load_of_mem he
  exact Heap.ne_null_of_load hn

/-! ### Lookup -/

theorem get_hit (h : Fit T W) (he : e ∈ W.toList) :
    kvsRbtreeGet T (some e.item.k) = some e.item.value := by
  obtain ⟨n, hn, -, hv⟩ := h.rep.load_of_mem he
  unfold kvsRbtreeGet
  refine bind_of_eq (h.search_hit he) ((if_neg (h.addr_ne_null he)).trans ?_)
  refine (if_neg (h.addr_ne_nil he)).trans (bind_of_eq hn ?_)
  rw [hv]
  rfl

theorem get_miss (h : Fit T W) (hk : ∀ e ∈ W.toList, e.item.k ≠ key) :
    kvsRbtreeGet T (some key) = some 0 := by
  simp [kvsRbtreeGet, h.search_miss hk]

theorem exist_hit (h : Fit T W) (he : e ∈ W.toList) :
    kvsRbtreeExist T (some e.item.k) = some 0 := by
  simp [kvsRbtreeExist, h.search_hit he, h.addr_ne_null he, h.addr_ne_nil he]

theorem exist_miss (h : Fit T W) (hk : ∀ e ∈ W.toList, e.item.k ≠ key) :
    kvsRbtreeExist T (some key) = some 1 := by
  simp [kvsRbtreeExist, h.search_miss hk]

/-! ### Insertion -/

theorem set_hit (h : Fit T W) (he : e ∈ W.toList) (v : CString) (env : Env) :
    kvsRbtreeSet T (some e.item.k) (some v) env = some (1, T) := by
  simp [kvsRbtreeSet, h.search_hit he, h.addr_ne_nil he]

/-- Only the allocations of the call matter. -/
theorem set_env {env : Env} (henv : ∀ i < 3, env.malloc i = true) (k v : CString) :
    kvsRbtreeSet T (some k) (some v) env
      = kvsRbtreeSet T (some k) (some v) (Env.healthy env.rand) := by
  unfold kvsRbtreeSet
  simp only [henv 0 (by decide), henv 1 (by decide), henv 2 (by decide), Env.malloc_healthy]
  rfl

/-- **`kvs_rbtree_set` of a new key** adds its entry at its place in the
order. -/
theorem set_new (h : Fit T W) (hk : ∀ e ∈ W.toList, e.item.k ≠ key) (v : CString) (env : Env)
    (henv : ∀ i < 3, env.malloc i = true) :
    ∃ T' W' xs e ys, kvsRbtreeSet T (some key) (some v) env = some (0, T')
      ∧ Fit T' W' ∧ W.toList = xs ++ ys ∧ W'.toList = xs ++ e :: ys
      ∧ e.item = ⟨T.strs.next, (T.strs.alloc key).next, key, v⟩
      ∧ T'.strs = (T.strs.alloc key).alloc v := by
  let e : RbEntry := ⟨T.nodes.next, T.strs.next, (T.strs.alloc key).next, key, v⟩
  -- the engine with the new node, before it is inserted
  let T₁ : KvsRbtree := { T with
    nodes := T.nodes.alloc ⟨0, 0, 0, 0, 0, 0⟩, strs := T.strs.alloc key }
  let T₂ := T₁.put e.addr (fun n => { n with key := e.item.key })
  let T₃ : KvsRbtree := { T₂ with strs := (T.strs.alloc key).alloc v }
  let T₄ := T₃.put e.addr (fun n => { n with value := e.item.value })
  have hnode₁ : T₁.nodes.load e.addr = some ⟨0, 0, 0, 0, 0, 0⟩ :=
    (Heap.load_alloc _ _ _).trans (if_pos rfl)
  have hnode₂ : T₃.nodes.load e.addr = some ⟨0, 0, 0, 0, e.item.key, 0⟩ :=
    load_put_self (T := T₁) _ hnode₁
  have hnode₄ : T₄.nodes.load e.addr = some ⟨0, 0, 0, 0, e.item.key, e.item.value⟩ :=
    load_put_self (T := T₃) _ hnode₂
  have hlive : ∀ q ∈ T.nil :: addrs W.toList, q ≠ e.addr := by
    intro q hq
    rcases List.mem_cons.mp hq with rfl | hq
    · obtain ⟨p, hp⟩ := h.rep.nil_cell
      exact Heap.ne_next_of_load hp
    · obtain ⟨x, hx, rfl⟩ := List.mem_map.mp hq
      obtain ⟨n, hn, -⟩ := h.rep.load_of_mem hx
      exact Heap.ne_next_of_load hn
  have hold : ∀ q ∈ T.nil :: addrs W.toList, T₄.nodes.load q = T.nodes.load q := by
    intro q hq
    rw [show T₄.nodes.load q = T₃.nodes.load q from load_put_of_ne T₃ _ (hlive q hq),
      show T₃.nodes.load q = T₁.nodes.load q from load_put_of_ne T₁ _ (hlive q hq)]
    exact (Heap.load_alloc _ _ _).trans (if_neg (hlive q hq))
  have hrep₄ : Rep T₄ W := h.rep.congr rfl rfl hold
  have hkeys₄ : Keyed T₄ W.toList := fun x hx =>
    Heap.load_alloc_of_load v (Heap.load_alloc_of_load key (h.keyed x hx))
  have hkey₄ : T₄.strs.load e.item.key = some e.item.k :=
    Heap.load_alloc_of_load v (by rw [Heap.load_alloc, if_pos rfl])
  obtain ⟨m, hbal⟩ := h.bal
  obtain ⟨T', W', xs, ys, m', hins, hrep', hbal', hxy, hxey, hsorted, hkeeps⟩ :=
    insert_eq (T := T₄) (e := e) hrep₄ hbal h.sorted hkeys₄ hkey₄ hnode₄ rfl rfl
      (fun hm => hlive _ hm rfl) hk
  refine ⟨T', W', xs, e, ys, ?_, ⟨hrep', ⟨m', hbal'⟩, hxey ▸ hsorted, ?_⟩, hxy, hxey, rfl,
    hkeeps.strs_eq⟩
  · rw [set_env henv]
    refine bind_of_eq (h.search_miss hk) ((if_neg (not_not.mpr rfl)).trans ?_)
    refine (if_neg (Heap.next_ne_null T.nodes)).trans ?_
    refine bind_of_eq (write_eq (T := T₁) hnode₁ _) ((if_neg (Heap.next_ne_null T.strs)).trans ?_)
    refine bind_of_eq (write_eq (T := T₃) hnode₂ _)
      ((if_neg (Heap.next_ne_null (T.strs.alloc key))).trans ?_)
    exact bind_of_eq hins rfl
  · intro x hx
    rw [hkeeps.strs_eq]
    rw [hxey, List.mem_append, List.mem_cons] at hx
    rcases hx with hx | rfl | hx
    · exact hkeys₄ x (hxy ▸ List.mem_append_left _ hx)
    · exact hkey₄
    · exact hkeys₄ x (hxy ▸ List.mem_append_right _ hx)

/-! ### Modification -/

theorem mod_miss (h : Fit T W) (hk : ∀ e ∈ W.toList, e.item.k ≠ key) (v : CString) (env : Env) :
    kvsRbtreeMod T (some key) (some v) env = some (1, T) := by
  simp [kvsRbtreeMod, h.search_miss hk]

/-- **`kvs_rbtree_mod` of a stored key** frees the value of its entry and puts
what it is given in its place: a copy of the new value, or nothing. -/
theorem mod_hit {xs ys : List RbEntry} (h : Fit T W) (hW : W.toList = xs ++ e :: ys) (v : CString)
    (env : Env) {strs : Heap CString} (hfree : T.strs.free e.item.value = some strs) :
    ∃ T' W', kvsRbtreeMod T (some e.item.k) (some v) env
        = some (if (strs.malloc (env.malloc 0) v).1 = 0 then -2 else 0, T')
      ∧ (Keyed T' W'.toList → Fit T' W')
      ∧ W'.toList = xs ++ ⟨e.addr, { e.item with
          value := (strs.malloc (env.malloc 0) v).1, v := v }⟩ :: ys
      ∧ T'.strs = (strs.malloc (env.malloc 0) v).2 := by
  have he : e ∈ W.toList := by simp [hW]
  obtain ⟨c, l, r, ctx, rfl⟩ := exists_focus he
  have hrep : Rep T (plug (branch .left c e l r) ctx) := h.rep
  have hload := hrep.load_focus
  let p := (strs.malloc (env.malloc 0) v).1
  let it : Item := { e.item with value := p, v := v }
  let T₁ : KvsRbtree := { T with strs := (strs.malloc (env.malloc 0) v).2 }
  let T₂ := T₁.put e.addr (fun n => { n with value := p })
  -- the entries before and after the modified one are where they were
  have hsplit : before ctx ++ l.toList = xs ∧ e = e ∧ r.toList ++ after ctx = ys := by
    have hlist : before ctx ++ l.toList ++ e :: (r.toList ++ after ctx) = xs ++ e :: ys := by
      rw [← hW, toList_plug]
      simp [toList]
    have hnd : (before ctx ++ l.toList ++ e :: (r.toList ++ after ctx)).Nodup := by
      have hnd' := h.nodup
      unfold keysOf at hnd'
      rw [List.map_map, hW, ← hlist] at hnd'
      exact hnd'.of_map
    rw [List.nodup_middle, List.nodup_cons, List.mem_append, not_or] at hnd
    exact (List.append_cons_inj_of_notMem hnd.1.1 hnd.1.2).mp hlist
  have hlist' : (plug (branch .left c ⟨e.addr, it⟩ l r) ctx).toList = xs ++ ⟨e.addr, it⟩ :: ys := by
    rw [toList_plug, ← hsplit.1, ← hsplit.2.2]
    simp [branch, toList]
  have hrep₂ : Rep T₂ (plug (branch .left c ⟨e.addr, it⟩ l r) ctx) :=
    hrep.setItem rfl rfl (load_put_self (T := T₁) _ hload)
      (fun q _ hq => load_put_of_ne T₁ _ hq)
  obtain ⟨m, hbal⟩ := h.bal
  obtain ⟨k, n, hfocus, hfits⟩ := exists_fits hbal
  have hfocus' : Balanced (node c l ⟨e.addr, it⟩ r) k n := by
    cases hfocus with
    | red hl hr => exact .red hl hr
    | black hl hr => exact .black hl hr
  refine ⟨T₂, _, ?_, fun hkeyed => ⟨hrep₂, hfocus'.plug hfits, ?_, hkeyed⟩, hlist', rfl⟩
  · refine bind_of_eq (h.search_hit he) ((if_neg (h.addr_ne_null he)).trans ?_)
    refine (if_neg (h.addr_ne_nil he)).trans (bind_of_eq hload (bind_of_eq hfree ?_))
    refine bind_of_eq (write_eq (T := T₁) hload _) ?_
    show (if p = 0 then some (-2, T₂) else some (0, T₂)) = some (if p = 0 then -2 else 0, T₂)
    split <;> rfl
  · have hs := h.sorted
    unfold Sorted at hs ⊢
    rw [hW, List.pairwise_append, List.pairwise_cons] at hs
    rw [hlist', List.pairwise_append, List.pairwise_cons]
    refine ⟨hs.1, hs.2.1, fun a ha b hb => ?_⟩
    rcases List.mem_cons.mp hb with rfl | hb
    · exact hs.2.2 a ha e List.mem_cons_self
    · exact hs.2.2 a ha b (List.mem_cons_of_mem _ hb)

/-! ### Deletion -/

theorem del_miss (h : Fit T W) (hk : ∀ e ∈ W.toList, e.item.k ≠ key) :
    kvsRbtreeDel T (some key) = some (1, T) := by
  simp [kvsRbtreeDel, h.search_miss hk]

/-- What is left of the entries is in the order of the keys. -/
theorem sorted_deleted {T' : KvsRbtree} {W' : RBTree RbEntry} {y : Ptr} (h : Fit T W)
    (hd : Deleted T W e y T' W') : Sorted W'.toList := by
  obtain ⟨xs, ys, hitems, hitems'⟩ := hd.items
  have hsorted : (W.toList.map RbEntry.item).Pairwise (fun a b => a.k < b.k) :=
    List.pairwise_map.mpr h.sorted
  rw [hitems] at hsorted
  have hsub : (xs ++ ys).Sublist (xs ++ e.item :: ys) :=
    (List.sublist_cons_self e.item ys).append_left xs
  have hsorted' := hsorted.sublist hsub
  rw [← hitems', List.pairwise_map] at hsorted'
  exact hsorted'

/-- **Taking an entry out and freeing its node**, as `kvs_rbtree_del` and
`kvs_rbtree_destroy` do it once its strings are freed. -/
theorem release (h : Fit T W) (he : e ∈ W.toList) (strs : Heap CString) :
    ∃ y T₁ n W' xs ys, rbtreeDelete T e.addr = some (y, T₁) ∧ T₁.nodes.load y = some n
      ∧ n.key = e.item.key ∧ n.value = e.item.value ∧ T₁.strs = T.strs
      ∧ T₁.nodes.free y = some (T₁.nodes.erase y)
      ∧ (Keyed { T₁ with nodes := T₁.nodes.erase y, strs := strs } W'.toList →
        Fit { T₁ with nodes := T₁.nodes.erase y, strs := strs } W')
      ∧ W.toList.map RbEntry.item = xs ++ e.item :: ys
      ∧ W'.toList.map RbEntry.item = xs ++ ys ∧ T₁.nil = T.nil
      ∧ (addrs W.toList).Perm (y :: addrs W'.toList)
      ∧ ∀ q, q ∉ T.nil :: addrs W.toList → T₁.nodes.load q = T.nodes.load q := by
  obtain ⟨m, hbal⟩ := h.bal
  obtain ⟨y, T₁, W', hdel, hd, hperm, hframe⟩ := delete_eq h.rep hbal he
  obtain ⟨n, hn, hnk, hnv⟩ := hd.carries
  obtain ⟨xs, ys, hitems, hitems'⟩ := hd.items
  refine ⟨y, T₁, n, W', xs, ys, hdel, hn, hnk, hnv, hd.strs_eq, Heap.free_of_load hn,
    fun hkeyed => ⟨?_, hd.bal, h.sorted_deleted hd, hkeyed⟩, hitems, hitems', hd.nil_eq, hperm,
    hframe⟩
  refine hd.rep.congr rfl rfl (fun q hq => ?_)
  have hne : q ≠ y := fun heq => hd.fresh (heq ▸ hq)
  exact (Heap.load_erase _ _ _).trans (if_neg hne)

/-- **`kvs_rbtree_del` of a stored key** removes its entry. -/
theorem del_hit (h : Fit T W) (he : e ∈ W.toList) {strs strs' : Heap CString}
    (hfree : T.strs.free e.item.key = some strs) (hfree' : strs.free e.item.value = some strs') :
    ∃ T' W' xs ys, kvsRbtreeDel T (some e.item.k) = some (0, T')
      ∧ (Keyed T' W'.toList → Fit T' W') ∧ W.toList.map RbEntry.item = xs ++ e.item :: ys
      ∧ W'.toList.map RbEntry.item = xs ++ ys ∧ T'.strs = strs' := by
  obtain ⟨y, T₁, n, W', xs, ys, hdel, hn, hnk, hnv, hstrs, hfreey, hfit, hitems, hitems', -, -⟩ :=
    h.release he strs'
  refine ⟨_, W', xs, ys, ?_, hfit, hitems, hitems', rfl⟩
  rw [← hstrs, ← hnk] at hfree
  rw [← hnv] at hfree'
  refine bind_of_eq (h.search_hit he) ((if_neg ?_).trans ?_)
  · exact not_or.mpr ⟨h.addr_ne_null he, h.addr_ne_nil he⟩
  exact bind_of_eq hdel (bind_of_eq hn (bind_of_eq hfree (bind_of_eq hfree'
    (bind_of_eq hfreey rfl))))

end Fit

namespace Inv

variable {T : KvsRbtree} {W : RBTree RbEntry} {e : RbEntry} {key : CString}

theorem fit (h : Inv T W) : Fit T W :=
  ⟨h.rep, h.bal, h.sorted, fun e he => h.owns.key_load e.item (List.mem_map_of_mem he)⟩

/-- The keys of entries that own their strings are where they say. -/
theorem of_fit (howns : Owns T.strs (W.toList.map RbEntry.item)) (h : Keyed T W.toList → Fit T W) :
    Inv T W :=
  have hfit := h (fun e he => howns.key_load e.item (List.mem_map_of_mem he))
  ⟨hfit.rep, hfit.bal, hfit.sorted, howns⟩

/-- **`kvs_rbtree_set` of a new key** adds its entry, which owns its strings. -/
theorem set_new (h : Inv T W) (hk : ∀ e ∈ W.toList, e.item.k ≠ key) (v : CString)
    (rand : ℕ → Bool) :
    ∃ T' W' xs e ys, kvsRbtreeSet T (some key) (some v) (Env.healthy rand) = some (0, T')
      ∧ Inv T' W' ∧ W.toList = xs ++ ys ∧ W'.toList = xs ++ e :: ys ∧ e.item.k = key
      ∧ e.item.v = v := by
  obtain ⟨T', W', xs, e, ys, hset, hfit, hxy, hxey, he, hstrs⟩ :=
    h.fit.set_new hk v (Env.healthy rand) (fun _ _ => rfl)
  refine ⟨T', W', xs, e, ys, hset, of_fit ?_ (fun _ => hfit), hxy, hxey, by rw [he], by rw [he]⟩
  have howns := h.owns.alloc_item key v
  rw [hstrs, hxey]
  refine (he ▸ howns).perm ?_
  rw [hxy, List.map_append, List.map_append, List.map_cons]
  exact List.perm_middle.symm

/-- **`kvs_rbtree_mod` of a stored key** replaces the value of its entry. -/
theorem mod_hit {xs ys : List RbEntry} (h : Inv T W) (hW : W.toList = xs ++ e :: ys) (v : CString)
    (rand : ℕ → Bool) :
    ∃ T' W' e', kvsRbtreeMod T (some e.item.k) (some v) (Env.healthy rand) = some (0, T')
      ∧ Inv T' W' ∧ W'.toList = xs ++ e' :: ys ∧ e'.item.k = e.item.k ∧ e'.item.v = v := by
  have hperm : (W.toList.map RbEntry.item).Perm (e.item :: (xs ++ ys).map RbEntry.item) := by
    rw [hW, List.map_append, List.map_append, List.map_cons]
    exact List.perm_middle
  obtain ⟨hfree, howns⟩ := (h.owns.perm hperm).replace_value v
  obtain ⟨T', W', hmod, hfit, hW', hstrs⟩ := h.fit.mod_hit hW v (Env.healthy rand) hfree
  refine ⟨T', W', _, ?_, of_fit ?_ hfit, hW', rfl, rfl⟩
  · rw [hmod]
    exact congrArg (fun c => some (c, T')) (if_neg (Heap.next_ne_null _))
  · rw [hstrs, hW']
    refine howns.perm ?_
    rw [List.map_append, List.map_append, List.map_cons]
    exact List.perm_middle.symm

/-- The tree after `rbtree_delete` satisfies the invariant, and the entry
that was removed still owns its strings. -/
theorem deleted {T' : KvsRbtree} {W' : RBTree RbEntry} {y : Ptr} (h : Inv T W)
    (hd : Deleted T W e y T' W') :
    Inv T' W' ∧ Owns T'.strs (e.item :: W'.toList.map RbEntry.item) := by
  obtain ⟨xs, ys, hitems, hitems'⟩ := hd.items
  have howns : Owns T'.strs (e.item :: W'.toList.map RbEntry.item) := by
    rw [hd.strs_eq, hitems']
    have hown := h.owns
    rw [hitems] at hown
    exact hown.perm List.perm_middle
  exact ⟨⟨hd.rep, hd.bal, h.fit.sorted_deleted hd, howns.of_cons⟩, howns⟩

/-- **`kvs_rbtree_del` of a stored key** removes its entry and frees what it
owned. -/
theorem del_hit {xs ys : List Item} {it : Item} (h : Inv T W)
    (hW : W.toList.map RbEntry.item = xs ++ it :: ys) :
    ∃ T' W', kvsRbtreeDel T (some it.k) = some (0, T') ∧ Inv T' W'
      ∧ W'.toList.map RbEntry.item = xs ++ ys := by
  have hit : it ∈ W.toList.map RbEntry.item := by simp [hW]
  obtain ⟨e, he, rfl⟩ := List.mem_map.mp hit
  have hown := h.owns
  rw [hW] at hown
  obtain ⟨hfree, hfree', howns⟩ := (hown.perm List.perm_middle).free_item
  obtain ⟨T', W', xs', ys', hdel, hfit, hitems, hitems', hstrs⟩ := h.fit.del_hit he hfree hfree'
  have hnd := h.fit.nodup
  rw [hW] at hnd
  obtain ⟨rfl, -, rfl⟩ := split_unique hnd (hW.symm.trans hitems) rfl
  exact ⟨T', W', hdel, of_fit (by rw [hstrs, hitems']; exact howns) hfit, hitems'⟩

end Inv

/-! ## Runs -/

/-- The engine holds the entries, in the order of their keys. -/
def Holds (T : KvsRbtree) (items : List Item) : Prop :=
  ∃ W, Inv T W ∧ items = W.toList.map RbEntry.item

theorem ne_of_notMem_keysOf {W : RBTree RbEntry} {k : CString}
    (hk : k ∉ keysOf (W.toList.map RbEntry.item)) : ∀ e ∈ W.toList, e.item.k ≠ k :=
  fun _ he heq => hk (heq ▸ List.mem_map_of_mem (List.mem_map_of_mem he))

theorem exists_of_mem_keysOf {W : RBTree RbEntry} {k : CString}
    (hk : k ∈ keysOf (W.toList.map RbEntry.item)) : ∃ e ∈ W.toList, e.item.k = k := by
  obtain ⟨it, hit, rfl⟩ := List.mem_map.mp hk
  obtain ⟨e, he, rfl⟩ := List.mem_map.mp hit
  exact ⟨e, he, rfl⟩

/-- **The red-black tree implements the map.** -/
theorem implements : Implements kvsRbtreeOps KvsRbtree.Holds Codes.plain where
  owns := by
    rintro T _ ⟨W, h, rfl⟩
    exact h.owns
  nodup := by
    rintro T _ ⟨W, h, rfl⟩
    exact h.fit.nodup
  get_hit := by
    rintro T _ it ⟨W, h, rfl⟩ hit
    obtain ⟨e, he, rfl⟩ := List.mem_map.mp hit
    exact h.fit.get_hit he
  get_miss := by
    rintro T _ k ⟨W, h, rfl⟩ hk
    exact h.fit.get_miss (ne_of_notMem_keysOf hk)
  set_full := fun _ hfull => by cases hfull
  set_hit := by
    rintro T _ k v rand ⟨W, h, rfl⟩ - hk
    obtain ⟨e, he, rfl⟩ := exists_of_mem_keysOf hk
    exact h.fit.set_hit he v (Env.healthy rand)
  set_new := by
    rintro T _ k v rand ⟨W, h, rfl⟩ - hk
    obtain ⟨T', W', xs, e, ys, hset, hI, hW, hW', hek, hev⟩ :=
      h.set_new (ne_of_notMem_keysOf hk) v rand
    refine ⟨T', xs.map RbEntry.item, e.item, ys.map RbEntry.item, hset, ⟨W', hI, ?_⟩, ?_, hek, hev⟩
    · rw [hW', List.map_append, List.map_cons]
    · rw [hW, List.map_append]
  del_hit := by
    rintro T xs it ys ⟨W, h, hW⟩
    obtain ⟨T', W', hdel, hI, hitems⟩ := h.del_hit hW.symm
    exact ⟨T', hdel, W', hI, hitems.symm⟩
  del_miss := by
    rintro T _ k ⟨W, h, rfl⟩ hk
    exact h.fit.del_miss (ne_of_notMem_keysOf hk)
  mod_hit := by
    rintro T xs it ys v rand ⟨W, h, hW⟩
    obtain ⟨X, Y, hXY, rfl, hY⟩ := List.map_eq_append_iff.mp hW.symm
    obtain ⟨e, Y, rfl, rfl, rfl⟩ := List.map_eq_cons_iff.mp hY
    obtain ⟨T', W', e', hmod, hI, hW', hk, hv⟩ := h.mod_hit hXY v rand
    refine ⟨T', e'.item, hmod, ⟨W', hI, ?_⟩, hk, hv⟩
    rw [hW', List.map_append, List.map_cons]
  mod_miss := by
    rintro T _ k v rand ⟨W, h, rfl⟩ hk
    exact h.fit.mod_miss (ne_of_notMem_keysOf hk) v (Env.healthy rand)
  exist_hit := by
    rintro T _ k ⟨W, h, rfl⟩ hk
    obtain ⟨e, he, rfl⟩ := exists_of_mem_keysOf hk
    exact h.fit.exist_hit he
  exist_miss := by
    rintro T _ k ⟨W, h, rfl⟩ hk
    exact h.fit.exist_miss (ne_of_notMem_keysOf hk)

/-- `kvs_rbtree_create` makes an empty tree. -/
theorem create_eq (rand : ℕ → Bool) :
    ∃ T, kvsRbtreeCreate KvsRbtree.zero (Env.healthy rand) = some (0, T) ∧ Inv T .nil := by
  refine ⟨_, rfl, ⟨rfl, trivial, ⟨1, rfl⟩, List.nodup_singleton _⟩, ⟨0, .nil⟩, List.Pairwise.nil,
    Owns.nil _⟩

/-- **The shape of the tree in memory**, for the tree `W` of its nodes. -/
structure Shape (T : KvsRbtree) (W : RBTree RbEntry) : Prop where
  /-- The root pointer is to the root of the tree. -/
  root_eq : T.root = rootPtr T.nil W
  /-- The child pointers form the tree, and the parent pointers go back. -/
  tree : Sub T.nodes T.nil T.nil W
  /-- The nodes are distinct, and `nil` is none of them. -/
  nodup : (T.nil :: addrs W.toList).Nodup
  root_black : T.colorOf T.root = some BLACK
  nil_black : T.colorOf T.nil = some BLACK
  /-- Every node is red or black. -/
  colored : ∀ e ∈ W.toList, T.colorOf e.addr = some RED ∨ T.colorOf e.addr = some BLACK
  /-- The children of a red node are black. -/
  red_children : ∀ e ∈ W.toList, T.colorOf e.addr = some RED →
    ∀ d, ∃ q, T.childOf d e.addr = some q ∧ T.colorOf q = some BLACK
  /-- From any node, every path down has as many black nodes. -/
  black_height : ∀ t ∈ W.subtrees, ∀ p ∈ t.paths, ∀ q ∈ t.paths,
    p.count Color.black = q.count Color.black
  /-- The keys are strictly increasing. -/
  sorted : W.toList.Pairwise (fun a b => ∃ j k, T.keyAt a.addr = some j
    ∧ T.keyAt b.addr = some k ∧ strcmp j k < 0)
  /-- The paths are short. -/
  height : ∀ p ∈ W.paths, 2 ^ p.length ≤ (W.toList.length + 1) ^ 2

/-- A red-black tree with its keys has the shape. -/
theorem Fit.shape {T : KvsRbtree} {W : RBTree RbEntry} (h : Fit T W) : Shape T W := by
  obtain ⟨m, hbal⟩ := h.bal
  -- every node is the focus of the tree somewhere
  have hfocus : ∀ e ∈ W.toList, ∃ c l r, T.colorOf e.addr = some (colorCode c)
      ∧ (c = .red → l.color = .black ∧ r.color = .black)
      ∧ (T.childOf .left e.addr = some (rootPtr T.nil l) ∧ T.colorOf (rootPtr T.nil l)
        = some (colorCode l.color))
      ∧ T.childOf .right e.addr = some (rootPtr T.nil r) ∧ T.colorOf (rootPtr T.nil r)
        = some (colorCode r.color) := by
    intro e he
    obtain ⟨c, l, r, ctx, rfl⟩ := exists_focus he
    have hl : Rep T (plug l (⟨.left, c, e, r⟩ :: ctx)) := h.rep
    have hr : Rep T (plug r (⟨.right, c, e, l⟩ :: ctx)) := h.rep
    refine ⟨c, l, r, h.rep.colorOf_focus, fun hc => ?_, ⟨?_, hl.colorOf_focus⟩, ?_, hr.colorOf_focus⟩
    · obtain ⟨k, n, hn, -⟩ := exists_fits hbal
      subst hc
      exact hn.children_black
    · exact Rep.childOf_focus (show Rep T (plug (branch .left c e l r) ctx) from h.rep)
    · exact Rep.childOf_focus (show Rep T (plug (branch .right c e r l) ctx) from h.rep)
  refine ⟨h.rep.root_eq, h.rep.sub, h.rep.nodup, ?_, ?_, ?_, ?_, ?_, ?_, ?_⟩
  · rw [h.rep.root_eq, Rep.colorOf_focus (show Rep T (plug W []) from h.rep), hbal.color_eq]
    rfl
  · obtain ⟨p, hp⟩ := h.rep.nil_cell
    exact colorOf_eq hp
  · intro e he
    obtain ⟨c, l, r, hc, -⟩ := hfocus e he
    rw [hc]
    cases c with
    | red => exact Or.inl rfl
    | black => exact Or.inr rfl
  · intro e he hred d
    obtain ⟨c, l, r, hc, hchildren, ⟨hl, hlc⟩, hr, hrc⟩ := hfocus e he
    have hcr : c = .red := colorCode_eq_red.mp (Option.some.inj (hc.symm.trans hred))
    obtain ⟨hlb, hrb⟩ := hchildren hcr
    rw [hlb] at hlc
    rw [hrb] at hrc
    cases d with
    | left => exact ⟨_, hl, hlc⟩
    | right => exact ⟨_, hr, hrc⟩
  · intro t ht p hp q hq
    obtain ⟨c, n, hn⟩ := hbal.subtree t ht
    rw [hn.count_black p hp, hn.count_black q hq]
  · refine h.sorted.imp_of_mem (fun {a b} ha hb hlt => ?_)
    exact ⟨_, _, h.rep.keyAt h.keyed ha, h.rep.keyAt h.keyed hb, (strcmp_neg _ _).mpr hlt⟩
  · exact fun p hp => hbal.two_pow_length_le hp

/-- **Every reachable tree is a red-black tree**: after every run of calls
from `kvs_rbtree_create`, with allocations succeeding, the nodes have the
shape of one in memory. -/
theorem run_redBlack (rand : ℕ → Bool) :
    ∃ T, kvsRbtreeCreate KvsRbtree.zero (Env.healthy rand) = some (0, T)
      ∧ ∀ ops, ∃ rs T', kvsRbtreeOps.healthy.run T ops = some (rs, T') ∧ ∃ W, Shape T' W := by
  obtain ⟨T, hcreate, hI⟩ := create_eq rand
  refine ⟨T, hcreate, fun ops => ?_⟩
  obtain ⟨T', hrun, -, ⟨W, hW, -⟩, -⟩ := implements.run ⟨.nil, hI, rfl⟩ ops
  exact ⟨_, T', hrun, W, hW.fit.shape⟩

/-- **What `rbtree_delete` does to a node of the tree**: the node it returns
carries the key and the value of `z`, the key is gone, and every other key
is mapped to what it was. -/
def DeletesOnly (T : KvsRbtree) (z : RbEntry) : Prop :=
  ∃ y T' n, rbtreeDelete T z.addr = some (y, T') ∧ T'.nodes.load y = some n
    ∧ n.key = z.item.key ∧ n.value = z.item.value ∧ T'.strs = T.strs
    ∧ kvsRbtreeGet T' (some z.item.k) = some 0
    ∧ ∀ k ≠ z.item.k, kvsRbtreeGet T' (some k) = kvsRbtreeGet T (some k)

theorem Inv.deletesOnly {T : KvsRbtree} {W : RBTree RbEntry} {z : RbEntry} (h : Inv T W)
    (hz : z ∈ W.toList) : DeletesOnly T z := by
  obtain ⟨m, hbal⟩ := h.bal
  obtain ⟨y, T', W', hdel, hd, -⟩ := delete_eq h.rep hbal hz
  obtain ⟨hI, -⟩ := h.deleted hd
  obtain ⟨n, hn, hnk, hnv⟩ := hd.carries
  obtain ⟨xs, ys, hitems, hitems'⟩ := hd.items
  have hnd := h.fit.nodup
  rw [hitems] at hnd
  obtain ⟨hgone, -⟩ := nodup_keysOf_middle.mp hnd
  rw [← hitems'] at hgone
  refine ⟨y, T', n, hdel, hn, hnk, hnv, hd.strs_eq, hI.fit.get_miss (ne_of_notMem_keysOf hgone), ?_⟩
  intro k hk
  by_cases hmem : k ∈ keysOf (W'.toList.map RbEntry.item)
  · obtain ⟨e, he, rfl⟩ := exists_of_mem_keysOf hmem
    have hitem : e.item ∈ W.toList.map RbEntry.item := by
      have hm := List.mem_map_of_mem (f := RbEntry.item) he
      rw [hitems'] at hm
      rw [hitems]
      rcases List.mem_append.mp hm with hm | hm
      · exact List.mem_append_left _ hm
      · exact List.mem_append_right _ (List.mem_cons_of_mem _ hm)
    obtain ⟨e', he', heq⟩ := List.mem_map.mp hitem
    have hget := h.fit.get_hit he'
    rw [heq] at hget
    rw [hI.fit.get_hit he, hget]
  · have hmem' : k ∉ keysOf (W.toList.map RbEntry.item) := by
      rw [hitems', keysOf_append, List.mem_append] at hmem
      rw [hitems, keysOf_append, keysOf_cons, List.mem_append, List.mem_cons]
      rintro (hm | hm | hm)
      · exact hmem (Or.inl hm)
      · exact hk hm
      · exact hmem (Or.inr hm)
    rw [hI.fit.get_miss (ne_of_notMem_keysOf hmem), h.fit.get_miss (ne_of_notMem_keysOf hmem')]

/-- **The red-black tree refines the map**: every run of calls from
`kvs_rbtree_create`, with allocations succeeding, returns what the map
returns; and in every state it leads to, `rbtree_delete` of any node of the
tree removes that node's key and value and nothing else. -/
theorem run_refines (rand : ℕ → Bool) :
    ∃ T, kvsRbtreeCreate KvsRbtree.zero (Env.healthy rand) = some (0, T)
      ∧ ∀ ops, ∃ T', kvsRbtreeOps.healthy.run T ops
          = some ((mapSpec.run ∅ (ops.map Prod.fst)).1, T')
        ∧ ∃ W, Shape T' W ∧ ∀ z ∈ W.toList, DeletesOnly T' z
          ∧ T'.strs.load z.item.key = some z.item.k ∧ T'.strs.load z.item.value = some z.item.v := by
  obtain ⟨T, hcreate, hI⟩ := create_eq rand
  refine ⟨T, hcreate, fun ops => ?_⟩
  obtain ⟨T', hrun, -, ⟨W, hW, -⟩, -⟩ := implements.run ⟨.nil, hI, rfl⟩ ops
  rw [engineSpec_plain] at hrun
  refine ⟨T', hrun, W, hW.fit.shape, fun z hz => ⟨hW.deletesOnly hz, ?_, ?_⟩⟩
  · exact hW.owns.key_load z.item (List.mem_map_of_mem hz)
  · exact hW.owns.value_load z.item (List.mem_map_of_mem hz)

/-! ## The fixups end -/

section Ends

variable {T : KvsRbtree} {W : RBTree RbEntry} {m : ℕ}

/-- **The loop of `rbtree_insert_fixup` ends**, from wherever `rbtree_insert`
puts a new node. -/
theorem insert_ends (h : Rep T W) (hbal : Balanced W .black m) (hsorted : Sorted W.toList)
    (hkeys : Keyed T W.toList) {p : Ptr} {n : RbNode} {key : CString}
    (hload : T.nodes.load p = some n) (hkey : T.strs.load n.key = some key)
    (hfresh : p ∉ T.nil :: addrs W.toList) (hnew : ∀ x ∈ W.toList, x.item.k ≠ key) :
    ∃ y T₁ i T' z, rbtreeInsertDescend T p T.nodes.next T.root T.nil = some (some y)
      ∧ rbtreePlace T y p = some T₁
      ∧ Ends rbtreeInsertFixupRound (InsertReal (fun q => q ≠ T.nil ∧ (q = p ∨ q ∈ addrs W.toList)))
          i (T₁, p) (T', z)
      ∧ rbtreeInsert T p = T'.setColor T'.root BLACK := by
  let e : RbEntry := ⟨p, ⟨n.key, n.value, key, key⟩⟩
  obtain ⟨ctx, T₁, hdesc, hplace, rfl, -, -, hins, hkeeps⟩ :=
    exists_placed (e := e) h hbal hsorted hkeys hkey hload rfl rfl hfresh hnew
  have hperm := perm_addrs_unlink .left .red e .nil ctx
  obtain ⟨i, T', z, W', hi, hends, -⟩ := insertFixup_ends
    (fun q => q ≠ T.nil ∧ (q = p ∨ q ∈ addrs (plug RBTree.nil ctx).toList)) ctx.length hins le_rfl
    (by
      intro q hq
      rcases List.mem_cons.mp (hperm.mem_iff.mp hq) with rfl | hq
      · exact ⟨fun heq => hfresh (heq ▸ List.mem_cons_self), .inl rfl⟩
      · exact ⟨fun heq => (List.nodup_cons.mp h.nodup).1 (heq ▸ hq), .inr hq⟩)
  refine ⟨_, T₁, i, T', z, hdesc, hplace, hends, ?_⟩
  have hfuel : ctx.length < T₁.nodes.next :=
    lt_of_le_of_lt (length_le_toList_plug _ ctx) hins.rep.length_lt
  unfold rbtreeInsert
  refine bind_of_eq hdesc (bind_of_eq hplace (bind_of_eq (a := T') ?_ rfl))
  rw [insertFixupLoop_eq, hends.loopOn_eq (lt_of_le_of_lt hi hfuel)]
  rfl

/-- **The loop of `rbtree_delete_fixup` ends**, from whatever node
`rbtree_delete` unlinks. -/
theorem delete_ends (h : Rep T W) (hbal : Balanced W .black m) {z : RbEntry} (hz : z ∈ W.toList) :
    ∃ y x T₁ color, rbtreeDetach T z.addr = some (y, x, T₁) ∧ T₁.colorOf y = some color
      ∧ (color ≠ BLACK → rbtreeDelete T z.addr = some (y, T₁))
      ∧ (color = BLACK → ∃ i T' x', Ends rbtreeDeleteFixupRound
            (DeleteReal (fun q => q ≠ T.nil ∧ q ≠ y ∧ q ∈ addrs W.toList)) i (T₁, x) (T', x')
          ∧ rbtreeDelete T z.addr = (T'.setColor x' BLACK).map (fun T => (y, T))) := by
  obtain ⟨y, T₁, t, ctx, cy, hrun, hD⟩ := detach_eq h hbal hz
  obtain ⟨n, hn, hcolor, -⟩ := hD.cell
  have hcolor' : T₁.colorOf y = some (colorCode cy) := (colorOf_eq hn).trans (congrArg some hcolor)
  refine ⟨y, _, T₁, colorCode cy, hrun, hcolor', fun hred => ?_, fun hblack => ?_⟩
  · rw [rbtreeDelete_eq]
    exact bind_of_eq hrun (bind_of_eq hcolor' (bind_of_eq (if_neg hred) rfl))
  · obtain rfl := colorCode_eq_black.mp hblack
    obtain ⟨d, e, c, k, hfocus, hfits⟩ := hD.fits
    obtain ⟨k, hI⟩ := deleting_of_unlinked hD.rep hD.hole hfocus hfits
    have hperm := hD.addrs_perm
    obtain ⟨i, T', t', ctx', hi, hends, -⟩ := deleteFixup_ends
      (fun q => q ≠ T.nil ∧ q ≠ y ∧ q ∈ addrs W.toList) ctx.length hI (.inr le_rfl)
      (by
        intro q hq
        have hnd := List.nodup_cons.mp ((hperm.cons T.nil).nodup_iff.mp h.nodup)
        refine ⟨fun heq => hnd.1 (heq ▸ List.mem_cons_of_mem _ hq), fun heq => ?_,
          hperm.mem_iff.mpr (List.mem_cons_of_mem _ hq)⟩
        exact (List.nodup_cons.mp hnd.2).1 (heq ▸ hq))
    refine ⟨i, T', _, hends, ?_⟩
    have hfuel : ctx.length < T₁.nodes.next :=
      lt_of_le_of_lt (length_le_toList_plug t ctx) hD.rep.length_lt
    rw [rbtreeDelete_eq]
    refine bind_of_eq hrun (bind_of_eq hcolor' ?_)
    show (if colorCode .black = BLACK then rbtreeDeleteFixup T₁ (rootPtr T₁.nil t) else some T₁).bind
      _ = _
    have hfix : rbtreeDeleteFixup T₁ (rootPtr T₁.nil t) = T'.setColor (rootPtr T'.nil t') BLACK := by
      unfold rbtreeDeleteFixup
      rw [deleteFixupLoop_eq, hends.loopOn_eq (lt_of_le_of_lt hi hfuel)]
      rfl
    rw [if_pos hblack, hfix]
    cases T'.setColor (rootPtr T'.nil t') BLACK <;> rfl

end Ends

/-- **Both fixups end**, for every red-black tree, every node that
`rbtree_insert` puts into it and every node that `rbtree_delete` takes out:
their loops go round finitely often, each time through nodes of the tree. -/
theorem fixups_end {T : KvsRbtree} {W : RBTree RbEntry} {m : ℕ} (h : Rep T W)
    (hbal : Balanced W .black m) (hsorted : Sorted W.toList) (hkeys : Keyed T W.toList) :
    (∀ (p : Ptr) (n : RbNode) (key : CString), T.nodes.load p = some n →
      T.strs.load n.key = some key → p ∉ T.nil :: addrs W.toList →
      (∀ x ∈ W.toList, x.item.k ≠ key) →
      ∃ y T₁ i T' z, rbtreeInsertDescend T p T.nodes.next T.root T.nil = some (some y)
        ∧ rbtreePlace T y p = some T₁
        ∧ Ends rbtreeInsertFixupRound
            (InsertReal (fun q => q ≠ T.nil ∧ (q = p ∨ q ∈ addrs W.toList))) i (T₁, p) (T', z)
        ∧ rbtreeInsert T p = T'.setColor T'.root BLACK)
    ∧ ∀ z ∈ W.toList,
      ∃ y x T₁ color, rbtreeDetach T z.addr = some (y, x, T₁) ∧ T₁.colorOf y = some color
        ∧ (color ≠ BLACK → rbtreeDelete T z.addr = some (y, T₁))
        ∧ (color = BLACK → ∃ i T' x', Ends rbtreeDeleteFixupRound
              (DeleteReal (fun q => q ≠ T.nil ∧ q ≠ y ∧ q ∈ addrs W.toList)) i (T₁, x) (T', x')
            ∧ rbtreeDelete T z.addr = (T'.setColor x' BLACK).map (fun T => (y, T))) :=
  ⟨fun _ _ _ hload hkey hfresh hnew => insert_ends h hbal hsorted hkeys hload hkey hfresh hnew,
    fun _ hz => delete_ends h hbal hz⟩

/-- Black nodes with the keys `b`, `a` and `c`, below which is a red one with the key `d`. -/
def sampleTree : RBTree RbEntry :=
  let entry (addr : Ptr) (key : UInt8) (h : 0 ∉ [key]) : RbEntry :=
    ⟨addr, ⟨addr - 1, addr - 1, ⟨[key], h⟩, ⟨[key], h⟩⟩⟩
  .node .black (.node .black .nil (entry 3 97 (by decide)) .nil) (entry 2 98 (by decide))
    (.node .black .nil (entry 4 99 (by decide)) (.node .red .nil (entry 5 100 (by decide)) .nil))

/-- The tree in memory: `nil`, its nodes, and a node with the key `e` that is to be put in. -/
def sample : KvsRbtree where
  root := 2
  nil := 1
  nodes := (((((Heap.empty.alloc ⟨BLACK, 1, 1, 0, 0, 0⟩).alloc ⟨BLACK, 4, 3, 1, 1, 1⟩).alloc
    ⟨BLACK, 1, 1, 2, 2, 2⟩).alloc ⟨BLACK, 5, 1, 2, 3, 3⟩).alloc ⟨RED, 1, 1, 4, 4, 4⟩).alloc
    ⟨0, 0, 0, 0, 5, 5⟩
  strs := ((((Heap.empty.alloc ⟨[98], by decide⟩).alloc ⟨[97], by decide⟩).alloc
    ⟨[99], by decide⟩).alloc ⟨[100], by decide⟩).alloc ⟨[101], by decide⟩

/-- **Both loops go round**: the new node comes below the red one, and a black leaf is
taken out. -/
theorem fixups_end_sample :
    (∃ y T₁ i T' z, rbtreeInsertDescend sample 6 7 2 1 = some (some y)
      ∧ rbtreePlace sample y 6 = some T₁
      ∧ Ends rbtreeInsertFixupRound
          (InsertReal (fun q => q ≠ 1 ∧ (q = 6 ∨ q ∈ addrs sampleTree.toList))) (i + 1)
          (T₁, 6) (T', z)
      ∧ rbtreeInsert sample 6 = T'.setColor T'.root BLACK)
    ∧ ∃ y x T₁ i T' x', rbtreeDetach sample 3 = some (y, x, T₁)
      ∧ Ends rbtreeDeleteFixupRound
          (DeleteReal (fun q => q ≠ 1 ∧ q ≠ y ∧ q ∈ addrs sampleTree.toList)) (i + 1)
          (T₁, x) (T', x')
      ∧ rbtreeDelete sample 3 = (T'.setColor x' BLACK).map (fun T => (y, T)) := by
  have hrep : Rep sample sampleTree :=
    ⟨rfl, ⟨rfl, ⟨rfl, trivial, trivial⟩, rfl, trivial, rfl, trivial, trivial⟩, ⟨0, rfl⟩,
      by decide⟩
  have hbal : Balanced sampleTree .black 2 :=
    .black (.black .nil .nil) (.black .nil (.red .nil .nil))
  have hsorted : Sorted sampleTree.toList := by
    unfold Sorted
    decide
  have hkeys : Keyed sample sampleTree.toList := by
    unfold Keyed
    decide
  obtain ⟨hinsert, hdelete⟩ := fixups_end hrep hbal hsorted hkeys
  refine ⟨?_, ?_⟩
  · obtain ⟨y, T₁, i, T', z, hdesc, hplace, hends, hrun⟩ :=
      hinsert 6 ⟨0, 0, 0, 0, 5, 5⟩ ⟨[101], by decide⟩ rfl rfl (by decide) (by decide)
    obtain rfl : y = 5 := Option.some.inj (Option.some.inj (hdesc.symm.trans rfl))
    -- the parent of the new node is red
    have hround : ((rbtreePlace sample 5 6).bind (fun T => rbtreeInsertFixupRound (T, 6))).map
        Option.isSome = some true := rfl
    rw [hplace, Option.bind_some] at hround
    obtain ⟨i, rfl⟩ := hends.exists_succ hround
    exact ⟨5, T₁, i, T', z, hdesc, hplace, hends, hrun⟩
  · obtain ⟨y, x, T₁, color, hdetach, hcolor, -, hblack⟩ :=
      hdelete ⟨3, ⟨2, 2, ⟨[97], by decide⟩, ⟨[97], by decide⟩⟩⟩ List.mem_cons_self
    have hcolor' : (rbtreeDetach sample 3).bind (fun r => r.2.2.colorOf r.1) = some BLACK := rfl
    rw [hdetach, Option.bind_some, hcolor] at hcolor'
    obtain ⟨i, T', x', hends, hrun⟩ := hblack (Option.some.inj hcolor')
    -- what took the place of the leaf is black, too, and not the root
    have hround : ((rbtreeDetach sample 3).bind (fun r => rbtreeDeleteFixupRound (r.2.2, r.2.1))).map
        Option.isSome = some true := rfl
    rw [hdetach, Option.bind_some] at hround
    obtain ⟨i, rfl⟩ := hends.exists_succ hround
    exact ⟨y, x, T₁, i, T', x', hdetach, hends, hrun⟩

end KvsRbtree
