import LinuxLearn.NtyTreeInsert

/-!
# Lookup and walking

The elements of a tree are a list, and everything that only reads the tree can be told from it:
`RB_FIND` and `RB_NFIND` give its first element with the key, or with no smaller one, `RB_MIN`
and `RB_MAX` its ends, `RB_NEXT` and `RB_PREV` the neighbours of an element. So the two loops
`RB_FOREACH` and `RB_FOREACH_REVERSE` pass through the list, and stop.
-/

open RedBlack LinkedTree SearchTree
open RedBlack.RBTree (plug branch node toList)

namespace NtyTree

variable {α : Type} {T : LinkedTree α} {t s W : RBTree (Entry α)} {ctx : List (Frame (Entry α))}
  {d : Side} {c : Color} {e : Entry α} {next : Ptr} {r : Multiset (Ptr × LinkedNode α)}
  {xs ys : List (Entry α)} {fuel : ℕ}

@[simp] theorem firstPtr_cons (e : Entry α) (l : List (Entry α)) : firstPtr (e :: l) = e.addr := rfl

@[simp] theorem firstPtr_nil : firstPtr ([] : List (Entry α)) = 0 := rfl

/-! ## Lookup -/

theorem exists_path (t : RBTree (Entry α)) : ∃ p, p ∈ t.paths := by
  induction t with
  | nil => exact ⟨[], List.mem_cons_self⟩
  | node c l e u ihl _ =>
    obtain ⟨p, hp⟩ := ihl
    exact ⟨_, List.mem_map_of_mem (List.mem_append_left _ hp)⟩

/-- A path is no longer than the tree has nodes. -/
theorem length_path_le (t : RBTree (Entry α)) : ∀ p ∈ t.paths, p.length ≤ t.toList.length := by
  induction t with
  | nil => exact fun p hp => by rw [List.mem_singleton.mp hp]; exact le_rfl
  | node c l e u ihl ihu =>
    intro p hp
    obtain ⟨q, hq, rfl⟩ := List.mem_map.mp hp
    rw [toList, List.length_append, List.length_cons, List.length_cons]
    rcases List.mem_append.mp hq with hq | hq
    · have hlen := ihl q hq
      omega
    · have hlen := ihu q hq
      omega

theorem length_path_lt (h : Rep T W next r) : ∀ p ∈ W.paths, p.length < T.nodes.next := fun p hp =>
  (length_path_le W p hp).trans_lt (h.length_lt.trans_eq h.next_eq.symm)

section Lookup

variable {κ : Type} [LinearOrder κ] {cmp : α → α → ℤ} {key : α → κ} {a : α}

/-- **The loop of `RB_FIND`** ends where the key belongs. -/
theorem findFrom_eq (ho : Orders cmp key) (a : α) (t : RBTree (Entry α)) (ctx : List (Frame (Entry α))) :
    ∀ {fuel : ℕ}, Rep T (plug t ctx) next r → (∀ p ∈ t.paths, p.length < fuel) →
      rbFindFrom cmp T a fuel (rootPtr t) = some (rootPtr (zoom (entryKey key) (key a) t ctx).1) := by
  have hstep : ∀ {c : Color} {l : RBTree (Entry α)} {e : Entry α} {u : RBTree (Entry α)}
      {ctx : List (Frame (Entry α))} {fuel : ℕ}, Rep T (plug (node c l e u) ctx) next r →
      rbFindFrom cmp T a (fuel + 1) e.addr
        = if key a < key e.elem then rbFindFrom cmp T a fuel (rootPtr l)
          else if key e.elem < key a then rbFindFrom cmp T a fuel (rootPtr u)
          else some e.addr := by
    intro c l e u ctx fuel h
    have hfocus : Rep T (plug (branch .left c e l u) ctx) next r := h
    have hright : T.childOf .right e.addr = some (rootPtr u) := hfocus.childOf_flip_focus
    rw [← ho.branch_eq]
    refine (if_neg hfocus.addr_ne_zero).trans (bind_of_eq hfocus.elemOf_focus ?_)
    simp only [hfocus.childOf_focus, hright, Option.bind_eq_bind, Option.bind_some]
    rfl
  -- one round for the node, and the paths below it are one shorter
  have hleft : ∀ {c : Color} {l : RBTree (Entry α)} {e : Entry α} {u : RBTree (Entry α)} {fuel : ℕ},
      (∀ p ∈ (node c l e u).paths, p.length < fuel + 1) → ∀ p ∈ l.paths, p.length < fuel :=
    fun h p hp => Nat.lt_of_succ_lt_succ
      (h _ (List.mem_map_of_mem (List.mem_append_left _ hp)))
  have hright : ∀ {c : Color} {l : RBTree (Entry α)} {e : Entry α} {u : RBTree (Entry α)} {fuel : ℕ},
      (∀ p ∈ (node c l e u).paths, p.length < fuel + 1) → ∀ p ∈ u.paths, p.length < fuel :=
    fun h p hp => Nat.lt_of_succ_lt_succ
      (h _ (List.mem_map_of_mem (List.mem_append_right _ hp)))
  have hsucc : ∀ {t : RBTree (Entry α)} {fuel : ℕ}, (∀ p ∈ t.paths, p.length < fuel) → ∃ f, fuel = f + 1 := by
    intro t fuel h
    obtain ⟨p, hp⟩ := exists_path t
    exact Nat.exists_eq_succ_of_ne_zero (Nat.ne_zero_of_lt (h p hp))
  fun_induction zoom (entryKey key) (key a) t ctx with
  | case1 ctx =>
    intro fuel h hfuel
    obtain ⟨fuel, rfl⟩ := Nat.exists_eq_add_of_lt (hfuel [] List.mem_cons_self)
    exact if_pos rfl
  | case2 c l e u ctx hlt ih =>
    intro fuel h hfuel
    obtain ⟨fuel, rfl⟩ := hsucc hfuel
    exact (hstep h).trans ((if_pos hlt).trans (ih h (hleft hfuel)))
  | case3 c l e u ctx hlt hgt ih =>
    intro fuel h hfuel
    obtain ⟨fuel, rfl⟩ := hsucc hfuel
    exact (hstep h).trans ((if_neg hlt).trans ((if_pos hgt).trans (ih h (hright hfuel))))
  | case4 c l e u ctx hlt hgt =>
    intro fuel h hfuel
    obtain ⟨fuel, rfl⟩ := hsucc hfuel
    exact (hstep h).trans ((if_neg hlt).trans (if_neg hgt))

/-- **`RB_FIND`** gives the node with the key. -/
theorem find_found (ho : Orders cmp key) (h : Rep T W next r) (hs : Sorted (entryKey key) W.toList)
    (he : e ∈ W.toList) (hkey : key e.elem = key a) : rbFind cmp T a = some e.addr := by
  obtain ⟨c, l, u, hz⟩ := zoom_eq_node hs he hkey
  unfold rbFind
  rw [h.root_eq, findFrom_eq ho a W [] h (length_path_lt h), hz]
  rfl

/-- **`RB_FIND` of a key that is not there** gives a null pointer. -/
theorem find_missing (ho : Orders cmp key) (h : Rep T W next r)
    (hnew : ∀ e ∈ W.toList, key e.elem ≠ key a) : rbFind cmp T a = some 0 := by
  have hz : (zoom (entryKey key) (key a) W []).1 = .nil := zoom_eq_nil hnew
  unfold rbFind
  rw [h.root_eq, findFrom_eq ho a W [] h (length_path_lt h), hz]
  rfl

theorem firstPtr_append_cons (xs ys zs : List (Entry α)) (e : Entry α) :
    firstPtr (xs ++ e :: ys) = firstPtr (xs ++ e :: zs) := by
  cases xs <;> rfl

/-- **The loop of `RB_NFIND`** gives the first element at the focus whose key is no smaller, and
otherwise the candidate it has. -/
theorem nfindFrom_eq (ho : Orders cmp key) (a : α) (t : RBTree (Entry α)) :
    ∀ (ctx : List (Frame (Entry α))) {fuel : ℕ} (res : List (Entry α)), Rep T (plug t ctx) next r → Sorted (entryKey key) t.toList →
      t.toList.length < fuel → rbNfindFrom cmp T a fuel (rootPtr t) (firstPtr res)
        = some (firstPtr (t.toList.filter (fun e => key a ≤ key e.elem) ++ res)) := by
  induction t with
  | nil =>
    intro ctx fuel res h hs hfuel
    obtain ⟨fuel, rfl⟩ := Nat.exists_eq_add_of_lt hfuel
    exact if_pos rfl
  | node c l e u ihl ihu =>
    intro ctx fuel res h hs hfuel
    have hfocus : Rep T (plug (branch .left c e l u) ctx) next r := h
    have hright : T.childOf .right e.addr = some (rootPtr u) := hfocus.childOf_flip_focus
    obtain ⟨hsl, hseu, hlt⟩ := List.pairwise_append.mp hs
    obtain ⟨hse, hsu⟩ := List.pairwise_cons.mp hseu
    simp only [toList, List.length_append, List.length_cons] at hfuel ⊢
    obtain ⟨fuel, rfl⟩ := Nat.exists_eq_add_of_lt hfuel
    have hstep : rbNfindFrom cmp T a (l.toList.length + (u.toList.length + 1) + fuel + 1) e.addr (firstPtr res)
        = if key a < key e.elem then
            rbNfindFrom cmp T a (l.toList.length + (u.toList.length + 1) + fuel) (rootPtr l) (firstPtr [e])
          else if key e.elem < key a then
            rbNfindFrom cmp T a (l.toList.length + (u.toList.length + 1) + fuel) (rootPtr u) (firstPtr res)
          else some e.addr := by
      rw [← ho.branch_eq]
      refine (if_neg hfocus.addr_ne_zero).trans (bind_of_eq hfocus.elemOf_focus ?_)
      simp only [hfocus.childOf_focus, hright, Option.bind_eq_bind, Option.bind_some]
      rfl
    refine hstep.trans ?_
    rw [List.filter_append, List.append_assoc]
    by_cases hae : key a < key e.elem
    · rw [if_pos hae, ihl (⟨.left, c, e, u⟩ :: ctx) [e] h hsl (by omega),
        List.filter_cons_of_pos (by simpa using hae.le), List.cons_append]
      exact congrArg some (firstPtr_append_cons _ _ _ _)
    · -- what is before the element has smaller keys
      have hbefore : l.toList.filter (fun e => key a ≤ key e.elem) = [] := by
        rw [List.filter_eq_nil_iff]
        intro x hx
        have hxe : key x.elem < key e.elem := hlt x hx e List.mem_cons_self
        simpa using hxe.trans_le (not_lt.mp hae)
      rw [if_neg hae, hbefore, List.nil_append]
      by_cases hea : key e.elem < key a
      · rw [if_pos hea, ihu (⟨.right, c, e, l⟩ :: ctx) res h hsu (by omega),
          List.filter_cons_of_neg (by simpa using hea)]
      · rw [if_neg hea, List.filter_cons_of_pos (by simpa using hea)]
        rfl

/-- **`RB_NFIND`** gives the first node whose key is not smaller, or a null pointer. -/
theorem nfind_eq (ho : Orders cmp key) (h : Rep T W next r) (hs : Sorted (entryKey key) W.toList) (a : α) :
    rbNfind cmp T a = some (firstPtr (W.toList.filter (fun e => key a ≤ key e.elem))) := by
  unfold rbNfind
  rw [h.root_eq]
  have hrun := nfindFrom_eq ho a W [] [] h hs (h.length_lt.trans_eq h.next_eq.symm)
  rwa [List.append_nil] at hrun

end Lookup

/-! ## Walking -/

/-- **Down along one side**, to the last node there. -/
theorem down_eq (t : RBTree (Entry α)) : ∀ (ctx : List (Frame (Entry α))) {fuel : ℕ},
    Rep T (plug t ctx) next r → t ≠ .nil → t.toList.length ≤ fuel →
    ∃ c e s ctx', rbDown d T fuel (rootPtr t) = some e.addr ∧ t = plug (branch d c e .nil s) ctx'
      ∧ beyond d ctx' = [] := by
  induction t using branch_induction d with
  | nil => exact fun _ _ _ hne _ => absurd rfl hne
  | branch c e t s iht _ =>
    intro ctx fuel h _ hfuel
    rw [length_branch] at hfuel
    obtain ⟨fuel, rfl⟩ := Nat.exists_eq_add_of_le' (show 1 ≤ fuel by omega)
    by_cases ht : t = .nil
    · subst ht
      refine ⟨c, e, s, [], ?_, rfl, beyond_nil⟩
      rw [rootPtr_branch]
      exact bind_of_eq h.childOf_focus (if_neg (not_not.mpr rfl))
    · have ht' : Rep T (plug t (⟨d, c, e, s⟩ :: ctx)) next r := h
      have hne : rootPtr t ≠ 0 := fun h0 => ht (ht'.rootPtr_eq_zero.mp h0)
      obtain ⟨c', e', s', ctx', hrun, heq, hbeyond⟩ := iht (⟨d, c, e, s⟩ :: ctx) ht' ht
        (show t.toList.length ≤ fuel by omega)
      refine ⟨c', e', s', ctx' ++ [⟨d, c, e, s⟩], ?_, ?_, ?_⟩
      · rw [rootPtr_branch]
        exact bind_of_eq h.childOf_focus ((if_pos hne).trans hrun)
      · rw [plug_append, ← heq]
        rfl
      · rw [beyond_append, hbeyond, beyond_cons, beyond_nil]
        rfl

/-- **The loop of `RB_MINMAX`** ends at the last node towards a side. -/
theorem minmaxFrom_eq (d : Side) (t : RBTree (Entry α)) : ∀ (ctx : List (Frame (Entry α))) (fuel : ℕ)
    (rest : List (Entry α)), Rep T (plug t ctx) next r → t.toList.length < fuel →
    rbMinmaxFrom d T fuel (rootPtr t) (firstPtr rest) = some (firstPtr (listTo d.flip t ++ rest)) := by
  induction t using branch_induction d with
  | nil =>
    intro ctx fuel rest h hfuel
    obtain ⟨fuel, rfl⟩ := Nat.exists_eq_add_of_lt hfuel
    rw [listTo_nil]
    exact if_pos rfl
  | branch c e t s iht _ =>
    intro ctx fuel rest h hfuel
    have hfocus : Rep T (plug (branch d c e t s) ctx) next r := h
    obtain ⟨fuel, rfl⟩ := Nat.exists_eq_add_of_lt hfuel
    rw [length_branch] at hfuel ⊢
    have hrun := iht (⟨d, c, e, s⟩ :: ctx) (t.toList.length + s.toList.length + 1 + fuel)
      [e] h (by omega)
    rw [rootPtr_branch, listTo_branch_flip, List.append_assoc, List.cons_append, firstPtr_append_cons _ _ []]
    exact (if_neg hfocus.addr_ne_zero).trans (bind_of_eq hfocus.childOf_focus hrun)

/-- **`RB_MIN`** gives the first node. -/
theorem min_eq (h : Rep T W next r) : rbMin T = some (firstPtr (listTo .right W)) := by
  have hrun := minmaxFrom_eq .left W [] T.nodes.next [] h (h.length_lt.trans_eq h.next_eq.symm)
  unfold rbMin rbMinmax
  rw [h.root_eq, if_pos (by decide)]
  rwa [List.append_nil] at hrun

/-- **`RB_MAX`** gives the last one. -/
theorem max_eq (h : Rep T W next r) : rbMax T = some (firstPtr (listTo .left W)) := by
  have hrun := minmaxFrom_eq .right W [] T.nodes.next [] h (h.length_lt.trans_eq h.next_eq.symm)
  unfold rbMax rbMinmax
  rw [h.root_eq, if_neg (by decide)]
  rwa [List.append_nil] at hrun

/-- **Up as long as the node is the child on a side**: above is the first node beyond. -/
theorem up_eq (ctx : List (Frame (Entry α))) : ∀ {e : Entry α} {d' : Side} {c : Color} {t s : RBTree (Entry α)}
    (fuel : ℕ), Rep T (plug (branch d' c e t s) ctx) next r → ctx.length < fuel →
    ∃ x, rbUp d T fuel e.addr = some x ∧ T.parentOf x = some (firstPtr (beyond d ctx)) := by
  induction ctx with
  | nil =>
    intro e d' c t s fuel h hfuel
    obtain ⟨fuel, rfl⟩ := Nat.exists_eq_add_of_lt hfuel
    rw [beyond_nil]
    exact ⟨e.addr, bind_of_eq h.parentOf_focus (if_pos rfl), h.parentOf_focus⟩
  | cons f ctx ih =>
    intro e d' c t s fuel h hfuel
    obtain ⟨fd, fc, p, u⟩ := f
    obtain ⟨fuel, rfl⟩ := Nat.exists_eq_add_of_lt hfuel
    rw [List.length_cons] at hfuel
    have hp : Rep T (plug (branch fd fc p (branch d' c e t s) u) ctx) next r := h
    have hparent : T.parentOf e.addr = some p.addr := h.parentOf_focus
    by_cases hd : fd = d
    · subst hd
      obtain ⟨x, hrun, hx⟩ := ih (ctx.length + 1 + fuel) hp (by omega)
      refine ⟨x, ?_, by rw [beyond_cons]; exact hx⟩
      refine bind_of_eq hparent ((if_neg hp.addr_ne_zero).trans (bind_of_eq hp.childOf_focus ?_))
      exact (if_pos (rootPtr_branch ..).symm).trans hrun
    · obtain rfl := Side.eq_flip_of_ne hd
      refine ⟨e.addr, ?_, by rw [beyond_cons_flip]; exact hparent⟩
      have hother : T.childOf d p.addr = some (rootPtr u) := by
        have hflip := hp.childOf_flip_focus
        rwa [Side.flip_flip] at hflip
      have hne := hp.rootPtr_ne (Or.inl (RBTree.branch_ne_nil d' c e t s))
      rw [rootPtr_branch] at hne
      refine bind_of_eq hparent ((if_neg hp.addr_ne_zero).trans (bind_of_eq hother ?_))
      exact if_neg hne

/-- **`RB_NEXT` and `RB_PREV`** at a focus. -/
theorem step_focus (h : Rep T (plug (branch d c e t s) ctx) next r) :
    rbStep d T e.addr = some (firstPtr (listTo d t ++ beyond d ctx)) := by
  unfold rbStep
  by_cases ht : t = .nil
  · subst ht
    rw [listTo_nil, List.nil_append]
    refine bind_of_eq h.childOf_focus ((if_neg (not_not.mpr rfl)).trans (bind_of_eq h.parentOf_focus ?_))
    obtain ⟨x, hup, hx⟩ := up_eq (d := d) ctx T.nodes.next h
      (h.length_ctx_lt.trans_eq h.next_eq.symm)
    cases ctx with
    | nil => exact bind_of_eq (if_neg (not_not.mpr rfl)) (bind_of_eq hup hx)
    | cons f ctx =>
      obtain ⟨fd, fc, p, u⟩ := f
      have hp : Rep T (plug (branch fd fc p (branch d c e .nil s) u) ctx) next r := h
      by_cases hd : fd = d
      · subst hd
        have hne := hp.rootPtr_ne (Or.inl (RBTree.branch_ne_nil fd c e .nil s))
        rw [rootPtr_branch] at hne
        refine bind_of_eq ((if_pos hp.addr_ne_zero).trans (bind_of_eq hp.childOf_flip_focus rfl)) ?_
        rw [decide_eq_false hne]
        exact bind_of_eq hup hx
      · obtain rfl := Side.eq_flip_of_ne hd
        refine bind_of_eq ((if_pos hp.addr_ne_zero).trans (bind_of_eq hp.childOf_focus rfl)) ?_
        rw [decide_eq_true (rootPtr_branch ..).symm, beyond_cons_flip]
        rfl
  · have htrep : Rep T (plug t (⟨d, c, e, s⟩ :: ctx)) next r := h
    have hne : rootPtr t ≠ 0 := fun h0 => ht (htrep.rootPtr_eq_zero.mp h0)
    have hlen : t.toList.length ≤ T.nodes.next := by
      have hlt := h.length_lt
      rw [toList_plug, List.length_append, List.length_append, length_branch, ← h.next_eq] at hlt
      omega
    obtain ⟨c', e', s', ctx', hrun, heq, hbeyond⟩ := down_eq (d := d.flip) t _ htrep ht hlen
    refine bind_of_eq h.childOf_focus ((if_pos hne).trans (hrun.trans ?_))
    obtain ⟨xs, hxs⟩ := exists_listTo_last (c := c') (a := e') (s := s') hbeyond
    rw [← heq, listTo_flip] at hxs
    rw [List.reverse_eq_iff.mp hxs, List.reverse_append]
    rfl

/-- **No two nodes of a tree are at one address.** -/
theorem nodup_addrs (h : Rep T W next r) : (W.toList.map Entry.addr).Nodup := by
  have hnd := h.holds.nodup
  rw [Multiset.map_add, map_fst_cells] at hnd
  exact Multiset.coe_nodup.mp (Multiset.nodup_add.mp hnd).1

/-- **`RB_NEXT` and `RB_PREV`** give the neighbour of a node, or a null pointer. -/
theorem step_eq (h : Rep T W next r) (hsplit : listTo d W = xs ++ e :: ys) :
    rbStep d T e.addr = some (firstPtr ys) := by
  have hmem : e ∈ W.toList := mem_listTo.mp (by rw [hsplit]; simp)
  obtain ⟨c, l, u, ctx, rfl⟩ := exists_focus hmem
  obtain ⟨t, s, hts⟩ : ∃ t s, node c l e u = branch d c e t s := by
    cases d with
    | left => exact ⟨l, u, rfl⟩
    | right => exact ⟨u, l, rfl⟩
  rw [hts] at h hsplit
  obtain ⟨zs, hzs⟩ := listTo_plug (d := d) (branch d c e t s) ctx
  rw [listTo_branch, ← List.append_assoc, List.append_assoc, List.cons_append] at hzs
  -- the node is at one place in the list
  have hnd : ((listTo d (plug (branch d c e t s) ctx)).map Entry.addr).Nodup := by
    have hnd := nodup_addrs h
    cases d with
    | left =>
      show (((plug _ ctx).toList.reverse).map Entry.addr).Nodup
      rwa [List.map_reverse, List.nodup_reverse]
    | right => exact hnd
  have hys : ys = listTo d t ++ beyond d ctx := by
    have hone := hnd.of_map
    have honce : ∀ {xs ys : List (Entry α)}, listTo d (plug (branch d c e t s) ctx) = xs ++ e :: ys →
        e ∉ xs ∧ e ∉ ys := by
      intro xs ys hxs
      rw [hxs, List.nodup_middle, List.nodup_cons, List.mem_append, not_or] at hone
      exact hone.1
    have hat := honce hsplit
    exact ((List.append_cons_inj_of_notMem hat.1 hat.2).mp (hsplit.symm.trans hzs)).2.2
  rw [hys]
  exact step_focus h

/-- **The loops of `RB_FOREACH` and `RB_FOREACH_REVERSE`**, from a node on. -/
theorem foreachFrom_eq (h : Rep T W next r) (ys : List (Entry α)) : ∀ (xs : List (Entry α)) {fuel : ℕ},
    listTo d W = xs ++ ys → ys.length < fuel →
    rbForeachFrom d T fuel (firstPtr ys) = some (ys.map Entry.addr) := by
  induction ys with
  | nil =>
    intro xs fuel _ hfuel
    obtain ⟨fuel, rfl⟩ := Nat.exists_eq_add_of_lt hfuel
    exact if_neg (not_not.mpr rfl)
  | cons y ys ih =>
    intro xs fuel hsplit hfuel
    obtain ⟨fuel, rfl⟩ := Nat.exists_eq_add_of_lt hfuel
    rw [List.length_cons] at hfuel ⊢
    have hmem : y ∈ W.toList := mem_listTo.mp (by rw [hsplit]; simp)
    have hne : y.addr ≠ 0 := by
      obtain ⟨n, hn, -⟩ := mem_cells_iff.mpr hmem
      exact h.holds.ne_null (Multiset.mem_add.mpr (Or.inl hn))
    refine (if_pos hne).trans (bind_of_eq (step_eq h hsplit) ?_)
    exact bind_of_eq (ih (xs ++ [y]) (hsplit.trans (by simp)) (by omega)) rfl

/-- **`RB_FOREACH`** passes through the nodes in order. -/
theorem foreach_eq (h : Rep T W next r) : rbForeach T = some (W.toList.map Entry.addr) := by
  refine bind_of_eq (min_eq h) ?_
  exact foreachFrom_eq (d := .right) h W.toList [] rfl (h.length_lt.trans_eq h.next_eq.symm)

/-- **`RB_FOREACH_REVERSE`** passes through them the other way. -/
theorem foreachReverse_eq (h : Rep T W next r) : rbForeachReverse T = some (W.toList.reverse.map Entry.addr) := by
  refine bind_of_eq (max_eq h) ?_
  refine foreachFrom_eq (d := .left) h W.toList.reverse [] rfl ?_
  rw [List.length_reverse]
  exact h.length_lt.trans_eq h.next_eq.symm

end NtyTree
