import LinuxLearn.KvsFailure

/-!
# Tearing the red-black tree down

`kvs_rbtree_destroy` takes the smallest node out of the tree until none is
left, with the whole of `rbtree_delete` each time. What it gives back to
the allocator is then the entries in the order of their keys, each once
(`destroy_releases`); and since a pointer to a freed node stays dangling in
the memory of the model, a teardown that returns has not looked at one.

The trees it is called on are all those the calls of the interface lead
to, with whatever allocations fail on the way. A failed `mod` leaves a node
without a value, so between calls a tree is not `Inv` but `Sound`: its
entries own their keys and, where they have one, their values.
-/

open RedBlack
open RedBlack.RBTree (plug branch node toList)

/-- The loop of `kvs_rbtree_destroy` once round, or at its end; with what was
freed so far, a key and a value at a time. -/
def kvsRbtreeDestroyRound (s : KvsRbtree × List (Ptr × Ptr)) :
    Option (Option (KvsRbtree × List (Ptr × Ptr))) := do
  let (inst, freed) := s
  if inst.root ≠ inst.nil then
    let mini ← rbtreeMini inst inst.root
    let (cur, inst) ← rbtreeDelete inst mini
    let n ← inst.nodes.load cur
    let strs ← inst.strs.free n.key
    let strs ← strs.free n.value
    let nodes ← inst.nodes.free cur
    return some ({ inst with nodes := nodes, strs := strs }, freed ++ [(n.key, n.value)])
  else
    return none

/-- `kvs_rbtree_destroy`. -/
def kvsRbtreeDestroy (inst : KvsRbtree) : Option (List (Ptr × Ptr) × KvsRbtree) := do
  if inst.nil = 0 then
    return ([], inst)
  else
    let (inst, freed) ← loopOn kvsRbtreeDestroyRound inst.nodes.next (inst, [])
    let nodes ← inst.nodes.free inst.nil
    return (freed, { inst with nodes := nodes, nil := 0, root := 0 })

namespace KvsRbtree

/-! ## Entries that may have lost their value -/

/-- The strings an entry owns: its key, and its value where it has one. -/
def strings (it : Item) : List (Ptr × CString) :=
  (it.key, it.k) :: if it.value = 0 then [] else [(it.value, it.v)]

/-- **A sound tree**: a red-black tree whose entries own their strings. -/
structure Sound (T : KvsRbtree) (W : RBTree RbEntry) : Prop where
  rep : Rep T W
  bal : ∃ m, Balanced W .black m
  sorted : Sorted W.toList
  has : T.strs.Has ((W.toList.map RbEntry.item).flatMap strings)

section Strings

variable {strs : Heap CString} {it : Item} {L : List (Ptr × CString)}

/-- **The value of an entry can be freed**, also where it has none. -/
theorem free_value (h : strs.Has (strings it ++ L)) :
    ∃ strs', strs.free it.value = some strs' ∧ strs'.Has ((it.key, it.k) :: L)
      ∧ ∀ q, strs'.load q = if q = it.value then none else strs.load q := by
  unfold strings at h
  by_cases hv : it.value = 0
  · rw [if_pos hv] at h
    refine ⟨strs, if_pos hv, h, fun q => ?_⟩
    split
    · rename_i hq
      rw [hq, hv, Heap.load_null]
    · rfl
  · rw [if_neg hv] at h
    obtain ⟨hfree, hhas⟩ := (h.perm (List.Perm.swap _ _ L)).free
    exact ⟨_, hfree, hhas, fun q => Heap.load_erase strs it.value q⟩

/-- **The key and the value of an entry can be freed.** -/
theorem free_strings (h : strs.Has (strings it ++ L)) :
    ∃ strs₁ strs₂, strs.free it.key = some strs₁ ∧ strs₁.free it.value = some strs₂ ∧ strs₂.Has L
      ∧ strs₂.load it.key = none ∧ strs₂.load it.value = none
      ∧ ∀ q, strs.load q = none → strs₂.load q = none := by
  have hgone : ∀ (strs : Heap CString) (p q : Ptr), strs.load q = none →
      (strs.erase p).load q = none := by
    intro strs p q hq
    rw [Heap.load_erase, hq, ite_self]
  have hself : ∀ (strs : Heap CString) (p : Ptr), (strs.erase p).load p = none := fun strs p =>
    (Heap.load_erase strs p p).trans (if_pos rfl)
  unfold strings at h
  obtain ⟨hkey, hhas⟩ := h.free
  by_cases hv : it.value = 0
  · rw [if_pos hv] at hhas
    exact ⟨_, _, hkey, if_pos hv, hhas, hself _ _, by rw [hv, Heap.load_null],
      fun q hq => hgone _ _ q hq⟩
  · rw [if_neg hv] at hhas
    obtain ⟨hvalue, hhas'⟩ := hhas.free
    exact ⟨_, _, hkey, hvalue, hhas', hgone _ _ _ (hself _ _), hself _ _,
      fun q hq => hgone _ _ q (hgone _ _ q hq)⟩

end Strings

namespace Sound

variable {T : KvsRbtree} {W : RBTree RbEntry} {e : RbEntry} {key : CString}

theorem key_load (h : Sound T W) (he : e ∈ W.toList) : T.strs.load e.item.key = some e.item.k :=
  h.has.load (e.item.key, e.item.k)
    (List.mem_flatMap.mpr ⟨e.item, List.mem_map_of_mem he, List.mem_cons_self⟩)

theorem value_load (h : Sound T W) (he : e ∈ W.toList) (hv : e.item.value ≠ 0) :
    T.strs.load e.item.value = some e.item.v := by
  refine h.has.load (e.item.value, e.item.v)
    (List.mem_flatMap.mpr ⟨e.item, List.mem_map_of_mem he, List.mem_cons_of_mem _ ?_⟩)
  rw [if_neg hv]
  exact List.mem_singleton_self _

theorem fit (h : Sound T W) : Fit T W := ⟨h.rep, h.bal, h.sorted, fun _ he => h.key_load he⟩

theorem of_fit (hhas : T.strs.Has ((W.toList.map RbEntry.item).flatMap strings))
    (h : Keyed T W.toList → Fit T W) : Sound T W := by
  have hfit := h (fun e he => hhas.load (e.item.key, e.item.k)
    (List.mem_flatMap.mpr ⟨e.item, List.mem_map_of_mem he, List.mem_cons_self⟩))
  exact ⟨hfit.rep, hfit.bal, hfit.sorted, hhas⟩

/-- An entry is somewhere among the entries. -/
theorem exists_middle (he : e ∈ W.toList) :
    ∃ xs ys, W.toList = xs ++ e :: ys
      ∧ W.toList.map RbEntry.item = xs.map RbEntry.item ++ e.item :: ys.map RbEntry.item := by
  obtain ⟨xs, ys, hW⟩ := List.append_of_mem he
  refine ⟨xs, ys, hW, ?_⟩
  rw [hW, List.map_append, List.map_cons]

/-- The strings of the tree, one entry's first. -/
theorem has_middle {xs ys : List Item} {it : Item} (h : Sound T W)
    (hW : W.toList.map RbEntry.item = xs ++ it :: ys) :
    T.strs.Has (strings it ++ (xs ++ ys).flatMap strings) := by
  have hhas := h.has
  rw [hW] at hhas
  exact hhas.perm (List.perm_middle.flatMap_right strings)

/-- A tree is sound in any memory with the same objects. -/
theorem of_same {T' : KvsRbtree} (h : Sound T W) (hs : T'.Same T) : Sound T' W where
  rep := h.rep.congr hs.root hs.nil (fun q _ => hs.nodes q)
  bal := h.bal
  sorted := h.sorted
  has := h.has.of_agrees hs.strs

/-! ### Calls whose allocations may fail -/

/-- **`kvs_rbtree_set` keeps a tree sound**, whatever its allocations do. -/
theorem set (h : Sound T W) (key v : CString) (env : Env) :
    ∃ c T' W', kvsRbtreeSet T (some key) (some v) env = some (c, T') ∧ Sound T' W' := by
  by_cases hk : ∃ e ∈ W.toList, e.item.k = key
  · obtain ⟨e, he, rfl⟩ := hk
    exact ⟨1, T, W, h.fit.set_hit he v env, h⟩
  · have hnew : ∀ e ∈ W.toList, e.item.k ≠ key := fun e he heq => hk ⟨e, he, heq⟩
    by_cases henv : ∀ i < 3, env.malloc i = true
    · obtain ⟨T', W', xs, e, ys, hset, hfit, hxy, hxey, he, hstrs⟩ := h.fit.set_new hnew v _ henv
      refine ⟨0, T', W', hset, of_fit ?_ (fun _ => hfit)⟩
      have hhas := (h.has.alloc key).alloc v
      rw [hstrs, hxey, List.map_append, List.map_cons]
      refine hhas.perm (List.Perm.trans ?_ (List.perm_middle.flatMap_right strings).symm)
      rw [hxy, List.map_append, List.flatMap_cons, he]
      simp only [strings, Heap.next_ne_null, if_false, List.cons_append, List.nil_append]
      exact List.Perm.swap _ _ _
    · have hfail : ∃ i < 3, env.malloc i = false := by
        by_contra hne
        refine henv (fun i hi => ?_)
        by_contra hf
        exact hne ⟨i, hi, by simpa using hf⟩
      have hundone : ∃ c T', kvsRbtreeSet T (some key) (some v) env = some (c, T') ∧ c < 0
          ∧ T'.Same T := set_fail (h.fit.search_miss hnew) hfail
      obtain ⟨c, T', hset, -, hsame⟩ := hundone
      exact ⟨c, T', W, hset, h.of_same hsame⟩

/-- **`kvs_rbtree_mod` keeps a tree sound**: where the allocation fails, the
entry is left without a value. -/
theorem mod (h : Sound T W) (key v : CString) (env : Env) :
    ∃ c T' W', kvsRbtreeMod T (some key) (some v) env = some (c, T') ∧ Sound T' W' := by
  by_cases hk : ∃ e ∈ W.toList, e.item.k = key
  · obtain ⟨e, he, rfl⟩ := hk
    obtain ⟨xs, ys, hW, hW'⟩ := exists_middle he
    obtain ⟨strs, hfree, hhas, -⟩ := free_value (h.has_middle hW')
    obtain ⟨T', W', hmod, hfit, hlist, hstrs⟩ := h.fit.mod_hit hW v env hfree
    refine ⟨_, T', W', hmod, of_fit ?_ hfit⟩
    rw [hstrs, hlist, List.map_append, List.map_cons]
    refine Heap.Has.perm ?_ (List.perm_middle.flatMap_right strings).symm
    rw [List.flatMap_cons]
    cases env.malloc 0 with
    | false => exact hhas
    | true =>
      refine (hhas.alloc v).perm ?_
      simp only [strings, Heap.malloc_true, Heap.next_ne_null, if_false, List.cons_append,
        List.nil_append]
      exact List.Perm.swap _ _ _
  · have hmiss : ∀ e ∈ W.toList, e.item.k ≠ key := fun e he heq => hk ⟨e, he, heq⟩
    exact ⟨1, T, W, h.fit.mod_miss hmiss v env, h⟩

/-- **`kvs_rbtree_del` keeps a tree sound.** -/
theorem del (h : Sound T W) (key : CString) :
    ∃ c T' W', kvsRbtreeDel T (some key) = some (c, T') ∧ Sound T' W' := by
  by_cases hk : ∃ e ∈ W.toList, e.item.k = key
  · obtain ⟨e, he, rfl⟩ := hk
    obtain ⟨xs, ys, hW, hW'⟩ := exists_middle he
    obtain ⟨strs₁, strs₂, hkey, hvalue, hhas, -⟩ := free_strings (h.has_middle hW')
    obtain ⟨T', W', xs', ys', hdel, hfit, hitems, hitems', hstrs⟩ := h.fit.del_hit he hkey hvalue
    obtain ⟨rfl, -, rfl⟩ := split_unique (hW' ▸ h.fit.nodup) (hW'.symm.trans hitems) rfl
    exact ⟨0, T', W', hdel, of_fit (by rw [hstrs, hitems']; exact hhas) hfit⟩
  · have hmiss : ∀ e ∈ W.toList, e.item.k ≠ key := fun e he heq => hk ⟨e, he, heq⟩
    exact ⟨1, T, W, h.fit.del_miss hmiss, h⟩

/-- **Every call keeps a tree sound.** -/
theorem step (h : Sound T W) (op : KvsOp) (env : Env) :
    ∃ r T' W', kvsRbtreeOps.machine T (op, env) = some (r, T') ∧ Sound T' W' := by
  cases op with
  | set k v =>
    obtain ⟨c, T', W', hset, h'⟩ := h.set k v env
    exact ⟨_, T', W', bind_of_eq hset rfl, h'⟩
  | get k =>
    by_cases hk : ∃ e ∈ W.toList, e.item.k = k
    · obtain ⟨e, he, rfl⟩ := hk
      by_cases hv : e.item.value = 0
      · exact ⟨_, T, W, bind_of_eq (h.fit.get_hit he) (if_pos hv), h⟩
      · refine ⟨.value (some e.item.v), T, W,
          bind_of_eq (h.fit.get_hit he) ((if_neg hv).trans ?_), h⟩
        exact bind_of_eq (h.value_load he hv) rfl
    · have hmiss : ∀ e ∈ W.toList, e.item.k ≠ k := fun e he heq => hk ⟨e, he, heq⟩
      exact ⟨_, T, W, bind_of_eq (h.fit.get_miss hmiss) (if_pos rfl), h⟩
  | del k =>
    obtain ⟨c, T', W', hdel, h'⟩ := h.del k
    exact ⟨_, T', W', bind_of_eq hdel rfl, h'⟩
  | mod k v =>
    obtain ⟨c, T', W', hmod, h'⟩ := h.mod k v env
    exact ⟨_, T', W', bind_of_eq hmod rfl, h'⟩
  | exist k =>
    by_cases hk : ∃ e ∈ W.toList, e.item.k = k
    · obtain ⟨e, he, rfl⟩ := hk
      exact ⟨_, T, W, bind_of_eq (h.fit.exist_hit he) rfl, h⟩
    · have hmiss : ∀ e ∈ W.toList, e.item.k ≠ k := fun e he heq => hk ⟨e, he, heq⟩
      exact ⟨_, T, W, bind_of_eq (h.fit.exist_miss hmiss) rfl, h⟩

/-- **Every run keeps a tree sound**, and never runs into undefined behaviour. -/
theorem run (is : List (KvsOp × Env)) : ∀ {T : KvsRbtree} {W : RBTree RbEntry}, Sound T W →
    ∃ rs T' W', kvsRbtreeOps.machine.run T is = some (rs, T') ∧ Sound T' W' := by
  induction is with
  | nil => exact fun h => ⟨[], _, _, rfl, h⟩
  | cons i is ih =>
    intro T W h
    obtain ⟨r, T₁, W₁, hstep, h₁⟩ := h.step i.1 i.2
    obtain ⟨rs, T', W', hrun, h'⟩ := ih h₁
    exact ⟨r :: rs, T', W', bind_of_eq hstep (bind_of_eq hrun rfl), h'⟩

end Sound

/-- `kvs_rbtree_create` makes a sound tree, if it makes one. -/
theorem create_sound {env : Env} {T : KvsRbtree}
    (hcreate : kvsRbtreeCreate KvsRbtree.zero env = some (0, T)) : Sound T .nil := by
  cases hm : env.malloc 0 with
  | false =>
    unfold kvsRbtreeCreate at hcreate
    rw [hm] at hcreate
    cases (Prod.mk.inj (Option.some.inj hcreate)).1
  | true =>
    have henv : kvsRbtreeCreate KvsRbtree.zero env
        = kvsRbtreeCreate KvsRbtree.zero (Env.healthy env.rand) := by
      unfold kvsRbtreeCreate
      rw [hm]
      rfl
    obtain ⟨T', hcreate', hI⟩ := create_eq env.rand
    rw [henv, hcreate'] at hcreate
    obtain rfl := (Prod.mk.inj (Option.some.inj hcreate)).2
    exact ⟨hI.rep, hI.bal, hI.sorted, Heap.Has.nil _⟩

/-! ## The teardown -/

section Destroy

variable {T : KvsRbtree} {W : RBTree RbEntry}

/-- What an entry gives back: its key and its value. -/
def pair (it : Item) : Ptr × Ptr := (it.key, it.value)

/-- **One round frees the entry with the smallest key.** -/
theorem destroyRound_eq {it : Item} {items : List Item} (h : Sound T W)
    (freed : List (Ptr × Ptr)) (hW : W.toList.map RbEntry.item = it :: items) :
    ∃ T' W' y, kvsRbtreeDestroyRound (T, freed) = some (some (T', freed ++ [pair it]))
      ∧ Sound T' W' ∧ W'.toList.map RbEntry.item = items ∧ T'.nil = T.nil
      ∧ (addrs W.toList).Perm (y :: addrs W'.toList) ∧ T'.nodes.load y = none
      ∧ (∀ q, q ∉ T.nil :: addrs W.toList → T'.nodes.load q = T.nodes.load q)
      ∧ T'.strs.load it.key = none ∧ T'.strs.load it.value = none
      ∧ ∀ q, T.strs.load q = none → T'.strs.load q = none := by
  have hne : W ≠ .nil := by
    rintro rfl
    cases hW
  have hroot : T.root ≠ T.nil := by
    rw [h.rep.root_eq]
    cases W with
    | nil => exact absurd rfl hne
    | node c l e r =>
      exact Rep.addr_ne_nil (show Rep T (plug (branch .left c e l r) []) from h.rep)
  obtain ⟨c, y, r, ctx, hmini, hplug, hbefore⟩ :=
    miniFrom_eq W (show Rep T (plug W []) from h.rep) hne h.rep.length_lt.le
  -- the smallest node carries the first entry
  have hlist : W.toList = y :: (r.toList ++ after ctx) := by
    rw [hplug, toList_plug, hbefore]
    simp [toList]
  have hy : y ∈ W.toList := by
    rw [hlist]
    exact List.mem_cons_self
  rw [hlist, List.map_cons] at hW
  obtain ⟨rfl, hitems⟩ := List.cons.inj hW
  have hW' : W.toList.map RbEntry.item = [] ++ y.item :: items := by
    rw [hlist, List.map_cons, hitems]
    rfl
  obtain ⟨strs₁, strs₂, hkey, hvalue, hhas, hkgone, hvgone, hgone⟩ :=
    free_strings (h.has_middle hW')
  obtain ⟨p, T₁, n, W', xs, ys, hdel, hn, hnk, hnv, hstrs, hfree, hfit, hxy, hxy', hnil, hperm,
    hframe⟩ := h.fit.release hy strs₂
  obtain ⟨rfl, -, rfl⟩ := split_unique (hW' ▸ h.fit.nodup) (hW'.symm.trans hxy) rfl
  refine ⟨{ T₁ with nodes := T₁.nodes.erase p, strs := strs₂ }, W', p, ?_,
    Sound.of_fit (by rw [hxy']; exact hhas) hfit, hxy', hnil, hperm, ?_, fun q hq => ?_, hkgone,
    hvgone, hgone⟩
  · rw [← hstrs, ← hnk] at hkey
    rw [← hnv] at hvalue
    refine (if_pos hroot).trans (bind_of_eq ?_ (bind_of_eq hdel (bind_of_eq hn ?_)))
    · rw [h.rep.root_eq]
      exact hmini
    refine bind_of_eq hkey (bind_of_eq hvalue (bind_of_eq hfree ?_))
    rw [hnk, hnv]
    rfl
  · exact (Heap.load_erase _ _ _).trans (if_pos rfl)
  · have hqp : q ≠ p := fun heq =>
      hq (List.mem_cons_of_mem _ (hperm.mem_iff.mpr (heq ▸ List.mem_cons_self)))
    exact ((Heap.load_erase _ _ _).trans (if_neg hqp)).trans (hframe q hq)

/-- **The loop frees the entries in order**, one a round, and leaves an empty
tree. -/
theorem destroy_ends (items : List Item) : ∀ {T : KvsRbtree} {W : RBTree RbEntry}
    (freed : List (Ptr × Ptr)), Sound T W → W.toList.map RbEntry.item = items →
    ∃ T', Ends kvsRbtreeDestroyRound (fun _ => True) items.length (T, freed)
        (T', freed ++ items.map pair)
      ∧ Sound T' .nil ∧ T'.nil = T.nil
      ∧ (∀ q ∈ addrs W.toList, T'.nodes.load q = none)
      ∧ (∀ q, q ∉ T.nil :: addrs W.toList → T'.nodes.load q = T.nodes.load q)
      ∧ (∀ it ∈ items, T'.strs.load it.key = none ∧ T'.strs.load it.value = none)
      ∧ ∀ q, T.strs.load q = none → T'.strs.load q = none := by
  induction items with
  | nil =>
    intro T W freed h hW
    obtain rfl : W = .nil := by
      cases W with
      | nil => rfl
      | node c l e r => simp [toList] at hW
    refine ⟨T, ?_, h, rfl, fun q hq => absurd hq List.not_mem_nil, fun q _ => rfl,
      fun it hit => absurd hit List.not_mem_nil, fun q hq => hq⟩
    rw [List.map_nil, List.append_nil]
    exact .stop (if_neg (not_not.mpr h.rep.root_eq))
  | cons it items ih =>
    intro T W freed h hW
    obtain ⟨T₁, W₁, y, hround, h₁, hW₁, hnil₁, hperm, hy, hframe, hkey, hvalue, hgone⟩ :=
      destroyRound_eq h freed hW
    obtain ⟨T', hends, h', hnil', hnodes, hframe', hstrs, hgone'⟩ :=
      ih (freed ++ [pair it]) h₁ hW₁
    have hnd := List.nodup_cons.mp ((hperm.cons T.nil).nodup_iff.mp h.rep.nodup)
    have hyfresh : y ∉ T₁.nil :: addrs W₁.toList := by
      rw [hnil₁]
      exact h.rep.notMem_of_perm hperm
    refine ⟨T', ?_, h', hnil'.trans hnil₁, fun q hq => ?_, fun q hq => ?_, fun x hx => ?_,
      fun q hq => hgone' q (hgone q hq)⟩
    · rw [List.append_assoc] at hends
      exact .round trivial hround hends
    · rcases List.mem_cons.mp (hperm.mem_iff.mp hq) with rfl | hq
      · rw [hframe' q hyfresh, hy]
      · exact hnodes q hq
    · rw [hframe' q ?_, hframe q hq]
      rw [hnil₁]
      intro hm
      rcases List.mem_cons.mp hm with rfl | hm
      · exact hq List.mem_cons_self
      · exact hq (List.mem_cons_of_mem _ (hperm.mem_iff.mpr (List.mem_cons_of_mem _ hm)))
    · rcases List.mem_cons.mp hx with rfl | hx
      · exact ⟨hgone' _ hkey, hgone' _ hvalue⟩
      · exact hstrs x hx

end Destroy

/-- **Teardown releases everything once.** After every run of calls from
`kvs_rbtree_create`, whichever allocations fail, `kvs_rbtree_destroy` of the
tree returns; the keys and values it frees are those of the entries, in the
order of the keys; and of the tree nothing is left. -/
theorem destroy_releases {env : Env} {T₀ : KvsRbtree}
    (hcreate : kvsRbtreeCreate KvsRbtree.zero env = some (0, T₀)) (is : List (KvsOp × Env)) :
    ∃ rs T W, kvsRbtreeOps.machine.run T₀ is = some (rs, T) ∧ Shape T W
      ∧ (∀ e ∈ W.toList, T.strs.load e.item.key = some e.item.k
        ∧ (e.item.value = 0 ∨ T.strs.load e.item.value = some e.item.v))
      ∧ ∃ T', kvsRbtreeDestroy T
          = some (W.toList.map (fun e => (e.item.key, e.item.value)), T')
        ∧ (W.toList.map (fun e => e.item.key)).Nodup
        ∧ T'.root = 0 ∧ T'.nil = 0 ∧ T'.nodes.load T.nil = none
        ∧ ∀ e ∈ W.toList, T'.nodes.load e.addr = none ∧ T'.strs.load e.item.key = none
          ∧ T'.strs.load e.item.value = none := by
  obtain ⟨rs, T, W, hrun, h⟩ := (create_sound hcreate).run is
  obtain ⟨T', hends, h', hnil, hnodes, hframe, hstrs, -⟩ :=
    destroy_ends (W.toList.map RbEntry.item) [] h rfl
  refine ⟨rs, T, W, hrun, h.fit.shape, fun e he => ⟨h.key_load he, ?_⟩, ?_⟩
  · by_cases hv : e.item.value = 0
    · exact .inl hv
    · exact .inr (h.value_load he hv)
  obtain ⟨p, hp⟩ := h'.rep.nil_cell
  have hnil0 : T.nil ≠ 0 := by
    obtain ⟨q, hq⟩ := h.rep.nil_cell
    exact Heap.ne_null_of_load hq
  refine ⟨{ T' with nodes := T'.nodes.erase T'.nil, nil := 0, root := 0 }, ?_, ?_, rfl, rfl, ?_,
    fun e he => ⟨?_, hstrs e.item (List.mem_map_of_mem he)⟩⟩
  · refine (if_neg hnil0).trans
      (bind_of_eq (hends.loopOn_eq ?_) (bind_of_eq (Heap.free_of_load hp) ?_))
    · rw [List.length_map]
      exact h.rep.length_lt
    · rw [List.nil_append, List.map_map]
      rfl
  · refine List.pairwise_map.mpr (h.sorted.imp_of_mem (fun {a b} ha hb hlt heq => ?_))
    have hka := h.key_load ha
    rw [heq, h.key_load hb] at hka
    exact hlt.ne (Option.some.inj hka).symm
  · rw [← hnil]
    exact (Heap.load_erase _ _ _).trans (if_pos rfl)
  · show (T'.nodes.erase T'.nil).load e.addr = none
    rw [Heap.load_erase, hnodes _ (mem_addrs he), ite_self]

/-- One key, whose value was lost by a `mod` that failed. -/
theorem destroy_releases_lost :
    ∃ T₀, kvsRbtreeCreate KvsRbtree.zero (Env.healthy (fun _ => false)) = some (0, T₀)
      ∧ ∃ rs T T' freed, kvsRbtreeOps.machine.run T₀
          [(.set ⟨[107], by decide⟩ ⟨[118], by decide⟩, Env.healthy (fun _ => false)),
            (.mod ⟨[107], by decide⟩ ⟨[119], by decide⟩, ⟨fun _ => false, fun _ => false⟩)]
          = some (rs, T)
        ∧ kvsRbtreeDestroy T = some (freed, T') ∧ T'.root = 0 ∧ T'.nil = 0 := by
  obtain ⟨T₀, hcreate, -⟩ := create_eq (fun _ => false)
  obtain ⟨rs, T, W, hrun, -, -, T', hdestroy, -, hroot, hnil, -⟩ := destroy_releases hcreate _
  exact ⟨T₀, hcreate, rs, T, T', _, hrun, hdestroy, hroot, hnil⟩

end KvsRbtree
