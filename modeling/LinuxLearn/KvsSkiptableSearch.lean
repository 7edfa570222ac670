import LinuxLearn.KvsSkiptableInv

/-!
# What the descent of the skip list finds

A skip list is searched from the top: the cursor runs along the list of a
level while the next key is smaller, and goes on from there one level below.
All the descent relies on is that the list of each level is made of the
nodes of the lowest list that are high enough, in the order of their keys
(`Structured`), whether or not the table counts them and knows their largest
level.

The descent leaves each level at the last node with a smaller key, or at the
head. What follows on the lowest level is then the first node whose key is
not smaller, and a search finds the node that a scan of the lowest list
finds (`descend_predecessors`).
-/

namespace KvsSkiptable

/-- The nodes on the list at level `i`, of those of the lowest list. -/
def listAt (table : KvsSkiptable) (ps : List Ptr) (i : ℕ) : List Ptr :=
  ps.filter (fun p => i < table.levelAt p)

/-- **What the descent relies on**: `ps` are the nodes of the lowest list. -/
structure Structured (table : KvsSkiptable) (ps : List Ptr) : Prop where
  /-- The list at level `i` is made of the nodes whose level exceeds `i`. -/
  chain : ∀ i < SKIPTABLE_MAX_LEVEL, Chain (table.forward i) table.head (table.listAt ps i)
  /-- The nodes have keys. -/
  keyed : ∀ p ∈ ps, ∃ k, table.keyAt p = some k
  /-- They are strictly increasing. -/
  sorted : ps.Pairwise table.KeyLt
  /-- Each node is on the lowest list, and none is above the level of the table. -/
  levels : ∀ p ∈ ps, 1 ≤ table.levelAt p ∧ table.levelAt p ≤ table.level
  /-- The level of the table is in range. -/
  level_range : 1 ≤ table.level ∧ table.level ≤ SKIPTABLE_MAX_LEVEL

/-- **The last node of a list with a smaller key**, or the head, if there is none. -/
def LastBelow (table : KvsSkiptable) (key : CString) (list : List Ptr) (p : Ptr) : Prop :=
  ∃ xs ys, list = xs ++ ys ∧ p = xs.getLastD table.head
    ∧ (∀ x ∈ xs, table.Below key x) ∧ ∀ y ∈ ys, table.AtLeast key y

/-- **The node with the least key that is not smaller**, or `NULL`, if there is none. -/
def LeastAtLeast (table : KvsSkiptable) (key : CString) (list : List Ptr) (q : Ptr) : Prop :=
  q = 0 ∧ (∀ p ∈ list, table.Below key p)
    ∨ q ∈ list ∧ table.AtLeast key q ∧ ∀ p ∈ list, table.AtLeast key p → p = q ∨ table.KeyLt q p

/-- **A scan of the lowest list** for a key, node by node. -/
def skiptableScan (table : KvsSkiptable) (key : CString) : Option Ptr := do
  let first ← table.forward 0 table.head
  seek (table.forward 0) (fun p => (table.keyAt p).map (fun k => decide (strcmp k key = 0)))
    table.nodes.next first

section

variable {table : KvsSkiptable} {ps xs ys : List Ptr} {key : CString} {p q : Ptr} {i : ℕ}

/-- A skip list that satisfies the invariant is one that the descent can rely on. -/
theorem Inv.structured {L : List SkipEntry} (h : Inv table L) :
    Structured table (L.map SkipEntry.addr) where
  chain := h.shape.chain
  keyed := by
    intro p hp
    obtain ⟨n, hn, rfl⟩ := List.mem_map.mp hp
    exact ⟨_, h.keyAt hn⟩
  sorted := h.pairwise_keyLt
  levels := by
    intro p hp
    obtain ⟨n, hn, rfl⟩ := List.mem_map.mp hp
    rw [h.levelAt hn, h.level_eq]
    exact ⟨(h.levels n hn).1, level_le_topLevel hn⟩
  level_range := by
    rw [h.level_eq]
    exact ⟨one_le_topLevel L, topLevel_le (fun n hn => (h.levels n hn).2)⟩

/-- The lowest list has all nodes. -/
theorem Structured.listAt_zero (h : Structured table ps) : table.listAt ps 0 = ps :=
  List.filter_eq_self.mpr (fun p hp => decide_eq_true (h.levels p hp).1)

theorem listAt_append (i : ℕ) (xs ys : List Ptr) :
    table.listAt (xs ++ ys) i = table.listAt xs i ++ table.listAt ys i := List.filter_append xs ys

theorem listAt_succ_subset (ps : List Ptr) (i : ℕ) :
    table.listAt ps (i + 1) ⊆ table.listAt ps i := by
  intro p hp
  obtain ⟨hp, hlt⟩ := List.mem_filter.mp hp
  exact List.mem_filter.mpr ⟨hp, decide_eq_true (Nat.lt_of_succ_lt (of_decide_eq_true hlt))⟩

/-- A walk along a list of the table has fuel enough. -/
theorem Structured.length_lt (h : Structured table ps) : ps.length < table.nodes.next := by
  refine Heap.length_lt_next (h.sorted.imp ?_) (fun p hp => ?_)
  · rintro p q ⟨k, k', hk, hk', hlt⟩ rfl
    obtain rfl := Option.some.inj (hk.symm.trans hk')
    rw [strcmp_neg] at hlt
    exact lt_irrefl _ hlt
  · obtain ⟨k, hk⟩ := h.keyed p hp
    obtain ⟨n, hn, -⟩ := Option.bind_eq_some_iff.mp hk
    exact Option.isSome_of_mem hn

/-- **A key splits the nodes** into those with smaller keys and the rest. -/
theorem Structured.exists_split (h : Structured table ps) (key : CString) :
    ∃ xs ys, ps = xs ++ ys ∧ (∀ x ∈ xs, table.Below key x) ∧ ∀ y ∈ ys, table.AtLeast key y := by
  have hdown : ∀ p q, table.KeyLt p q → table.Below key q → table.Below key p := by
    rintro p q ⟨k, k', hk, hk', hlt⟩ ⟨k'', hk'', hbelow⟩
    obtain rfl := Option.some.inj (hk'.symm.trans hk'')
    rw [strcmp_neg] at hlt hbelow
    exact ⟨k, hk, (strcmp_neg _ _).mpr (hlt.trans hbelow)⟩
  obtain ⟨xs, ys, rfl, hxs, hys⟩ := exists_append_of_pairwise hdown h.sorted
  refine ⟨xs, ys, rfl, hxs, fun y hy => ?_⟩
  obtain ⟨k, hk⟩ := h.keyed y (List.mem_append_right xs hy)
  exact ⟨k, hk, not_lt.mp (fun hlt => hys y hy ⟨k, hk, hlt⟩)⟩

/-- **Running along level `i`** ends at the last node with a smaller key. -/
theorem Structured.advance_eq (h : Structured table (xs ++ ys)) (hxs : ∀ x ∈ xs, table.Below key x)
    (hys : ∀ y ∈ ys, table.AtLeast key y) (hi : i < SKIPTABLE_MAX_LEVEL) {cur : Ptr}
    (hcur : cur ∈ table.head :: table.listAt xs i) :
    advance (table.forward i)
        (fun p => (table.keyAt p).map (fun k => decide (strcmp k key < 0))) table.nodes.next cur
      = some ((table.listAt xs i).getLastD table.head) := by
  have hchain := h.chain i hi
  rw [listAt_append] at hchain
  have hlen : (table.listAt xs i).length < table.nodes.next := by
    have hle : (table.listAt xs i).length ≤ xs.length := List.length_filter_le _ _
    have hlt := h.length_lt
    rw [List.length_append] at hlt
    omega
  exact advance_of_split hchain hlen (fun p hp => hxs p (List.mem_filter.mp hp).1)
    (fun p hp => hys p (List.mem_filter.mp hp).1) hcur

/-- **Locating a key**: where each level is left, and what follows on the lowest. -/
theorem Structured.locate (h : Structured table (xs ++ ys)) (hxs : ∀ x ∈ xs, table.Below key x)
    (hys : ∀ y ∈ ys, table.AtLeast key y) :
    ∃ update, skiptableDescend table key table.level table.head
          (Vector.replicate SKIPTABLE_MAX_LEVEL 0) = some (xs.getLastD table.head, update)
      ∧ (∀ i < table.level, update[i]? = some ((table.listAt xs i).getLastD table.head))
      ∧ table.forward 0 (xs.getLastD table.head) = some (ys.headD 0) := by
  have hlow : table.listAt xs 0 = xs :=
    List.filter_eq_self.mpr (fun p hp => decide_eq_true (h.levels p (List.mem_append_left ys hp)).1)
  have htop : table.listAt xs table.level = [] := by
    refine List.filter_eq_nil_iff.mpr (fun p hp => ?_)
    simpa using (h.levels p (List.mem_append_left ys hp)).2
  obtain ⟨update, hdescend, hupdate, -⟩ := descend_of_fronts (table.listAt xs) h.level_range.2
    (listAt_succ_subset xs)
    (fun i hi cur hcur => h.advance_eq hxs hys (hi.trans_le h.level_range.2) hcur) table.level
    (Vector.replicate SKIPTABLE_MAX_LEVEL 0) le_rfl
  rw [htop, hlow] at hdescend
  have hchain := h.chain 0 (by decide)
  rw [h.listAt_zero] at hchain
  exact ⟨update, hdescend, hupdate, hchain.next_getLastD⟩

/-- The first node that is not smaller is the least of them. -/
theorem Structured.least (h : Structured table (xs ++ ys)) (hxs : ∀ x ∈ xs, table.Below key x)
    (hys : ∀ y ∈ ys, table.AtLeast key y) :
    table.LeastAtLeast key (xs ++ ys) (ys.headD 0) := by
  cases ys with
  | nil => exact Or.inl ⟨rfl, by simpa using hxs⟩
  | cons y ys =>
    refine Or.inr ⟨by simp, hys y List.mem_cons_self, fun p hp hatLeast => ?_⟩
    have hsorted := List.pairwise_cons.mp (List.pairwise_append.mp h.sorted).2.1
    rcases List.mem_append.mp hp with hp | hp
    · obtain ⟨k, hk, hlt⟩ := hxs p hp
      obtain ⟨k', hk', hle⟩ := hatLeast
      obtain rfl := Option.some.inj (hk.symm.trans hk')
      exact absurd hlt (not_lt.mpr hle)
    · rcases List.mem_cons.mp hp with rfl | hp
      · exact Or.inl rfl
      · exact Or.inr (hsorted.1 p hp)

/-- A node is passed by the test for a key if that is its key. -/
theorem test_of_keyAt {k : CString} (hk : table.keyAt p = some k) (key : CString) :
    (table.keyAt p).map (fun k => decide (strcmp k key = 0))
      = some (decide (strcmp k key = 0)) := by
  rw [hk]
  rfl

/-- A smaller key is another key. -/
theorem Below.test_eq (h : table.Below key p) :
    (table.keyAt p).map (fun k => decide (strcmp k key = 0)) = some false := by
  obtain ⟨k, hk, hlt⟩ := h
  rw [test_of_keyAt hk, decide_eq_false hlt.ne]

/-- A scan stops at the first node that is not smaller, if that node has the key. -/
theorem Structured.scan_hit (h : Structured table (xs ++ p :: ys))
    (hxs : ∀ x ∈ xs, table.Below key x) (hp : table.keyAt p = some key) :
    skiptableScan table key = some p := by
  have hchain := h.chain 0 (by decide)
  rw [h.listAt_zero] at hchain
  have hlen : xs.length < table.nodes.next := by
    have hlt := h.length_lt
    rw [List.length_append] at hlt
    omega
  rw [skiptableScan, hchain.next_eq]
  refine seek_eq hchain.linked hlen (fun x hx => (hxs x hx).test_eq) (fun y hy => ?_)
  obtain rfl : p = y := by simpa using hy
  rw [test_of_keyAt hp, decide_eq_true ((strcmp_eq_zero _ _).mpr rfl)]

/-- A scan passes all nodes if none of them has the key. -/
theorem Structured.scan_miss (h : Structured table ps)
    (hps : ∀ p ∈ ps, ∃ k, table.keyAt p = some k ∧ strcmp k key ≠ 0) :
    skiptableScan table key = some 0 := by
  have hchain := h.chain 0 (by decide)
  rw [h.listAt_zero, ← List.append_nil ps] at hchain
  rw [skiptableScan, hchain.next_eq]
  refine seek_eq hchain.linked h.length_lt (fun p hp => ?_) (fun y hy => nomatch hy)
  obtain ⟨k, hk, hne⟩ := hps p hp
  rw [test_of_keyAt hk, decide_eq_false hne]

/-- **A search finds what a scan finds.** -/
theorem Structured.search_eq_scan (h : Structured table (xs ++ ys))
    (hxs : ∀ x ∈ xs, table.Below key x) (hys : ∀ y ∈ ys, table.AtLeast key y) :
    ∃ q, skiptableSearchNode table (some key) = some q ∧ skiptableScan table key = some q := by
  obtain ⟨update, hdescend, -, hnext⟩ := h.locate hxs hys
  have hbelow : ∀ x ∈ xs, ∃ k, table.keyAt x = some k ∧ strcmp k key ≠ 0 := fun x hx =>
    (hxs x hx).imp (fun k hk => ⟨hk.1, hk.2.ne⟩)
  cases ys with
  | nil =>
    have hmatch : skiptableMatches table 0 key = some false := rfl
    exact ⟨0, search_of_descend hdescend hnext hmatch, h.scan_miss (by simpa using hbelow)⟩
  | cons y ys =>
    obtain ⟨k, hk, hle⟩ := hys y List.mem_cons_self
    have hy0 : y ≠ 0 := (h.chain 0 (by decide)).ne_null (by rw [h.listAt_zero]; simp)
    have hmatch : skiptableMatches table y key = some (decide (strcmp k key = 0)) := by
      rw [skiptableMatches, if_neg hy0, test_of_keyAt hk]
    have hsearch := search_of_descend hdescend hnext hmatch
    by_cases heq : strcmp k key = 0
    · -- the node the lowest level is left at has the key next
      obtain rfl := (strcmp_eq_zero _ _).mp heq
      exact ⟨y, hsearch.trans (by rw [heq]; rfl), h.scan_hit hxs hk⟩
    · -- the next key is larger, and so are all that follow
      refine ⟨0, hsearch.trans (by rw [decide_eq_false heq]; rfl), h.scan_miss (fun p hp => ?_)⟩
      have hsorted := List.pairwise_cons.mp (List.pairwise_append.mp h.sorted).2.1
      rcases List.mem_append.mp hp with hp | hp
      · exact hbelow p hp
      · rcases List.mem_cons.mp hp with rfl | hp
        · exact ⟨k, hk, heq⟩
        · obtain ⟨k₁, k₂, hk₁, hk₂, hlt⟩ := hsorted.1 p hp
          obtain rfl := Option.some.inj (hk.symm.trans hk₁)
          refine ⟨k₂, hk₂, fun heq₂ => ?_⟩
          obtain rfl := (strcmp_eq_zero _ _).mp heq₂
          omega

/-- **The descent finds the predecessors.** In every skip list of that structure and for
every key, each level in use is left at the last node on it with a smaller key, or the
head; what follows on the lowest level is the node with the least key that is not smaller;
and a search finds the node that a scan of the lowest list finds. -/
theorem descend_predecessors (h : Structured table ps) (key : CString) :
    (∃ prev update, skiptableDescend table key table.level table.head
          (Vector.replicate SKIPTABLE_MAX_LEVEL 0) = some (prev, update)
        ∧ (∀ i < table.level, ∃ p, update[i]? = some p ∧ table.LastBelow key (table.listAt ps i) p)
        ∧ ∃ p q, update[0]? = some p ∧ table.forward 0 p = some q ∧ table.LeastAtLeast key ps q)
      ∧ ∃ q, skiptableSearchNode table (some key) = some q ∧ skiptableScan table key = some q := by
  obtain ⟨xs, ys, rfl, hxs, hys⟩ := h.exists_split key
  obtain ⟨update, hdescend, hupdate, hnext⟩ := h.locate hxs hys
  have hlow : table.listAt xs 0 = xs :=
    List.filter_eq_self.mpr (fun p hp => decide_eq_true (h.levels p (List.mem_append_left ys hp)).1)
  refine ⟨⟨_, update, hdescend, fun i hi => ⟨_, hupdate i hi, _, _, listAt_append i xs ys, rfl,
    fun x hx => hxs x (List.mem_filter.mp hx).1, fun y hy => hys y (List.mem_filter.mp hy).1⟩, _, _,
    hupdate 0 h.level_range.1, ?_, h.least hxs hys⟩, h.search_eq_scan hxs hys⟩
  rw [hlow]
  exact hnext

end

/-- A skip list of three levels with the keys `A`, `B` and `C`: the lowest list has all of
them, the second `A` and `C`, and the third `C`. -/
def sample : KvsSkiptable where
  head := 1
  level := 3
  count := 3
  nodes :=
    let forward (p q r : Ptr) : Vector Ptr SKIPTABLE_MAX_LEVEL :=
      (((Vector.replicate SKIPTABLE_MAX_LEVEL 0).setIfInBounds 0 p).setIfInBounds 1
        q).setIfInBounds 2 r
    (((Heap.empty.alloc ⟨0, 0, SKIPTABLE_MAX_LEVEL, forward 2 2 4⟩).alloc
      ⟨1, 4, 2, forward 3 4 0⟩).alloc ⟨2, 4, 1, forward 4 0 0⟩).alloc ⟨3, 4, 3, forward 0 0 0⟩
  strs := (((Heap.empty.alloc ⟨[65], by decide⟩).alloc ⟨[66], by decide⟩).alloc
    ⟨[67], by decide⟩).alloc ⟨[86], by decide⟩

theorem sample_structured : Structured sample [2, 3, 4] where
  chain := by
    intro i hi
    have hlt : i < 16 := hi
    rcases lt_or_ge i 3 with hlow | hhigh
    · interval_cases i
      · exact ⟨rfl, by decide, rfl, by decide, rfl, by decide, rfl⟩
      · exact ⟨rfl, by decide, rfl, by decide, rfl⟩
      · exact ⟨rfl, by decide, rfl⟩
    · -- no node is as high, and the head has nothing there
      have hempty : sample.listAt [2, 3, 4] i = [] := by
        refine List.filter_eq_nil_iff.mpr (fun p hp hlevel => ?_)
        have hle : ∀ p ∈ [2, 3, 4], sample.levelAt p ≤ 3 := by decide
        exact absurd ((of_decide_eq_true hlevel).trans_le (hle p hp)) hhigh.not_gt
      rw [hempty]
      show sample.forward i 1 = some 0
      interval_cases i <;> rfl
  keyed := by
    intro p hp
    fin_cases hp <;> exact ⟨_, rfl⟩
  sorted := by
    refine List.pairwise_cons.mpr ⟨?_, List.pairwise_pair.mpr ⟨_, _, rfl, rfl, by decide⟩⟩
    intro p hp
    fin_cases hp <;> exact ⟨_, _, rfl, rfl, by decide⟩
  levels := by decide
  level_range := by decide

/-- Looking for `C`: the levels are left at `B`, at `A` and at the head. -/
theorem descend_predecessors_sample :
    (∃ prev update, skiptableDescend sample ⟨[67], by decide⟩ sample.level sample.head
          (Vector.replicate SKIPTABLE_MAX_LEVEL 0) = some (prev, update)
        ∧ (∀ i < sample.level, ∃ p, update[i]? = some p
            ∧ sample.LastBelow ⟨[67], by decide⟩ (sample.listAt [2, 3, 4] i) p)
        ∧ ∃ p q, update[0]? = some p ∧ sample.forward 0 p = some q
            ∧ sample.LeastAtLeast ⟨[67], by decide⟩ [2, 3, 4] q)
      ∧ ∃ q, skiptableSearchNode sample (some ⟨[67], by decide⟩) = some q
        ∧ skiptableScan sample ⟨[67], by decide⟩ = some q :=
  descend_predecessors sample_structured ⟨[67], by decide⟩

end KvsSkiptable
