import LinuxLearn.KvsSkiptable

/-!
# The skip list is sixteen chains of one sorted list

The invariant of the skip list is stated with the list its level `0` is a
chain of: the nodes in key order, each with its address, its level and its
entry (`SkipEntry`). Level `i` is the chain of those whose level exceeds
`i`, and the table's level is the largest of them.

A key splits that list into a front part of smaller keys and the rest, and
the split carries every proof below: the descent leaves level `i` at the
last node of the front part that is on it (`descend_eq`), `set` puts the
new node between the parts and `del` removes the first node of the rest,
on each level at that very node.
-/

/-- **A node of the skip list**: its address, its level and its entry. -/
structure SkipEntry where
  addr : Ptr
  level : ℕ
  item : Item

namespace KvsSkiptable

/-- The addresses of the nodes on the list at level `i`. -/
def tower (i : ℕ) (L : List SkipEntry) : List Ptr :=
  (L.filter (fun n => i < n.level)).map SkipEntry.addr

/-- The largest level of a node, and `1` if there is none. -/
def topLevel (L : List SkipEntry) : ℕ := (L.map SkipEntry.level).foldr max 1

section Tower

variable {i : ℕ} {L L' : List SkipEntry} {n : SkipEntry}

theorem tower_append (i : ℕ) (L L' : List SkipEntry) :
    tower i (L ++ L') = tower i L ++ tower i L' := by
  unfold tower
  rw [List.filter_append, List.map_append]

theorem tower_cons_of_lt (h : i < n.level) (L : List SkipEntry) :
    tower i (n :: L) = n.addr :: tower i L := by
  unfold tower
  rw [List.filter_cons_of_pos (by simpa using h), List.map_cons]

theorem tower_cons_of_le (h : n.level ≤ i) (L : List SkipEntry) :
    tower i (n :: L) = tower i L := by
  unfold tower
  rw [List.filter_cons_of_neg (by simpa using h)]

theorem mem_tower {p : Ptr} : p ∈ tower i L ↔ ∃ n ∈ L, i < n.level ∧ n.addr = p := by
  simp [tower, and_assoc]

/-- Every node is on the lowest list. -/
theorem tower_zero (h : ∀ n ∈ L, 1 ≤ n.level) : tower 0 L = L.map SkipEntry.addr := by
  unfold tower
  rw [List.filter_eq_self.mpr (fun n hn => decide_eq_true (Nat.lt_of_succ_le (h n hn)))]

theorem tower_eq_nil_iff : tower i L = [] ↔ ∀ n ∈ L, n.level ≤ i := by
  simp [tower]

/-- A higher list has fewer nodes. -/
theorem tower_succ_subset (i : ℕ) (L : List SkipEntry) : tower (i + 1) L ⊆ tower i L := by
  intro p hp
  obtain ⟨n, hn, hlt, rfl⟩ := mem_tower.mp hp
  exact mem_tower.mpr ⟨n, hn, by omega, rfl⟩

theorem tower_sublist (i : ℕ) (L : List SkipEntry) :
    (tower i L).Sublist (L.map SkipEntry.addr) :=
  List.filter_sublist.map _

theorem topLevel_cons (n : SkipEntry) (L : List SkipEntry) :
    topLevel (n :: L) = max n.level (topLevel L) := rfl

theorem one_le_topLevel (L : List SkipEntry) : 1 ≤ topLevel L := by
  induction L with
  | nil => exact le_rfl
  | cons n L ih => exact le_max_of_le_right ih

theorem topLevel_append (L L' : List SkipEntry) :
    topLevel (L ++ L') = max (topLevel L) (topLevel L') := by
  induction L with
  | nil => exact (max_eq_right (one_le_topLevel L')).symm
  | cons n L ih => rw [List.cons_append, topLevel_cons, topLevel_cons, ih, max_assoc]

theorem level_le_topLevel (h : n ∈ L) : n.level ≤ topLevel L := by
  induction L with
  | nil => cases h
  | cons m L ih =>
    rcases List.mem_cons.mp h with rfl | h
    · exact le_max_left _ _
    · exact le_max_of_le_right (ih h)

/-- The largest level is a node's, unless it is `1`. -/
theorem topLevel_mem (h : topLevel L ≠ 1) : ∃ n ∈ L, n.level = topLevel L := by
  induction L with
  | nil => exact absurd rfl h
  | cons m L ih =>
    rw [topLevel_cons] at h ⊢
    rcases le_total m.level (topLevel L) with hle | hle
    · rw [max_eq_right hle] at h ⊢
      obtain ⟨n, hn, heq⟩ := ih h
      exact ⟨n, List.mem_cons_of_mem m hn, heq⟩
    · exact ⟨m, List.mem_cons_self, (max_eq_left hle).symm⟩

theorem topLevel_le (hL : ∀ n ∈ L, n.level ≤ SKIPTABLE_MAX_LEVEL) :
    topLevel L ≤ SKIPTABLE_MAX_LEVEL := by
  by_cases h : topLevel L = 1
  · rw [h]
    decide
  · obtain ⟨n, hn, heq⟩ := topLevel_mem h
    rw [← heq]
    exact hL n hn

/-- No node is on the lists from the largest level up. -/
theorem tower_eq_nil (h : topLevel L ≤ i) : tower i L = [] :=
  tower_eq_nil_iff.mpr (fun _ hn => (level_le_topLevel hn).trans h)

end Tower

/-! ## Reading and writing links -/

section Links

variable {table : KvsSkiptable} {i j : ℕ} {p q r : Ptr} {n : SkipNode}

/-- The table with one link changed, where there is one. -/
def putForward (table : KvsSkiptable) (i : ℕ) (p q : Ptr) : KvsSkiptable :=
  { table with
    nodes := table.nodes.update p
      (fun node => { node with forward := node.forward.setIfInBounds i q }) }

theorem setForward_eq (hi : i < SKIPTABLE_MAX_LEVEL) (hp : table.nodes.load p = some n) :
    table.setForward i p q = some (table.putForward i p q) := by
  unfold setForward
  simp [hi, Heap.modify_of_load _ hp, putForward]

theorem forward_putForward (hi : i < SKIPTABLE_MAX_LEVEL) (hp : table.nodes.load p = some n) :
    (table.putForward i p q).forward j r
      = if j = i ∧ r = p then some q else table.forward j r := by
  unfold forward putForward
  by_cases hr : r = p
  · subst hr
    by_cases hj : j = i
    · subst hj
      simp [hp, hi]
    · simp [hp, hj, Ne.symm hj]
  · simp [hr]

theorem forward_congr {table' : KvsSkiptable}
    (h : table'.nodes.load p = table.nodes.load p) (i : ℕ) :
    table'.forward i p = table.forward i p := by
  unfold forward
  rw [h]

theorem forward_isSome (hi : i < SKIPTABLE_MAX_LEVEL) (hp : table.nodes.load p = some n) :
    table.forward i p = some n.forward[i] := by
  unfold forward
  simp [hp, hi]

end Links

/-- Everything but the nodes. -/
def frame (table : KvsSkiptable) : Ptr × ℕ × ℤ × Heap CString :=
  (table.head, table.level, table.count, table.strs)

theorem frame_eq_iff {table table' : KvsSkiptable} :
    table'.frame = table.frame ↔ table'.head = table.head ∧ table'.level = table.level
      ∧ table'.count = table.count ∧ table'.strs = table.strs := by
  simp [frame]

/-- **The nodes are where the entries say**, apart from their links. -/
structure Cells (table : KvsSkiptable) (L : List SkipEntry) : Prop where
  head_live : ∃ n, table.nodes.load table.head = some n
  cell : ∀ n ∈ L, ∃ f, table.nodes.load n.addr = some ⟨n.item.key, n.item.value, n.level, f⟩
  nodup : (table.head :: L.map SkipEntry.addr).Nodup
  owns : Owns table.strs (L.map SkipEntry.item)

/-- **The invariant of the skip list**, for the list of its nodes. -/
structure Inv (table : KvsSkiptable) (L : List SkipEntry) : Prop extends Cells table L where
  levels : ∀ n ∈ L, 1 ≤ n.level ∧ n.level ≤ SKIPTABLE_MAX_LEVEL
  sorted : L.Pairwise (fun m n => m.item.k < n.item.k)
  chain : ∀ i < SKIPTABLE_MAX_LEVEL, Chain (table.forward i) table.head (tower i L)
  level_eq : table.level = topLevel L
  count_eq : table.count = L.length

namespace Cells

variable {table : KvsSkiptable} {L : List SkipEntry} {n : SkipEntry}

theorem keyAt (h : Cells table L) (hn : n ∈ L) : table.keyAt n.addr = some n.item.k := by
  obtain ⟨f, hf⟩ := h.cell n hn
  unfold KvsSkiptable.keyAt
  simp [hf, h.owns.key_load n.item (List.mem_map_of_mem hn)]

theorem live (h : Cells table L) {p : Ptr} (hp : p ∈ table.head :: L.map SkipEntry.addr) :
    ∃ n, table.nodes.load p = some n := by
  rcases List.mem_cons.mp hp with rfl | hp
  · exact h.head_live
  · obtain ⟨n, hn, rfl⟩ := List.mem_map.mp hp
    obtain ⟨f, hf⟩ := h.cell n hn
    exact ⟨_, hf⟩

/-- Changing links keeps the nodes where they are. -/
theorem putForward (h : Cells table L) (i : ℕ) (p q : Ptr) :
    Cells (table.putForward i p q) L where
  head_live := by
    obtain ⟨n, hn⟩ := h.head_live
    by_cases hp : table.head = p
    · exact ⟨{ n with forward := n.forward.setIfInBounds i q },
        by simp [KvsSkiptable.putForward, ← hp, hn]⟩
    · exact ⟨n, by simp [KvsSkiptable.putForward, hp, hn]⟩
  cell := fun n hn => by
    obtain ⟨f, hf⟩ := h.cell n hn
    by_cases hp : n.addr = p
    · exact ⟨f.setIfInBounds i q, by simp [KvsSkiptable.putForward, ← hp, hf]⟩
    · exact ⟨f, by simp [KvsSkiptable.putForward, hp, hf]⟩
  nodup := h.nodup
  owns := h.owns

theorem nodup_tower (h : Cells table L) (i : ℕ) : (table.head :: tower i L).Nodup :=
  h.nodup.sublist ((tower_sublist i L).cons_cons _)

/-- The walk along a list of the table has fuel enough. -/
theorem length_tower_lt (h : Cells table L) (i : ℕ) : (tower i L).length < table.nodes.next := by
  have hlen := Heap.length_lt_next h.nodup
    (fun p hp => Option.isSome_iff_exists.mpr (h.live hp))
  have hle := (tower_sublist i L).length_le
  rw [List.length_cons] at hlen
  omega

end Cells

/-! ## The descent -/

/-- The key of a node is smaller than a key. -/
def Below (table : KvsSkiptable) (key : CString) (p : Ptr) : Prop :=
  ∃ k, table.keyAt p = some k ∧ strcmp k key < 0

/-- The key of a node is not smaller than a key. -/
def AtLeast (table : KvsSkiptable) (key : CString) (p : Ptr) : Prop :=
  ∃ k, table.keyAt p = some k ∧ 0 ≤ strcmp k key

section Descent

variable {table : KvsSkiptable} {L₁ L₂ : List SkipEntry} {key : CString}

/-- A list in an order splits where a property ends that goes down in it. -/
theorem exists_append_of_pairwise {α : Type} {R : α → α → Prop} {P : α → Prop}
    (hP : ∀ m n, R m n → P n → P m) {L : List α} (hL : L.Pairwise R) :
    ∃ L₁ L₂, L = L₁ ++ L₂ ∧ (∀ n ∈ L₁, P n) ∧ ∀ n ∈ L₂, ¬ P n := by
  induction L with
  | nil => exact ⟨[], [], rfl, by simp, by simp⟩
  | cons m L ih =>
    obtain ⟨hm, hL⟩ := List.pairwise_cons.mp hL
    by_cases hk : P m
    · obtain ⟨L₁, L₂, rfl, h₁, h₂⟩ := ih hL
      exact ⟨m :: L₁, L₂, rfl, List.forall_mem_cons.mpr ⟨hk, h₁⟩, h₂⟩
    · refine ⟨[], m :: L, rfl, by simp, List.forall_mem_cons.mpr ⟨hk, fun n hn hPn => ?_⟩⟩
      exact hk (hP m n (hm n hn) hPn)

/-- A key splits the nodes into those with smaller keys and the rest. -/
theorem exists_split (key : CString) {L : List SkipEntry}
    (hL : L.Pairwise (fun m n => m.item.k < n.item.k)) :
    ∃ L₁ L₂, L = L₁ ++ L₂ ∧ (∀ n ∈ L₁, n.item.k < key) ∧ ∀ n ∈ L₂, key ≤ n.item.k := by
  obtain ⟨L₁, L₂, rfl, h₁, h₂⟩ :=
    exists_append_of_pairwise (P := fun n => n.item.k < key) (fun m n hmn hn => hmn.trans hn) hL
  exact ⟨L₁, L₂, rfl, h₁, fun n hn => not_lt.mp (h₂ n hn)⟩

/-- **The descent**, where each level is left at the end of a front part of its list, and
the front parts grow from a level to the one below it. -/
theorem descend_of_fronts (xs : ℕ → List Ptr) {m : ℕ} (hm : m ≤ SKIPTABLE_MAX_LEVEL)
    (hsub : ∀ i, xs (i + 1) ⊆ xs i)
    (hadvance : ∀ i < m, ∀ cur ∈ table.head :: xs i, advance (table.forward i)
      (fun p => (table.keyAt p).map (fun k => decide (strcmp k key < 0))) table.nodes.next cur
        = some ((xs i).getLastD table.head)) :
    ∀ (i : ℕ) (update : Vector Ptr SKIPTABLE_MAX_LEVEL), i ≤ m →
      ∃ update', skiptableDescend table key i ((xs i).getLastD table.head) update
          = some ((xs 0).getLastD table.head, update')
        ∧ (∀ j < i, update'[j]? = some ((xs j).getLastD table.head))
        ∧ ∀ j, i ≤ j → update'[j]? = update[j]? := by
  intro i
  induction i with
  | zero => exact fun update _ => ⟨update, rfl, fun j hj => absurd hj (Nat.not_lt_zero j), by simp⟩
  | succ i ih =>
    intro update hi
    have hcur : (xs (i + 1)).getLastD table.head ∈ table.head :: xs i := by
      rcases List.mem_cons.mp (Chain.getLastD_mem_cons table.head (xs (i + 1))) with he | hm
      · rw [he]
        exact List.mem_cons_self
      · exact List.mem_cons_of_mem _ (hsub i hm)
    obtain ⟨update', hd, hlt, hge⟩ :=
      ih (update.setIfInBounds i ((xs i).getLastD table.head)) (by omega)
    refine ⟨update', ?_, fun j hj => ?_, fun j hj => ?_⟩
    · simp only [skiptableDescend, hadvance i hi _ hcur, Option.bind_eq_bind, Option.bind_some, hd]
    · rcases Nat.lt_succ_iff_lt_or_eq.mp hj with hj | rfl
      · exact hlt j hj
      · rw [hge j le_rfl, Vector.getElem?_setIfInBounds, if_pos rfl, if_pos (by omega)]
    · rw [hge j (by omega), Vector.getElem?_setIfInBounds, if_neg (by omega)]

/-- **Running along a list** ends at the last of the nodes in front, if these have smaller
keys and the others do not. -/
theorem advance_of_split {xs ys : List Ptr} {i : ℕ} {cur : Ptr}
    (hchain : Chain (table.forward i) table.head (xs ++ ys)) (hlen : xs.length < table.nodes.next)
    (hxs : ∀ x ∈ xs, table.Below key x) (hys : ∀ y ∈ ys, table.AtLeast key y)
    (hcur : cur ∈ table.head :: xs) :
    advance (table.forward i)
        (fun p => (table.keyAt p).map (fun k => decide (strcmp k key < 0))) table.nodes.next cur
      = some (xs.getLastD table.head) := by
  refine advance_eq_of_mem hchain hcur hlen (fun p hp => ?_) (fun p hp => ?_)
  · obtain ⟨k, hk, hlt⟩ := hxs p hp
    rw [hk]
    exact congrArg some (decide_eq_true hlt)
  · obtain ⟨k, hk, hle⟩ := hys p (List.mem_of_mem_head? hp)
    rw [hk]
    exact congrArg some (decide_eq_false (not_lt.mpr hle))

/-- **Running along level `i`** ends at the last node of the front part that
is on it. -/
theorem advance_tower (h : Inv table (L₁ ++ L₂)) (h₁ : ∀ n ∈ L₁, n.item.k < key)
    (h₂ : ∀ n ∈ L₂, key ≤ n.item.k) {i : ℕ} (hi : i < SKIPTABLE_MAX_LEVEL) {cur : Ptr}
    (hcur : cur ∈ table.head :: tower i L₁) :
    advance (table.forward i)
        (fun p => (table.keyAt p).map (fun k => decide (strcmp k key < 0))) table.nodes.next cur
      = some ((tower i L₁).getLastD table.head) := by
  have hchain := h.chain i hi
  rw [tower_append] at hchain
  have hlen := h.length_tower_lt i
  rw [tower_append, List.length_append] at hlen
  refine advance_of_split hchain (by omega) (fun p hp => ?_) (fun p hp => ?_) hcur
  · obtain ⟨n, hn, -, rfl⟩ := mem_tower.mp hp
    exact ⟨_, h.keyAt (List.mem_append_left L₂ hn), (strcmp_neg _ _).mpr (h₁ n hn)⟩
  · obtain ⟨n, hn, -, rfl⟩ := mem_tower.mp hp
    refine ⟨_, h.keyAt (List.mem_append_right L₁ hn), not_lt.mp (fun hlt => ?_)⟩
    exact not_lt.mpr (h₂ n hn) ((strcmp_neg _ _).mp hlt)

/-- **The descent leaves each level at the last smaller node on it.** -/
theorem descend_eq (h : Inv table (L₁ ++ L₂)) (h₁ : ∀ n ∈ L₁, n.item.k < key)
    (h₂ : ∀ n ∈ L₂, key ≤ n.item.k) :
    ∀ (i : ℕ) (update : Vector Ptr SKIPTABLE_MAX_LEVEL), i ≤ SKIPTABLE_MAX_LEVEL →
      ∃ update', skiptableDescend table key i ((tower i L₁).getLastD table.head) update
          = some ((tower 0 L₁).getLastD table.head, update')
        ∧ ∀ j < i, update'[j]? = some ((tower j L₁).getLastD table.head) := by
  intro i update hi
  obtain ⟨update', hd, hlt, -⟩ := descend_of_fronts (fun j => tower j L₁) le_rfl
    (fun j => tower_succ_subset j L₁) (fun j hj cur hcur => advance_tower h h₁ h₂ hj hcur)
    i update hi
  exact ⟨update', hd, hlt⟩

/-- **Locating a key**: the descent from the head ends before the first node
that is not smaller, and the predecessors on the levels in use are known. -/
theorem locate (h : Inv table (L₁ ++ L₂)) (h₁ : ∀ n ∈ L₁, n.item.k < key)
    (h₂ : ∀ n ∈ L₂, key ≤ n.item.k) :
    ∃ prev update, skiptableDescend table key table.level table.head
          (Vector.replicate SKIPTABLE_MAX_LEVEL 0) = some (prev, update)
      ∧ table.forward 0 prev = some ((L₂.map SkipEntry.addr).headD 0)
      ∧ ∀ j < table.level, update[j]? = some ((tower j L₁).getLastD table.head) := by
  have hle : table.level ≤ SKIPTABLE_MAX_LEVEL := by
    rw [h.level_eq]
    exact topLevel_le (fun n hn => (h.levels n hn).2)
  have htop : tower table.level L₁ = [] := by
    refine tower_eq_nil ?_
    rw [h.level_eq, topLevel_append]
    exact le_max_left _ _
  obtain ⟨update, hd, hup⟩ :=
    descend_eq h h₁ h₂ table.level (Vector.replicate SKIPTABLE_MAX_LEVEL 0) hle
  rw [htop] at hd
  refine ⟨_, update, hd, ?_, hup⟩
  have hchain := h.chain 0 (by decide)
  rw [tower_append] at hchain
  rw [hchain.next_getLastD,
    tower_zero (fun n hn => (h.levels n (List.mem_append_right L₁ hn)).1)]

/-- Around a node, the nodes before have smaller keys and the others do not. -/
theorem Inv.split_at {n : SkipEntry} (h : Inv table (L₁ ++ n :: L₂)) :
    (∀ m ∈ L₁, m.item.k < n.item.k) ∧ ∀ m ∈ n :: L₂, n.item.k ≤ m.item.k := by
  obtain ⟨-, hn, hlt⟩ := List.pairwise_append.mp h.sorted
  refine ⟨fun m hm => hlt m hm n List.mem_cons_self, fun m hm => ?_⟩
  rcases List.mem_cons.mp hm with rfl | hm
  · exact le_rfl
  · exact ((List.pairwise_cons.mp hn).1 m hm).le

theorem addr_ne_null {L : List SkipEntry} (h : Cells table L) {n : SkipEntry} (hn : n ∈ L) :
    n.addr ≠ 0 := by
  obtain ⟨f, hf⟩ := h.cell n hn
  exact Heap.ne_null_of_load hf

/-- The node after the front part matches a key it carries. -/
theorem matches_hit {L : List SkipEntry} (h : Cells table L) {n : SkipEntry} (hn : n ∈ L) :
    skiptableMatches table n.addr n.item.k = some true := by
  unfold skiptableMatches
  rw [if_neg (addr_ne_null h hn), h.keyAt hn]
  simp [strcmp_eq_zero]

/-- The node after the front part does not match a key nobody carries. -/
theorem matches_miss (h : Cells table (L₁ ++ L₂))
    (hk : key ∉ keysOf ((L₁ ++ L₂).map SkipEntry.item)) :
    skiptableMatches table ((L₂.map SkipEntry.addr).headD 0) key = some false := by
  unfold skiptableMatches
  cases L₂ with
  | nil => rfl
  | cons n L₂ =>
    have hn : n ∈ L₁ ++ n :: L₂ := by simp
    have hne : n.item.k ≠ key := fun he =>
      hk (he ▸ List.mem_map_of_mem (List.mem_map_of_mem hn))
    rw [List.map_cons, List.headD_cons, if_neg (addr_ne_null h hn), h.keyAt hn]
    simp [strcmp_eq_zero, hne]

/-- A search looks at the node that follows on the lowest level. -/
theorem search_of_descend {p q : Ptr} {update : Vector Ptr SKIPTABLE_MAX_LEVEL} {b : Bool}
    (hdescend : skiptableDescend table key table.level table.head
      (Vector.replicate SKIPTABLE_MAX_LEVEL 0) = some (p, update))
    (hnext : table.forward 0 p = some q) (hmatch : skiptableMatches table q key = some b) :
    skiptableSearchNode table (some key) = some (if b then q else 0) := by
  simp only [skiptableSearchNode, hdescend, hnext, hmatch, Option.bind_eq_bind, Option.bind_some]
  cases b <;> rfl

/-- `skiptable_search_node` finds the node of a stored key. -/
theorem search_hit {n : SkipEntry} (h : Inv table (L₁ ++ n :: L₂)) :
    skiptableSearchNode table (some n.item.k) = some n.addr := by
  obtain ⟨prev, update, hd, hnext, -⟩ := locate h h.split_at.1 h.split_at.2
  exact search_of_descend hd hnext (matches_hit h.toCells (n := n) (by simp))

/-- `skiptable_search_node` finds nothing for a missing key. -/
theorem search_miss {L : List SkipEntry} (h : Inv table L)
    (hk : key ∉ keysOf (L.map SkipEntry.item)) :
    skiptableSearchNode table (some key) = some 0 := by
  obtain ⟨L₁, L₂, rfl, h₁, h₂⟩ := exists_split key h.sorted
  obtain ⟨prev, update, hd, hnext, -⟩ := locate h h₁ h₂
  exact search_of_descend hd hnext (matches_miss h.toCells hk)

end Descent

/-! ## Inserting -/

section Insert

variable {table : KvsSkiptable} {L L₁ L₂ : List SkipEntry} {e : SkipEntry} {key value : CString}

/-- **A new node**, with every allocation succeeding: one more cell with
copies of the key and the value, and nothing else changed. -/
theorem createNode_eq (table : KvsSkiptable) (key value : CString) (level : ℕ)
    (rand : ℕ → Bool) :
    ∃ table', skiptableCreateNode table (some key) (some value) level (Env.healthy rand)
          = some (table.nodes.next, table')
      ∧ table'.head = table.head ∧ table'.level = table.level ∧ table'.count = table.count
      ∧ table'.strs = (table.strs.alloc key).alloc value
      ∧ table'.nodes.load table.nodes.next = some ⟨table.strs.next, (table.strs.alloc key).next,
          level, Vector.replicate SKIPTABLE_MAX_LEVEL 0⟩
      ∧ ∀ p ≠ table.nodes.next, table'.nodes.load p = table.nodes.load p := by
  let z : SkipNode := ⟨0, 0, level, Vector.replicate SKIPTABLE_MAX_LEVEL 0⟩
  let nodes₁ := table.nodes.alloc z
  let nodes₂ := nodes₁.update table.nodes.next (fun n => { n with key := table.strs.next })
  let nodes₃ := nodes₂.update table.nodes.next
    (fun n => { n with value := (table.strs.alloc key).next })
  have hload₁ : nodes₁.load table.nodes.next = some z := by simp [nodes₁]
  have hload₂ : nodes₂.load table.nodes.next = some { z with key := table.strs.next } := by
    simp [nodes₂, hload₁]
  have hmod₁ : nodes₁.modify table.nodes.next (fun n => { n with key := table.strs.next })
      = some nodes₂ := Heap.modify_of_load _ hload₁
  have hmod₂ : nodes₂.modify table.nodes.next
      (fun n => { n with value := (table.strs.alloc key).next }) = some nodes₃ :=
    Heap.modify_of_load _ hload₂
  refine ⟨{ table with nodes := nodes₃, strs := (table.strs.alloc key).alloc value }, ?_,
    rfl, rfl, rfl, rfl, ?_, fun p hp => ?_⟩
  · unfold skiptableCreateNode
    simp only [Env.malloc_healthy, Heap.malloc_true, Heap.next_ne_null, if_false, copyArg,
      Option.isSome_some, and_false]
    rw [show (table.nodes.alloc z) = nodes₁ from rfl, hmod₁]
    simp only [Option.bind_eq_bind, Option.bind_some, hmod₂]
    rfl
  · simp [nodes₃, hload₂, z]
  · simp [nodes₃, nodes₂, nodes₁, hp]

/-- **Linking one level.** With the predecessor's link turned to the node and
the node's link to what followed, the node is on the level's chain, and the
other levels are untouched. -/
theorem link_step (hc : Cells table (L₁ ++ e :: L₂)) {i : ℕ} (hi : i < SKIPTABLE_MAX_LEVEL)
    (hie : i < e.level) (hchain : Chain (table.forward i) table.head (tower i (L₁ ++ L₂))) :
    ∃ table', table'.frame = table.frame ∧ Cells table' (L₁ ++ e :: L₂)
      ∧ (do
          let next ← table.forward i ((tower i L₁).getLastD table.head)
          let table₁ ← table.setForward i e.addr next
          table₁.setForward i ((tower i L₁).getLastD table.head) e.addr) = some table'
      ∧ Chain (table'.forward i) table.head (tower i (L₁ ++ e :: L₂))
      ∧ ∀ j ≠ i, ∀ p, table'.forward j p = table.forward j p := by
  rw [tower_append] at hchain
  have hnd := hc.nodup_tower i
  rw [tower_append, tower_cons_of_lt hie] at hnd
  have hprevmem := Chain.getLastD_mem_cons table.head (tower i L₁)
  set prev := (tower i L₁).getLastD table.head with hprev
  -- the new node is none of the nodes of the level, so not the predecessor
  have hdisj := List.nodup_append'.mp (show ((table.head :: tower i L₁)
    ++ e.addr :: tower i L₂).Nodup from hnd)
  have hne : e.addr ≠ prev := fun he => hdisj.2.2 (he ▸ hprevmem) List.mem_cons_self
  have hnd' : (table.head :: (tower i L₁ ++ tower i L₂)).Nodup :=
    (show ((table.head :: tower i L₁) ++ e.addr :: tower i L₂).Nodup from hnd).sublist
      (((List.sublist_cons_self e.addr (tower i L₂)).append_left (table.head :: tower i L₁)))
  have heL : e ∈ L₁ ++ e :: L₂ := by simp
  obtain ⟨f, hf⟩ := hc.cell e heL
  have hcell : ∃ n, table.nodes.load prev = some n := by
    refine hc.live ?_
    rcases List.mem_cons.mp hprevmem with he | hm
    · rw [he]
      exact List.mem_cons_self
    · refine List.mem_cons_of_mem _ ((tower_sublist i _).subset ?_)
      rw [tower_append]
      exact List.mem_append_left _ hm
  obtain ⟨m, hm⟩ := hcell
  have hnext : table.forward i prev = some ((tower i L₂).headD 0) := hchain.next_getLastD
  let table₁ := table.putForward i e.addr ((tower i L₂).headD 0)
  have hm₁ : ∃ m', table₁.nodes.load prev = some m' :=
    ⟨m, by simp [table₁, putForward, hne.symm, hm]⟩
  obtain ⟨m', hm'⟩ := hm₁
  have hfwd : ∀ j p, (table₁.putForward i prev e.addr).forward j p
      = if j = i ∧ p = prev then some e.addr
        else if j = i ∧ p = e.addr then some ((tower i L₂).headD 0) else table.forward j p := by
    intro j p
    rw [forward_putForward hi hm', forward_putForward hi hf]
  refine ⟨table₁.putForward i prev e.addr, rfl, (hc.putForward i _ _).putForward i _ _, ?_, ?_,
    fun j hj p => ?_⟩
  · simp only [hnext, Option.bind_eq_bind, Option.bind_some, setForward_eq hi hf]
    exact setForward_eq hi hm'
  · rw [tower_append, tower_cons_of_lt hie]
    refine hchain.insert hnd' (addr_ne_null hc heL) ?_ ?_ (fun p hp hpne => ?_)
    · rw [hfwd, if_pos ⟨rfl, hprev.symm⟩]
    · rw [hfwd, if_neg (fun h => hne h.2), if_pos ⟨rfl, rfl⟩]
    · have hpe : p ≠ e.addr := by
        rintro rfl
        have hpm : e.addr ∈ (table.head :: tower i L₁) ++ tower i L₂ := hp
        rcases List.mem_append.mp hpm with hpm | hpm
        · exact hdisj.2.2 hpm List.mem_cons_self
        · exact (List.nodup_cons.mp hdisj.2.1).1 hpm
      rw [hfwd, if_neg (fun h => hpne (h.2.trans hprev)), if_neg (fun h => hpe h.2)]
  · rw [hfwd, if_neg (fun h => hj h.1), if_neg (fun h => hj h.1)]

/-- The list a level is a chain of while the levels below `i` are done. -/
theorem tower_insert_of_le {j : ℕ} (hj : e.level ≤ j) :
    tower j (L₁ ++ e :: L₂) = tower j (L₁ ++ L₂) := by
  rw [tower_append, tower_append, tower_cons_of_le hj]

/-- **Linking all levels of the new node.** -/
theorem link_eq {update : Vector Ptr SKIPTABLE_MAX_LEVEL} {head : Ptr}
    (hle : e.level ≤ SKIPTABLE_MAX_LEVEL)
    (hup : ∀ j < e.level, update[j]? = some ((tower j L₁).getLastD head)) :
    ∀ (n i : ℕ) {table : KvsSkiptable}, i + n = e.level → table.head = head →
      Cells table (L₁ ++ e :: L₂) →
      (∀ j < i, Chain (table.forward j) head (tower j (L₁ ++ e :: L₂))) →
      (∀ j < SKIPTABLE_MAX_LEVEL, i ≤ j → Chain (table.forward j) head (tower j (L₁ ++ L₂))) →
      ∃ table', skiptableLink e.addr update n i table = some table'
        ∧ table'.frame = table.frame ∧ Cells table' (L₁ ++ e :: L₂)
        ∧ ∀ j < SKIPTABLE_MAX_LEVEL,
            Chain (table'.forward j) head (tower j (L₁ ++ e :: L₂)) := by
  intro n
  induction n with
  | zero =>
    intro i table hi hhead hc hdone htodo
    refine ⟨table, rfl, rfl, hc, fun j hj => ?_⟩
    rcases Nat.lt_or_ge j i with hlt | hge
    · exact hdone j hlt
    · rw [tower_insert_of_le (by omega)]
      exact htodo j hj hge
  | succ n ih =>
    intro i table hi hhead hc hdone htodo
    subst hhead
    have hlt : i < e.level := by omega
    have hi16 : i < SKIPTABLE_MAX_LEVEL := by omega
    obtain ⟨table₁, hframe, hc₁, hstep, hchain, hother⟩ :=
      link_step hc hi16 hlt (htodo i hi16 le_rfl)
    have hhead₁ : table₁.head = table.head := (frame_eq_iff.mp hframe).1
    obtain ⟨table', hlink, hframe', hc', hall⟩ := ih (i + 1) (by omega) hhead₁ hc₁
      (fun j hj => by
        rcases Nat.lt_succ_iff_lt_or_eq.mp hj with hj | rfl
        · exact (hdone j hj).congr (fun p _ => hother j (by omega) p)
        · exact hchain)
      (fun j hj hij => (htodo j hj (by omega)).congr (fun p _ => hother j (by omega) p))
    refine ⟨table', ?_, hframe'.trans hframe, hc', hall⟩
    simp only [skiptableLink, hup i hlt, Option.bind_eq_bind, Option.bind_some]
    rw [← hlink]
    simp only [Option.bind_eq_bind] at hstep
    simpa [Option.bind_assoc] using congrArg
      (fun o => o.bind (skiptableLink e.addr update n (i + 1))) hstep

/-- The head is the predecessor on the levels `set` opens. -/
theorem fillUpdate_eq (head : Ptr) (n : ℕ) : ∀ (i : ℕ) (update : Vector Ptr SKIPTABLE_MAX_LEVEL),
    i + n ≤ SKIPTABLE_MAX_LEVEL → ∀ j, (skiptableFillUpdate head n i update)[j]?
      = if i ≤ j ∧ j < i + n then some head else update[j]? := by
  induction n with
  | zero =>
    intro i update _ j
    rw [if_neg (by omega)]
    rfl
  | succ n ih =>
    intro i update hi j
    unfold skiptableFillUpdate
    rw [ih (i + 1) _ (by omega), Vector.getElem?_setIfInBounds]
    by_cases hj : i = j
    · subst hj
      rw [if_neg (by omega), if_pos rfl, if_pos (by omega), if_pos (by omega)]
    · by_cases hj' : i + 1 ≤ j ∧ j < i + 1 + n
      · rw [if_pos hj', if_pos (by omega)]
      · rw [if_neg hj', if_neg hj, if_neg (by omega)]

/-- A new node's cell beside those of the table. -/
theorem cells_insert {table' : KvsSkiptable} (h : Cells table (L₁ ++ L₂))
    (haddr : e.addr = table.nodes.next) (hhead : table'.head = table.head)
    (hcell : ∃ f, table'.nodes.load e.addr = some ⟨e.item.key, e.item.value, e.level, f⟩)
    (hother : ∀ p ≠ table.nodes.next, table'.nodes.load p = table.nodes.load p)
    (howns : Owns table'.strs (e.item :: (L₁ ++ L₂).map SkipEntry.item)) :
    Cells table' (L₁ ++ e :: L₂) := by
  have hne : ∀ p ∈ table.head :: (L₁ ++ L₂).map SkipEntry.addr, p ≠ table.nodes.next :=
    fun p hp => by
      obtain ⟨n, hn⟩ := h.live hp
      exact Heap.ne_next_of_load hn
  refine ⟨?_, fun n hn => ?_, ?_, ?_⟩
  · obtain ⟨n, hn⟩ := h.head_live
    exact ⟨n, by rw [hhead, hother _ (Heap.ne_next_of_load hn), hn]⟩
  · rcases List.mem_cons.mp (List.perm_middle.mem_iff.mp hn) with rfl | hn
    · exact hcell
    · obtain ⟨f, hf⟩ := h.cell n hn
      exact ⟨f, by rw [hother _ (Heap.ne_next_of_load hf), hf]⟩
  · rw [hhead]
    have hperm : (table.head :: (L₁ ++ e :: L₂).map SkipEntry.addr).Perm
        (e.addr :: table.head :: (L₁ ++ L₂).map SkipEntry.addr) :=
      ((List.perm_middle.map SkipEntry.addr).cons table.head).trans (List.Perm.swap _ _ _)
    rw [hperm.nodup_iff, List.nodup_cons]
    exact ⟨fun hm => hne _ hm haddr, h.nodup⟩
  · exact howns.perm (List.perm_middle.map SkipEntry.item).symm

/-- **`kvs_skiptable_set` of a missing key** puts its node between the parts. -/
theorem set_new (h : Inv table L) (hk : key ∉ keysOf (L.map SkipEntry.item)) (value : CString)
    (rand : ℕ → Bool) :
    ∃ (table' : KvsSkiptable) (L₁ : List SkipEntry) (e : SkipEntry) (L₂ : List SkipEntry),
      kvsSkiptableSet table (some key) (some value) (Env.healthy rand) = some (0, table')
      ∧ Inv table' (L₁ ++ e :: L₂) ∧ L = L₁ ++ L₂ ∧ e.item.k = key ∧ e.item.v = value := by
  obtain ⟨L₁, L₂, rfl, h₁, h₂⟩ := exists_split key h.sorted
  obtain ⟨prev, update, hd, hnext, hup⟩ := locate h h₁ h₂
  have hmiss := matches_miss h.toCells hk
  obtain ⟨hl1, hl16⟩ := skiptableRandomLevel_bounds rand
  set level := skiptableRandomLevel rand with hlevel
  obtain ⟨table₁, hcreate, hhead₁, hlevel₁, hcount₁, hstrs₁, hnode₁, hother₁⟩ :=
    createNode_eq { table with level := max table.level level } key value level rand
  let e : SkipEntry := ⟨table.nodes.next, level, ⟨table.strs.next, (table.strs.alloc key).next,
    key, value⟩⟩
  have hc₁ : Cells table₁ (L₁ ++ e :: L₂) :=
    cells_insert h.toCells rfl hhead₁ ⟨_, hnode₁⟩ hother₁
      (by rw [hstrs₁]; exact h.owns.alloc_item key value)
  -- the new cell is on no chain yet, so the chains are the old ones
  have hchain₁ : ∀ j < SKIPTABLE_MAX_LEVEL,
      Chain (table₁.forward j) table.head (tower j (L₁ ++ L₂)) := by
    intro j hj
    refine (h.chain j hj).congr (fun p hp => forward_congr (hother₁ p ?_) j)
    obtain ⟨n, hn⟩ := h.live (((tower_sublist j _).cons_cons table.head).subset hp)
    exact Heap.ne_next_of_load hn
  have htop : table.level ≤ SKIPTABLE_MAX_LEVEL := by
    rw [h.level_eq]
    exact topLevel_le (fun n hn => (h.levels n hn).2)
  let update₁ := skiptableFillUpdate table.head (level - table.level) table.level update
  have hup₁ : ∀ j < level, update₁[j]? = some ((tower j L₁).getLastD table.head) := by
    intro j hj
    rw [fillUpdate_eq table.head _ _ _ (by omega)]
    by_cases hjl : j < table.level
    · rw [if_neg (by omega)]
      exact hup j hjl
    · have hnil : tower j L₁ = [] := by
        refine tower_eq_nil (le_trans ?_ (not_lt.mp hjl))
        rw [h.level_eq, topLevel_append]
        exact le_max_left _ _
      rw [if_pos (by omega), hnil]
      rfl
  obtain ⟨table₂, hlink, hframe, hc₂, hchain₂⟩ :=
    link_eq hl16 hup₁ level 0 (Nat.zero_add _) hhead₁ hc₁
      (fun j hj => absurd hj (Nat.not_lt_zero j)) (fun j hj _ => hchain₁ j hj)
  obtain ⟨hhead₂, hlevel₂, hcount₂, -⟩ := frame_eq_iff.mp hframe
  refine ⟨{ table₂ with count := table₂.count + 1 }, L₁, e, L₂, ?_,
    ⟨⟨hc₂.head_live, hc₂.cell, hc₂.nodup, hc₂.owns⟩, ?_, ?_, ?_, ?_, ?_⟩, rfl, rfl, rfl⟩
  · unfold kvsSkiptableSet
    simp only [hd, hnext, hmiss, Option.bind_eq_bind, Option.bind_some, Bool.false_eq_true,
      if_false, Env.rand_healthy, ← hlevel, hcreate, Heap.next_ne_null]
    exact congrArg (fun o => Option.bind o _) hlink
  · intro n hn
    rcases List.mem_cons.mp (List.perm_middle.mem_iff.mp hn) with rfl | hn
    · exact ⟨hl1, hl16⟩
    · exact h.levels n hn
  · obtain ⟨hs₁, hs₂, hs₁₂⟩ := List.pairwise_append.mp h.sorted
    have hlt : ∀ n ∈ L₂, key < n.item.k := fun n hn =>
      lt_of_le_of_ne (h₂ n hn) (fun he => hk (he ▸ List.mem_map_of_mem
        (List.mem_map_of_mem (List.mem_append_right L₁ hn))))
    refine List.pairwise_append.mpr ⟨hs₁, List.pairwise_cons.mpr ⟨hlt, hs₂⟩, fun m hm n hn => ?_⟩
    rcases List.mem_cons.mp hn with rfl | hn
    · exact h₁ m hm
    · exact hs₁₂ m hm n hn
  · intro j hj
    show Chain (table₂.forward j) table₂.head (tower j (L₁ ++ e :: L₂))
    rw [hhead₂, hhead₁]
    exact hchain₂ j hj
  · show table₂.level = topLevel (L₁ ++ e :: L₂)
    rw [hlevel₂, hlevel₁, h.level_eq, topLevel_append, topLevel_append, topLevel_cons]
    show max (max (topLevel L₁) (topLevel L₂)) level = max (topLevel L₁) (max level (topLevel L₂))
    omega
  · show table₂.count + 1 = ((L₁ ++ e :: L₂).length : ℤ)
    rw [hcount₂, hcount₁, show ({ table with level := max table.level level } : KvsSkiptable).count
      = table.count from rfl, h.count_eq]
    simp only [List.length_append, List.length_cons]
    push_cast
    omega

end Insert

/-! ## Deleting -/

section Delete

variable {table : KvsSkiptable} {L L₁ L₂ : List SkipEntry} {e : SkipEntry} {key : CString}

/-- **Unlinking one level** that the node is on. -/
theorem unlink_step (hc : Cells table (L₁ ++ e :: L₂)) {i : ℕ} (hi : i < SKIPTABLE_MAX_LEVEL)
    (hie : i < e.level) (hchain : Chain (table.forward i) table.head (tower i (L₁ ++ e :: L₂))) :
    ∃ table', table'.frame = table.frame ∧ Cells table' (L₁ ++ e :: L₂)
      ∧ table.forward i ((tower i L₁).getLastD table.head) = some e.addr
      ∧ (do
          let next ← table.forward i e.addr
          table.setForward i ((tower i L₁).getLastD table.head) next) = some table'
      ∧ Chain (table'.forward i) table.head (tower i (L₁ ++ L₂))
      ∧ ∀ j ≠ i, ∀ p, table'.forward j p = table.forward j p := by
  have hnd := hc.nodup_tower i
  rw [tower_append, tower_cons_of_lt hie] at hchain hnd
  have hnextp : table.forward i ((tower i L₁).getLastD table.head) = some e.addr :=
    hchain.next_getLastD
  have hnexte : table.forward i e.addr = some ((tower i L₂).headD 0) := by
    have h' : Chain (table.forward i) table.head ((tower i L₁ ++ [e.addr]) ++ tower i L₂) := by
      simpa using hchain
    have h'' := h'.next_getLastD
    rwa [Chain.getLastD_append_cons] at h''
  have hprevmem := Chain.getLastD_mem_cons table.head (tower i L₁)
  obtain ⟨m, hm⟩ : ∃ n, table.nodes.load ((tower i L₁).getLastD table.head) = some n := by
    refine hc.live ?_
    rcases List.mem_cons.mp hprevmem with he | hmem
    · rw [he]
      exact List.mem_cons_self
    · refine List.mem_cons_of_mem _ ((tower_sublist i _).subset ?_)
      rw [tower_append]
      exact List.mem_append_left _ hmem
  have hfwd : ∀ j p, (table.putForward i ((tower i L₁).getLastD table.head)
      ((tower i L₂).headD 0)).forward j p = if j = i ∧ p = (tower i L₁).getLastD table.head
        then some ((tower i L₂).headD 0) else table.forward j p :=
    fun j p => forward_putForward hi hm
  refine ⟨table.putForward i ((tower i L₁).getLastD table.head) ((tower i L₂).headD 0), rfl,
    hc.putForward i _ _, hnextp, ?_, ?_, fun j hj p => ?_⟩
  · simp only [hnexte, Option.bind_eq_bind, Option.bind_some]
    exact setForward_eq hi hm
  · rw [tower_append]
    refine hchain.remove hnd ?_ (fun p _ hpne => ?_)
    · rw [hfwd, if_pos ⟨rfl, rfl⟩]
    · rw [hfwd, if_neg (fun h => hpne h.2)]
  · rw [hfwd, if_neg (fun h => hj h.1)]

/-- On a level the node is not on, it does not follow the front part. -/
theorem forward_ne_of_le (hc : Cells table (L₁ ++ e :: L₂)) {i : ℕ} (hie : e.level ≤ i)
    (hchain : Chain (table.forward i) table.head (tower i (L₁ ++ e :: L₂))) :
    ∃ next, table.forward i ((tower i L₁).getLastD table.head) = some next ∧ next ≠ e.addr := by
  rw [tower_insert_of_le hie, tower_append] at hchain
  refine ⟨(tower i L₂).headD 0, hchain.next_getLastD, fun he => ?_⟩
  have hnd := (List.nodup_cons.mp hc.nodup).2
  rw [List.map_append, List.map_cons, List.nodup_middle, List.nodup_cons] at hnd
  cases hL : tower i L₂ with
  | nil =>
    rw [hL] at he
    exact addr_ne_null hc (n := e) (by simp) he.symm
  | cons p ps =>
    rw [hL] at he
    refine hnd.1 (List.mem_append_right _ ((tower_sublist i L₂).subset ?_))
    rw [hL, ← he]
    exact List.mem_cons_self

/-- **Unlinking on every level the node is on**: the loop runs through its
levels and stops at the first it is not on. -/
theorem unlink_eq {update : Vector Ptr SKIPTABLE_MAX_LEVEL} {head : Ptr} {top : ℕ}
    (hle : top ≤ SKIPTABLE_MAX_LEVEL) (htop : e.level ≤ top)
    (hup : ∀ j < top, update[j]? = some ((tower j L₁).getLastD head)) :
    ∀ (n i : ℕ) {table : KvsSkiptable}, i + n = top → table.head = head →
      Cells table (L₁ ++ e :: L₂) →
      (∀ j < i, Chain (table.forward j) head (tower j (L₁ ++ L₂))) →
      (∀ j < SKIPTABLE_MAX_LEVEL, i ≤ j →
        Chain (table.forward j) head (tower j (L₁ ++ e :: L₂))) →
      ∃ table', skiptableUnlink e.addr update n i table = some table'
        ∧ table'.frame = table.frame ∧ Cells table' (L₁ ++ e :: L₂)
        ∧ ∀ j < SKIPTABLE_MAX_LEVEL, Chain (table'.forward j) head (tower j (L₁ ++ L₂)) := by
  intro n
  -- from a level the node is not on, nothing is left to do
  have hstop : ∀ (i : ℕ) {table : KvsSkiptable}, e.level ≤ i →
      (∀ j < i, Chain (table.forward j) head (tower j (L₁ ++ L₂))) →
      (∀ j < SKIPTABLE_MAX_LEVEL, i ≤ j →
        Chain (table.forward j) head (tower j (L₁ ++ e :: L₂))) →
      ∀ j < SKIPTABLE_MAX_LEVEL, Chain (table.forward j) head (tower j (L₁ ++ L₂)) := by
    intro i table hi hdone htodo j hj
    rcases Nat.lt_or_ge j i with hlt | hge
    · exact hdone j hlt
    · rw [← tower_insert_of_le (hi.trans hge)]
      exact htodo j hj hge
  induction n with
  | zero =>
    intro i table hi _ hc hdone htodo
    exact ⟨table, rfl, rfl, hc, hstop i (by omega) hdone htodo⟩
  | succ n ih =>
    intro i table hi hhead hc hdone htodo
    subst hhead
    have hi16 : i < SKIPTABLE_MAX_LEVEL := by omega
    rcases Nat.lt_or_ge i e.level with hlt | hge
    · obtain ⟨table₁, hframe, hc₁, hnext, hstep, hchain, hother⟩ :=
        unlink_step hc hi16 hlt (htodo i hi16 le_rfl)
      have hhead₁ : table₁.head = table.head := (frame_eq_iff.mp hframe).1
      obtain ⟨table', hun, hframe', hc', hall⟩ := ih (i + 1) (by omega) hhead₁ hc₁
        (fun j hj => by
          rcases Nat.lt_succ_iff_lt_or_eq.mp hj with hj | rfl
          · exact (hdone j hj).congr (fun p _ => hother j (by omega) p)
          · exact hchain)
        (fun j hj hij => (htodo j hj (by omega)).congr (fun p _ => hother j (by omega) p))
      refine ⟨table', ?_, hframe'.trans hframe, hc', hall⟩
      simp only [skiptableUnlink, hup i (by omega), hnext, Option.bind_eq_bind, Option.bind_some,
        ne_eq, not_true_eq_false, if_false]
      rw [← hun]
      simpa [Option.bind_assoc] using congrArg
        (fun o => o.bind (skiptableUnlink e.addr update n (i + 1))) hstep
    · obtain ⟨next, hnext, hne⟩ := forward_ne_of_le hc hge (htodo i hi16 le_rfl)
      refine ⟨table, ?_, rfl, hc, hstop i hge hdone htodo⟩
      simp only [skiptableUnlink, hup i (by omega), hnext, Option.bind_eq_bind, Option.bind_some,
        ne_eq, hne, not_false_eq_true, if_true]
      rfl

/-- **The level shrinks to the largest of a node.** -/
theorem shrink_eq {table : KvsSkiptable}
    (hchain : ∀ j < SKIPTABLE_MAX_LEVEL, Chain (table.forward j) table.head (tower j L)) :
    ∀ l, topLevel L ≤ l → l ≤ SKIPTABLE_MAX_LEVEL → skiptableShrink table l = some (topLevel L)
  | 0, h0, _ => absurd h0 (by have := one_le_topLevel L; omega)
  | 1, h1, _ => by
    rw [le_antisymm h1 (one_le_topLevel L)]
    rfl
  | l + 2, hl, hl16 => by
    have hnext := (hchain (l + 1) (by omega)).next_eq
    unfold skiptableShrink
    rcases Nat.lt_or_ge (topLevel L) (l + 2) with hlt | hge
    · rw [hnext, tower_eq_nil (show topLevel L ≤ l + 1 by omega)]
      exact shrink_eq hchain (l + 1) (by omega) (by omega)
    · have htop : topLevel L = l + 2 := le_antisymm hl hge
      obtain ⟨n, hn, hnl⟩ := topLevel_mem (L := L) (by omega)
      have hmem : n.addr ∈ tower (l + 1) L := mem_tower.mpr ⟨n, hn, by omega, rfl⟩
      have hne : (tower (l + 1) L).headD 0 ≠ 0 := by
        cases hT : tower (l + 1) L with
        | nil =>
          rw [hT] at hmem
          cases hmem
        | cons p ps =>
          have hp : p ∈ tower (l + 1) L := by
            rw [hT]
            exact List.mem_cons_self
          exact (hchain (l + 1) (by omega)).ne_null hp
      rw [hnext, Option.bind_eq_bind, Option.bind_some, if_neg hne, htop]
      rfl

/-- The cells of the other nodes, once a node is freed. -/
theorem cells_remove {table' : KvsSkiptable} (h : Cells table (L₁ ++ e :: L₂))
    (hhead : table'.head = table.head) (hnodes : table'.nodes = table.nodes.erase e.addr)
    (howns : Owns table'.strs ((L₁ ++ L₂).map SkipEntry.item)) : Cells table' (L₁ ++ L₂) := by
  have hperm : (table.head :: (L₁ ++ e :: L₂).map SkipEntry.addr).Perm
      (e.addr :: table.head :: (L₁ ++ L₂).map SkipEntry.addr) :=
    ((List.perm_middle.map SkipEntry.addr).cons table.head).trans (List.Perm.swap _ _ _)
  have hnd := hperm.nodup_iff.mp h.nodup
  obtain ⟨hfresh, hnd'⟩ := List.nodup_cons.mp hnd
  have hload : ∀ p ∈ table.head :: (L₁ ++ L₂).map SkipEntry.addr,
      table'.nodes.load p = table.nodes.load p := by
    intro p hp
    have hne : p ≠ e.addr := fun he => hfresh (he ▸ hp)
    rw [hnodes, Heap.load_erase, if_neg hne]
  refine ⟨?_, fun n hn => ?_, ?_, howns⟩
  · rw [hhead, hload _ List.mem_cons_self]
    exact h.head_live
  · rw [hload _ (List.mem_cons_of_mem _ (List.mem_map_of_mem hn))]
    exact h.cell n (List.perm_middle.mem_iff.mpr (List.mem_cons_of_mem e hn))
  · rw [hhead]
    exact hnd'

/-- **`kvs_skiptable_del` of a stored key** removes its node. -/
theorem del_hit (h : Inv table (L₁ ++ e :: L₂)) :
    ∃ table', kvsSkiptableDel table (some e.item.k) = some (0, table')
      ∧ Inv table' (L₁ ++ L₂) := by
  have heL : e ∈ L₁ ++ e :: L₂ := by simp
  obtain ⟨prev, update, hd, hnext, hup⟩ := locate h h.split_at.1 h.split_at.2
  rw [List.map_cons, List.headD_cons] at hnext
  have htop : table.level ≤ SKIPTABLE_MAX_LEVEL := by
    rw [h.level_eq]
    exact topLevel_le (fun n hn => (h.levels n hn).2)
  obtain ⟨table₁, hun, hframe, hc₁, hchain₁⟩ :=
    unlink_eq htop (by rw [h.level_eq]; exact level_le_topLevel heL) hup table.level 0
      (Nat.zero_add _) rfl h.toCells (fun j hj => absurd hj (Nat.not_lt_zero j))
      (fun j hj _ => h.chain j hj)
  obtain ⟨hhead₁, hlevel₁, hcount₁, hstrs₁⟩ := frame_eq_iff.mp hframe
  obtain ⟨f, hf⟩ := hc₁.cell e heL
  obtain ⟨hfreek, hfreev, howns⟩ :=
    (hc₁.owns.perm (List.perm_middle.map SkipEntry.item)).free_item
  let table₂ : KvsSkiptable := { table₁ with
    nodes := table₁.nodes.erase e.addr
    strs := (table₁.strs.erase e.item.key).erase e.item.value }
  have hc₂ : Cells table₂ (L₁ ++ L₂) := cells_remove hc₁ rfl rfl howns
  have hchain₂ : ∀ j < SKIPTABLE_MAX_LEVEL,
      Chain (table₂.forward j) table₂.head (tower j (L₁ ++ L₂)) := by
    intro j hj
    show Chain (table₂.forward j) table₁.head (tower j (L₁ ++ L₂))
    rw [hhead₁]
    refine (hchain₁ j hj).congr (fun p hp => forward_congr ?_ j)
    -- the freed node is not among the nodes left
    obtain ⟨n, hn⟩ := hc₂.live (by
      show p ∈ table₁.head :: _
      rw [hhead₁]
      exact ((tower_sublist j _).cons_cons table.head).subset hp)
    have hne : p ≠ e.addr := by
      rintro rfl
      simp [table₂] at hn
    simp [table₂, hne]
  have hlevel : topLevel (L₁ ++ L₂) ≤ table.level := by
    rw [h.level_eq, topLevel_append, topLevel_append, topLevel_cons]
    exact max_le_max le_rfl (le_max_right _ _)
  have hshrink : skiptableShrink table₂ table₂.level = some (topLevel (L₁ ++ L₂)) :=
    shrink_eq hchain₂ _ (by show _ ≤ table₁.level; omega) (by show table₁.level ≤ _; omega)
  refine ⟨{ table₂ with level := topLevel (L₁ ++ L₂), count := table₂.count - 1 }, ?_,
    ⟨⟨hc₂.head_live, hc₂.cell, hc₂.nodup, hc₂.owns⟩, ?_, ?_, hchain₂, rfl, ?_⟩⟩
  · unfold kvsSkiptableDel
    simp only [hd, hnext, matches_hit h.toCells heL, hun, hf, hfreek, hfreev,
      Heap.free_of_load hf, Option.bind_eq_bind, Option.bind_some, if_true]
    exact congrArg (fun o => Option.bind o _) hshrink
  · exact fun n hn => h.levels n (List.perm_middle.mem_iff.mpr (List.mem_cons_of_mem e hn))
  · exact h.sorted.sublist ((List.sublist_cons_self e L₂).append_left L₁)
  · show table₁.count - 1 = ((L₁ ++ L₂).length : ℤ)
    rw [hcount₁, h.count_eq]
    simp only [List.length_append, List.length_cons]
    push_cast
    omega

/-- `kvs_skiptable_del` of a missing key. -/
theorem del_miss (h : Inv table L) (hk : key ∉ keysOf (L.map SkipEntry.item)) :
    kvsSkiptableDel table (some key) = some (1, table) := by
  obtain ⟨L₁, L₂, rfl, h₁, h₂⟩ := exists_split key h.sorted
  obtain ⟨prev, update, hd, hnext, -⟩ := locate h h₁ h₂
  unfold kvsSkiptableDel
  simp only [hd, hnext, matches_miss h.toCells hk, Option.bind_eq_bind, Option.bind_some,
    Bool.false_eq_true, if_false]
  rfl

end Delete

/-! ## The other operations -/

section Lookup

variable {table : KvsSkiptable} {L L₁ L₂ : List SkipEntry} {e : SkipEntry} {key : CString}

/-- `kvs_skiptable_set` of a stored key. -/
theorem set_hit (h : Inv table (L₁ ++ e :: L₂)) (value : CString) (env : Env) :
    kvsSkiptableSet table (some e.item.k) (some value) env = some (1, table) := by
  obtain ⟨prev, update, hd, hnext, -⟩ := locate h h.split_at.1 h.split_at.2
  rw [List.map_cons, List.headD_cons] at hnext
  unfold kvsSkiptableSet
  simp only [hd, hnext, matches_hit h.toCells (n := e) (by simp), Option.bind_eq_bind,
    Option.bind_some, if_true]
  rfl

theorem get_hit (h : Inv table (L₁ ++ e :: L₂)) :
    kvsSkiptableGet table (some e.item.k) = some e.item.value := by
  obtain ⟨f, hf⟩ := h.cell e (by simp)
  unfold kvsSkiptableGet
  simp [search_hit h, addr_ne_null h.toCells (n := e) (by simp), hf]

theorem get_miss (h : Inv table L) (hk : key ∉ keysOf (L.map SkipEntry.item)) :
    kvsSkiptableGet table (some key) = some 0 := by
  unfold kvsSkiptableGet
  simp [search_miss h hk]

theorem exist_hit (h : Inv table (L₁ ++ e :: L₂)) :
    kvsSkiptableExist table (some e.item.k) = some 0 := by
  unfold kvsSkiptableExist
  simp [search_hit h, addr_ne_null h.toCells (n := e) (by simp)]

theorem exist_miss (h : Inv table L) (hk : key ∉ keysOf (L.map SkipEntry.item)) :
    kvsSkiptableExist table (some key) = some 1 := by
  unfold kvsSkiptableExist
  simp [search_miss h hk]

theorem mod_miss (h : Inv table L) (hk : key ∉ keysOf (L.map SkipEntry.item)) (value : CString)
    (env : Env) : kvsSkiptableMod table (some key) (some value) env = some (1, table) := by
  unfold kvsSkiptableMod
  simp [search_miss h hk]

/-- **`kvs_skiptable_mod` of a stored key** replaces its value and leaves
every link. -/
theorem mod_hit (h : Inv table (L₁ ++ e :: L₂)) (value : CString) (rand : ℕ → Bool) :
    ∃ table' e', kvsSkiptableMod table (some e.item.k) (some value) (Env.healthy rand)
          = some (0, table')
      ∧ Inv table' (L₁ ++ e' :: L₂) ∧ e'.item.k = e.item.k ∧ e'.item.v = value := by
  have heL : e ∈ L₁ ++ e :: L₂ := by simp
  obtain ⟨f, hf⟩ := h.cell e heL
  obtain ⟨hfree, howns⟩ := (h.owns.perm
    (List.perm_middle.map SkipEntry.item)).replace_value_alloc_first value
  let e' : SkipEntry := { e with item := { e.item with value := table.strs.next, v := value } }
  let table₁ : KvsSkiptable := { table with
    nodes := table.nodes.update e.addr (fun n => { n with value := table.strs.next })
    strs := (table.strs.alloc value).erase e.item.value }
  have hfwd : ∀ j p, table₁.forward j p = table.forward j p := by
    intro j p
    unfold forward
    by_cases hp : p = e.addr
    · subst hp
      simp [table₁, hf]
    · simp [table₁, hp]
  -- the new node has the old one's address and level, so every list is unchanged
  have htower : ∀ j, tower j (L₁ ++ e' :: L₂) = tower j (L₁ ++ e :: L₂) := by
    intro j
    rw [tower_append, tower_append]
    rcases Nat.lt_or_ge j e.level with hj | hj
    · rw [tower_cons_of_lt hj, tower_cons_of_lt (n := e') hj]
    · rw [tower_cons_of_le hj, tower_cons_of_le (n := e') hj]
  have hmem : ∀ n ∈ L₁ ++ e' :: L₂, n = e' ∨ n ∈ L₁ ++ L₂ := fun n hn =>
    List.mem_cons.mp (List.perm_middle.mem_iff.mp hn)
  have hin : ∀ n ∈ L₁ ++ L₂, n ∈ L₁ ++ e :: L₂ := fun n hn =>
    List.perm_middle.mem_iff.mpr (List.mem_cons_of_mem e hn)
  have hnd := (List.nodup_cons.mp h.nodup).2
  rw [List.map_append, List.map_cons, List.nodup_middle, ← List.map_append, List.nodup_cons] at hnd
  refine ⟨table₁, e', ?_, ⟨⟨?_, fun n hn => ?_, ?_, ?_⟩, fun n hn => ?_, ?_, fun i hi => ?_, ?_, ?_⟩,
    rfl, rfl⟩
  · unfold kvsSkiptableMod
    simp [search_hit h, addr_ne_null h.toCells heL, Heap.next_ne_null, hf, hfree,
      Heap.modify_of_load _ hf, table₁]
  · obtain ⟨n, hn⟩ := h.head_live
    have hne : table.head ≠ e.addr := fun he =>
      (List.nodup_cons.mp h.nodup).1 (he ▸ List.mem_map_of_mem heL)
    exact ⟨n, by simp [table₁, hne, hn]⟩
  · rcases hmem n hn with rfl | hn
    · exact ⟨f, by simp [table₁, hf, e']⟩
    · obtain ⟨g, hg⟩ := h.cell n (hin n hn)
      have hne : n.addr ≠ e.addr := fun he => hnd.1 (he ▸ List.mem_map_of_mem hn)
      exact ⟨g, by simp [table₁, hne, hg]⟩
  · have haddr : (L₁ ++ e' :: L₂).map SkipEntry.addr = (L₁ ++ e :: L₂).map SkipEntry.addr := by
      simp [e']
    rw [haddr]
    exact h.nodup
  · have hperm : ((L₁ ++ e' :: L₂).map SkipEntry.item).Perm
        (e'.item :: (L₁ ++ L₂).map SkipEntry.item) := List.perm_middle.map SkipEntry.item
    exact howns.perm hperm.symm
  · rcases hmem n hn with rfl | hn
    · exact h.levels e heL
    · exact h.levels n (hin n hn)
  · have hkeys : (L₁ ++ e' :: L₂).map (fun n => n.item.k) = (L₁ ++ e :: L₂).map (fun n => n.item.k) := by
      simp [e']
    have hs : ((L₁ ++ e :: L₂).map (fun n => n.item.k)).Pairwise (· < ·) :=
      List.pairwise_map.mpr h.sorted
    rw [← hkeys] at hs
    exact List.pairwise_map.mp hs
  · rw [htower]
    exact (h.chain i hi).congr (fun p _ => hfwd i p)
  · show table.level = topLevel (L₁ ++ e' :: L₂)
    rw [h.level_eq, topLevel_append, topLevel_append, topLevel_cons, topLevel_cons]
  · show table.count = ((L₁ ++ e' :: L₂).length : ℤ)
    rw [h.count_eq]
    simp

end Lookup

/-- A key is stored exactly when a node carries it. -/
theorem exists_node_of_mem {L : List SkipEntry} {k : CString}
    (hk : k ∈ keysOf (L.map SkipEntry.item)) :
    ∃ (L₁ : List SkipEntry) (e : SkipEntry) (L₂ : List SkipEntry), L = L₁ ++ e :: L₂ ∧ e.item.k = k := by
  obtain ⟨it, hit, rfl⟩ := List.mem_map.mp hk
  obtain ⟨e, he, rfl⟩ := List.mem_map.mp hit
  obtain ⟨L₁, L₂, rfl⟩ := List.append_of_mem he
  exact ⟨L₁, e, L₂, rfl, rfl⟩

/-- An entry among those of the nodes belongs to a node. -/
theorem exists_node_of_split {L : List SkipEntry} {xs ys : List Item} {it : Item}
    (h : L.map SkipEntry.item = xs ++ it :: ys) :
    ∃ L₁ e L₂, L = L₁ ++ e :: L₂ ∧ L₁.map SkipEntry.item = xs ∧ e.item = it
      ∧ L₂.map SkipEntry.item = ys := by
  obtain ⟨L₁, L', rfl, hL₁, hL'⟩ := List.map_eq_append_iff.mp h
  obtain ⟨e, L₂, rfl, he, hL₂⟩ := List.map_eq_cons_iff.mp hL'
  exact ⟨L₁, e, L₂, rfl, hL₁, he, hL₂⟩

/-- The entries of the skip list, in key order. -/
def Holds (table : KvsSkiptable) (items : List Item) : Prop :=
  ∃ L, Inv table L ∧ items = L.map SkipEntry.item

/-- **The skip list implements the map.** -/
theorem implements : Implements kvsSkiptableOps Holds Codes.plain where
  owns := fun ⟨L, h, hL⟩ => hL ▸ h.owns
  nodup := fun ⟨L, h, hL⟩ => by
    subst hL
    have hs : ((L.map SkipEntry.item).map Item.k).Pairwise (· < ·) := by
      rw [List.map_map]
      exact List.pairwise_map.mpr h.sorted
    exact hs.imp (fun hlt => hlt.ne)
  get_hit := fun ⟨L, h, hL⟩ hit => by
    subst hL
    obtain ⟨e, he, rfl⟩ := List.mem_map.mp hit
    obtain ⟨L₁, L₂, rfl⟩ := List.append_of_mem he
    exact get_hit h
  get_miss := fun ⟨L, h, hL⟩ hk => get_miss h (hL ▸ hk)
  set_full := fun _ hfull => absurd hfull (by simp [Codes.plain])
  set_hit := fun {_ _ _ v r} ⟨L, h, hL⟩ _ hk => by
    obtain ⟨L₁, e, L₂, rfl, rfl⟩ := exists_node_of_mem (hL ▸ hk)
    exact set_hit h v (Env.healthy r)
  set_new := fun {_ _ _ v r} ⟨L, h, hL⟩ _ hk => by
    obtain ⟨table', L₁, e, L₂, hset, hI, rfl, hk', hv⟩ := set_new h (hL ▸ hk) v r
    refine ⟨table', L₁.map SkipEntry.item, e.item, L₂.map SkipEntry.item, hset, ⟨_, hI, by simp⟩,
      by rw [hL, List.map_append], hk', hv⟩
  del_hit := fun ⟨L, h, hL⟩ => by
    obtain ⟨L₁, e, L₂, rfl, rfl, rfl, rfl⟩ := exists_node_of_split hL.symm
    obtain ⟨table', hdel, hI⟩ := del_hit h
    exact ⟨table', hdel, _, hI, by simp⟩
  del_miss := fun ⟨L, h, hL⟩ hk => del_miss h (hL ▸ hk)
  mod_hit := fun {_ _ _ _ v r} ⟨L, h, hL⟩ => by
    obtain ⟨L₁, e, L₂, rfl, rfl, rfl, rfl⟩ := exists_node_of_split hL.symm
    obtain ⟨table', e', hmod, hI, hk, hv⟩ := mod_hit h v r
    exact ⟨table', e'.item, hmod, ⟨_, hI, by simp⟩, hk, hv⟩
  mod_miss := fun {_ _ _ v r} ⟨L, h, hL⟩ hk => mod_miss h (hL ▸ hk) v (Env.healthy r)
  exist_hit := fun ⟨L, h, hL⟩ hk => by
    obtain ⟨L₁, e, L₂, rfl, rfl⟩ := exists_node_of_mem (hL ▸ hk)
    exact exist_hit h
  exist_miss := fun ⟨L, h, hL⟩ hk => exist_miss h (hL ▸ hk)

/-- **`kvs_skiptable_create` makes an empty skip list.** -/
theorem create_eq (rand : ℕ → Bool) :
    ∃ table, kvsSkiptableCreate KvsSkiptable.zero (Env.healthy rand) = some (0, table)
      ∧ Inv table [] := by
  let node : SkipNode := ⟨0, 0, SKIPTABLE_MAX_LEVEL, Vector.replicate SKIPTABLE_MAX_LEVEL 0⟩
  let nodes : Heap SkipNode := ((Heap.empty.alloc node).update 1 (fun n => { n with key := 0 })).update 1
    (fun n => { n with value := 0 })
  have hload : nodes.load 1 = some node := rfl
  refine ⟨⟨1, 1, 0, nodes, Heap.empty⟩, rfl,
    ⟨⟨node, hload⟩, by simp, by simp, Owns.nil _⟩, by simp, List.Pairwise.nil, fun i hi => ?_,
    rfl, rfl⟩
  show KvsSkiptable.forward _ i 1 = some 0
  rw [forward_isSome hi hload]
  simp [node]

/-- **The skip list is the finite map.** Every run of calls from
`kvs_skiptable_create`, with allocations succeeding and whatever `rand`
returns, returns the results of the map; two runs that differ only in what
`rand` returned return the same. -/
theorem run_eq_mapSpec (rand : ℕ → Bool) :
    ∃ table, kvsSkiptableCreate KvsSkiptable.zero (Env.healthy rand) = some (0, table)
      ∧ (∀ ops, ∃ table', kvsSkiptableOps.healthy.run table ops
          = some ((mapSpec.run ∅ (ops.map Prod.fst)).1, table'))
      ∧ ∀ ops ops', ops.map Prod.fst = ops'.map Prod.fst →
          (kvsSkiptableOps.healthy.run table ops).map Prod.fst
            = (kvsSkiptableOps.healthy.run table ops').map Prod.fst := by
  obtain ⟨table, hcreate, hI⟩ := create_eq rand
  have hrun : ∀ ops, ∃ table', kvsSkiptableOps.healthy.run table ops
      = some ((mapSpec.run ∅ (ops.map Prod.fst)).1, table') := by
    intro ops
    obtain ⟨table', hrun, -⟩ := implements.run ⟨[], hI, rfl⟩ ops
    rw [engineSpec_plain] at hrun
    exact ⟨table', hrun⟩
  refine ⟨table, hcreate, hrun, fun ops ops' hops => ?_⟩
  obtain ⟨table₁, h₁⟩ := hrun ops
  obtain ⟨table₂, h₂⟩ := hrun ops'
  rw [h₁, h₂, hops]
  rfl

/-! ## The shape of a reachable skip list -/

/-- The `level` field of a node. -/
def levelAt (table : KvsSkiptable) (p : Ptr) : ℕ :=
  ((table.nodes.load p).map SkipNode.level).getD 0

/-- The key of `p` is below the key of `q`, as `strcmp` has it. -/
def KeyLt (table : KvsSkiptable) (p q : Ptr) : Prop :=
  ∃ k k', table.keyAt p = some k ∧ table.keyAt q = some k' ∧ strcmp k k' < 0

/-- **The shape of a skip list**, in terms of its memory: `ps` are the nodes
of the lowest list. -/
structure Shape (table : KvsSkiptable) (ps : List Ptr) : Prop where
  /-- The lowest list ends, after the nodes `ps`. -/
  lowest : Chain (table.forward 0) table.head ps
  /-- The list at level `i` ends, after those of `ps` whose level exceeds `i`. -/
  chain : ∀ i < SKIPTABLE_MAX_LEVEL,
    Chain (table.forward i) table.head (ps.filter (fun p => i < table.levelAt p))
  /-- The list at level `i` is strictly increasing. -/
  sorted : ∀ i < SKIPTABLE_MAX_LEVEL,
    (ps.filter (fun p => i < table.levelAt p)).Pairwise table.KeyLt
  /-- The table's level is the largest of a node, and `1` if there is none. -/
  level_eq : table.level = (ps.map table.levelAt).foldr max 1
  /-- The lists from the table's level up are empty. -/
  empty_above : ∀ i < SKIPTABLE_MAX_LEVEL, table.level ≤ i → table.forward i table.head = some 0
  /-- The table counts its nodes. -/
  count_eq : table.count = ps.length

/-- The level of a node, in memory. -/
theorem Inv.levelAt {table : KvsSkiptable} {L : List SkipEntry} (h : Inv table L) {n : SkipEntry}
    (hn : n ∈ L) : table.levelAt n.addr = n.level := by
  obtain ⟨f, hf⟩ := h.cell n hn
  unfold KvsSkiptable.levelAt
  rw [hf]
  rfl

/-- The nodes are strictly increasing, in memory. -/
theorem Inv.pairwise_keyLt {table : KvsSkiptable} {L : List SkipEntry} (h : Inv table L) :
    (L.map SkipEntry.addr).Pairwise table.KeyLt := by
  refine List.pairwise_map.mpr (h.sorted.imp_of_mem (fun {m n} hm hn hmn => ?_))
  exact ⟨m.item.k, n.item.k, h.keyAt hm, h.keyAt hn, (strcmp_neg _ _).mpr hmn⟩

/-- A table that satisfies the invariant has the shape. -/
theorem Inv.shape {table : KvsSkiptable} {L : List SkipEntry} (h : Inv table L) :
    Shape table (L.map SkipEntry.addr) := by
  have hfilter : ∀ i, (L.map SkipEntry.addr).filter (fun p => i < table.levelAt p) = tower i L := by
    intro i
    unfold tower
    rw [List.filter_map]
    refine congrArg (List.map SkipEntry.addr) (List.filter_congr (fun n hn => ?_))
    show decide (i < table.levelAt n.addr) = decide (i < n.level)
    rw [h.levelAt hn]
  refine ⟨?_, fun i hi => ?_, fun i _ => ?_, ?_, fun i hi hle => ?_, ?_⟩
  · rw [← tower_zero (fun n hn => (h.levels n hn).1)]
    exact h.chain 0 (by decide)
  · rw [hfilter]
    exact h.chain i hi
  · exact h.pairwise_keyLt.sublist List.filter_sublist
  · rw [h.level_eq, List.map_map]
    exact congrArg (List.foldr max 1) (List.map_congr_left (fun n hn => (h.levelAt hn).symm))
  · rw [(h.chain i hi).next_eq, tower_eq_nil (h.level_eq ▸ hle)]
    rfl
  · rw [h.count_eq, List.length_map]

/-- **Every reachable skip list has the shape**: after every run of calls from
`kvs_skiptable_create`, with allocations succeeding and whatever `rand`
returns, the lists of all levels are finite, sorted, and made of exactly the
nodes whose level says so, and the level and the count of the table are
those of its nodes. -/
theorem run_shape (rand : ℕ → Bool) :
    ∃ table, kvsSkiptableCreate KvsSkiptable.zero (Env.healthy rand) = some (0, table)
      ∧ ∀ ops, ∃ rs table', kvsSkiptableOps.healthy.run table ops = some (rs, table')
        ∧ ∃ ps, Shape table' ps := by
  obtain ⟨table, hcreate, hI⟩ := create_eq rand
  refine ⟨table, hcreate, fun ops => ?_⟩
  obtain ⟨table', hrun, -, ⟨L, hL, -⟩, -⟩ := implements.run ⟨[], hI, rfl⟩ ops
  exact ⟨_, table', hrun, _, hL.shape⟩

end KvsSkiptable
