import LinuxLearn.Simulation

/-!
# Descriptors of the user-space stack

`tcp_concurrency.c` has descriptors of its own for its sockets and its
epoll object: the bits of `fd_table`, of which those of `3..1023` are
used. A descriptor is given out by `get_fd_frombitmap`, the lowest that
is free, and taken back by `set_fd_frombitmap`. The bits are then the
descriptors given out and not taken back (`allocates`).
-/

namespace Ustack

/-- **Why a call of the stack does not return.** -/
inductive Stop where
  /-- An object is used that was freed. -/
  | dangling
  /-- A null pointer is followed. -/
  | null
  /-- An object is used as one of another type. -/
  | confused
  /-- A negative descriptor is taken back. -/
  | negative
  /-- Memory is read past its end. -/
  | overread
  /-- `rte_exit`. -/
  | exit
  /-- The call waits, and nothing has come. -/
  | blocked
  /-- A signed number overflows. -/
  | overflow
deriving DecidableEq

/-- An access through a pointer. -/
def deref {α : Type} : Option α → Except Stop α
  | some a => .ok a
  | none => .error .dangling

/-- `DEFAULT_FD_NUM`. -/
def DEFAULT_FD_NUM : ℕ := 3

/-- `MAX_FD_COUNT`. -/
def MAX_FD_COUNT : ℕ := 1024

/-- `fd_table`: as many bytes as there are descriptors, so most are not used. -/
abbrev FdTable := Vector (BitVec 8) MAX_FD_COUNT

namespace FdTable

/-- An empty table. -/
def zero : FdTable := Vector.replicate MAX_FD_COUNT 0

/-- `fd_table[fd/8]`. -/
def byte (t : FdTable) (fd : ℕ) : BitVec 8 := t[fd / 8]?.getD 0

/-- `0x1 << (fd % 8)`. -/
def bit (fd : ℕ) : BitVec 8 := BitVec.twoPow 8 (fd % 8)

/-- A store to `fd_table[fd/8]`. -/
def store (t : FdTable) (fd : ℕ) (b : BitVec 8) : FdTable := t.setIfInBounds (fd / 8) b

/-- The bit of a descriptor is set. -/
def Taken (t : FdTable) (fd : ℕ) : Prop := t.byte fd &&& bit fd ≠ 0

instance (t : FdTable) (fd : ℕ) : Decidable (t.Taken fd) :=
  inferInstanceAs (Decidable (t.byte fd &&& bit fd ≠ 0))

/-- **`get_fd_frombitmap`.** -/
def getFdFrombitmap (t : FdTable) : ℤ × FdTable :=
  match (List.range' DEFAULT_FD_NUM (MAX_FD_COUNT - DEFAULT_FD_NUM)).find?
    (fun fd => t.byte fd &&& bit fd = 0) with
  | some fd => (fd, t.store fd (t.byte fd ||| bit fd))
  | none => (-1, t)

/-- **`set_fd_frombitmap`.** The shift by a negative remainder, or the index, of
a negative descriptor is undefined. -/
def setFdFrombitmap (t : FdTable) (fd : ℤ) : Except Stop (ℤ × FdTable) :=
  if MAX_FD_COUNT ≤ fd then .ok (-1, t)
  else if fd < 0 then .error .negative
  else .ok (0, t.store fd.toNat (t.byte fd.toNat &&& ~~~(bit fd.toNat)))

/-! ## The table as a set -/

variable {t : FdTable} {fd fd' : ℕ}

theorem taken_iff : t.Taken fd ↔ (t.byte fd).getLsbD (fd % 8) = true := by
  unfold Taken bit
  rw [BitVec.and_twoPow]
  have hlt : fd % 8 < 8 := Nat.mod_lt _ (by decide)
  cases (t.byte fd).getLsbD (fd % 8) with
  | false => simp
  | true =>
    refine iff_of_true (fun hzero => ?_) rfl
    have hbit := congrArg (fun b => b.getLsbD (fd % 8)) hzero
    simp [hlt] at hbit

@[simp] theorem not_taken_zero : ¬ zero.Taken fd := by
  rw [taken_iff]
  unfold zero byte
  rw [Vector.getElem?_replicate]
  split <;> simp

/-- The byte of another descriptor after a store, or of this one. -/
theorem byte_store (h : fd < MAX_FD_COUNT) (b : BitVec 8) :
    (t.store fd b).byte fd' = if fd' / 8 = fd / 8 then b else t.byte fd' := by
  have hindex : fd / 8 < MAX_FD_COUNT := (Nat.div_le_self fd 8).trans_lt h
  unfold store byte
  rw [Vector.getElem?_setIfInBounds]
  by_cases hb : fd' / 8 = fd / 8
  · simp [hb, hindex]
  · simp [hb, Ne.symm hb]

/-- Descriptors that share a byte differ in their bits. -/
theorem mod_eq_iff (hb : fd' / 8 = fd / 8) : fd' % 8 = fd % 8 ↔ fd' = fd := by
  constructor
  · intro hm
    rw [← Nat.div_add_mod fd' 8, hb, hm, Nat.div_add_mod]
  · rintro rfl
    rfl

/-- **A bit is set**, and no other. -/
theorem taken_set_iff (h : fd < MAX_FD_COUNT) :
    (t.store fd (t.byte fd ||| bit fd)).Taken fd' ↔ fd' = fd ∨ t.Taken fd' := by
  rw [taken_iff, taken_iff, byte_store h]
  by_cases hb : fd' / 8 = fd / 8
  · have hbyte : t.byte fd = t.byte fd' := by
      unfold byte
      rw [hb]
    have hlt : fd % 8 < 8 := Nat.mod_lt _ (by decide)
    rw [if_pos hb, BitVec.getLsbD_or, hbyte, bit, BitVec.getLsbD_twoPow, Bool.or_eq_true,
      Bool.and_eq_true, decide_eq_true_iff, decide_eq_true_iff, ← mod_eq_iff hb]
    simp only [hlt, true_and]
    rw [eq_comm (a := fd % 8)]
    exact or_comm
  · have hne : fd' ≠ fd := fun he => hb (by rw [he])
    rw [if_neg hb]
    simp [hne]

/-- **A bit is cleared**, and no other. -/
theorem taken_clear_iff (h : fd < MAX_FD_COUNT) :
    (t.store fd (t.byte fd &&& ~~~(bit fd))).Taken fd' ↔ fd' ≠ fd ∧ t.Taken fd' := by
  rw [taken_iff, taken_iff, byte_store h]
  by_cases hb : fd' / 8 = fd / 8
  · have hbyte : t.byte fd = t.byte fd' := by
      unfold byte
      rw [hb]
    have hlt : fd' % 8 < 8 := Nat.mod_lt _ (by decide)
    have hlt' : ¬ 8 ≤ fd % 8 := (Nat.mod_lt _ (by decide)).not_ge
    rw [if_pos hb, BitVec.getLsbD_and, hbyte, bit, BitVec.getLsbD_not, BitVec.getLsbD_twoPow,
      Ne, ← mod_eq_iff hb, eq_comm (a := fd' % 8)]
    simp [hlt, hlt', and_comm]
  · have hne : fd' ≠ fd := fun he => hb (by rw [he])
    rw [if_neg hb]
    simp [hne]

/-- **`get_fd_frombitmap` takes the lowest descriptor** that is free, if there is one. -/
theorem getFdFrombitmap_least (t : FdTable) :
    (∃ fd : ℕ, IsLeast {fd | DEFAULT_FD_NUM ≤ fd ∧ fd < MAX_FD_COUNT ∧ ¬ t.Taken fd} fd
        ∧ t.getFdFrombitmap = ((fd : ℤ), t.store fd (t.byte fd ||| bit fd)))
      ∨ (t.getFdFrombitmap = (-1, t)
        ∧ ∀ fd, DEFAULT_FD_NUM ≤ fd → fd < MAX_FD_COUNT → t.Taken fd) := by
  have hmem : ∀ fd, fd ∈ List.range' DEFAULT_FD_NUM (MAX_FD_COUNT - DEFAULT_FD_NUM)
      ↔ DEFAULT_FD_NUM ≤ fd ∧ fd < MAX_FD_COUNT := by
    intro fd
    rw [List.mem_range'_1, Nat.add_sub_cancel' (by decide)]
  have hfree : ∀ fd, decide (t.byte fd &&& bit fd = 0) = true ↔ ¬ t.Taken fd := by
    intro fd
    rw [decide_eq_true_iff]
    exact not_not.symm
  unfold getFdFrombitmap
  cases hfind : (List.range' DEFAULT_FD_NUM (MAX_FD_COUNT - DEFAULT_FD_NUM)).find?
    (fun fd => t.byte fd &&& bit fd = 0) with
  | some fd =>
    obtain ⟨hfd, hin, hbefore⟩ := List.find?_range'_eq_some.mp hfind
    obtain ⟨hge, hlt⟩ := (hmem fd).mp hin
    refine Or.inl ⟨fd, ⟨⟨hge, hlt, (hfree fd).mp hfd⟩, fun fd' hfd' => ?_⟩, rfl⟩
    by_contra hless
    have htaken := hbefore fd' hfd'.1 (not_le.mp hless)
    rw [(hfree fd').mpr hfd'.2.2] at htaken
    cases htaken
  | none =>
    refine Or.inr ⟨rfl, fun fd hge hlt => ?_⟩
    by_contra htaken
    exact List.find?_eq_none.mp hfind fd ((hmem fd).mpr ⟨hge, hlt⟩) ((hfree fd).mpr htaken)

/-- **What `get_fd_frombitmap` does**: it takes a descriptor that was free, or
there is none and nothing happens. -/
theorem getFdFrombitmap_cases (t : FdTable) :
    (∃ fd : ℕ, DEFAULT_FD_NUM ≤ fd ∧ fd < MAX_FD_COUNT ∧ ¬ t.Taken fd
        ∧ t.getFdFrombitmap.1 = fd
        ∧ ∀ fd', t.getFdFrombitmap.2.Taken fd' ↔ fd' = fd ∨ t.Taken fd')
      ∨ (t.getFdFrombitmap = (-1, t)
        ∧ ∀ fd, DEFAULT_FD_NUM ≤ fd → fd < MAX_FD_COUNT → t.Taken fd) := by
  rcases getFdFrombitmap_least t with ⟨fd, ⟨⟨hge, hlt, hfree⟩, -⟩, hget⟩ | hfull
  · rw [hget]
    exact Or.inl ⟨fd, hge, hlt, hfree, rfl, fun fd' => taken_set_iff hlt⟩
  · exact Or.inr hfull

/-- **What `set_fd_frombitmap` does** with a descriptor in range. -/
theorem setFdFrombitmap_of_lt (h : fd < MAX_FD_COUNT) :
    ∃ t', t.setFdFrombitmap fd = .ok (0, t') ∧ ∀ fd', t'.Taken fd' ↔ fd' ≠ fd ∧ t.Taken fd' := by
  have hlt : ¬ (MAX_FD_COUNT : ℤ) ≤ fd := not_le.mpr (Int.ofNat_lt.mpr h)
  have hnonneg : ¬ (fd : ℤ) < 0 := not_lt.mpr (Int.natCast_nonneg fd)
  refine ⟨_, ?_, fun fd' => taken_clear_iff h⟩
  unfold setFdFrombitmap
  rw [if_neg hlt, if_neg hnonneg, Int.toNat_natCast]

/-- Where it returns, the descriptor was not negative, and the others stay. -/
theorem taken_of_setFdFrombitmap {t' : FdTable} {fd ret : ℤ}
    (h : t.setFdFrombitmap fd = .ok (ret, t')) :
    0 ≤ fd ∧ ∀ m : ℕ, (m : ℤ) ≠ fd → t.Taken m → t'.Taken m := by
  by_cases hnonneg : 0 ≤ fd
  · refine ⟨hnonneg, fun m hm hmtaken => ?_⟩
    obtain ⟨n, rfl⟩ := Int.eq_ofNat_of_zero_le hnonneg
    by_cases hlt : n < MAX_FD_COUNT
    · obtain ⟨t'', ht'', htaken⟩ := setFdFrombitmap_of_lt (t := t) hlt
      obtain ⟨-, rfl⟩ := Prod.mk.inj (Except.ok.inj (ht''.symm.trans h))
      exact (htaken m).mpr ⟨fun he => hm (congrArg _ he), hmtaken⟩
    · unfold setFdFrombitmap at h
      rw [if_pos (Int.ofNat_le.mpr (not_lt.mp hlt))] at h
      obtain ⟨-, rfl⟩ := Prod.mk.inj (Except.ok.inj h)
      exact hmtaken
  · have hle : ¬ (MAX_FD_COUNT : ℤ) ≤ fd := by
      have := Int.natCast_nonneg MAX_FD_COUNT
      omega
    unfold setFdFrombitmap at h
    rw [if_neg hle, if_pos (not_le.mp hnonneg)] at h
    cases h

/-! ## The table as an allocator -/

/-- **A call**: a descriptor is asked for, or one is taken back. -/
inductive Call where
  | get
  | set (fd : ℕ)

/-- The descriptors that are used. -/
def fds : Finset ℕ := Finset.Ico DEFAULT_FD_NUM MAX_FD_COUNT

/-- A descriptor that is taken back is one that is used. -/
def Call.InRange : Call → Prop
  | .get => True
  | .set fd => fd ∈ fds

/-- The lowest descriptor that is not in a set is given out, if there is one. -/
def allocate (S : Finset ℕ) : ℤ × Finset ℕ :=
  if h : (fds \ S).Nonempty then ((fds \ S).min' h, insert ((fds \ S).min' h) S) else (-1, S)

/-- **What the table is for**: the descriptors that were given out and not taken back. -/
def allocator : Spec (Finset ℕ) Call ℤ
  | S, .get => allocate S
  | S, .set fd => (0, S.erase fd)

/-- **The table**, call by call. -/
def machine : Machine FdTable Call ℤ
  | t, .get => some t.getFdFrombitmap
  | t, .set fd => (t.setFdFrombitmap fd).toOption

/-- The bits of the table are the descriptors of a set. -/
def Represents (t : FdTable) (S : Finset ℕ) : Prop := ∀ fd, t.Taken fd ↔ fd ∈ S

/-- A descriptor is taken. -/
theorem Represents.get {S : Finset ℕ} (h : t.Represents S) :
    t.getFdFrombitmap.1 = (allocate S).1 ∧ t.getFdFrombitmap.2.Represents (allocate S).2 := by
  have hfree : ∀ fd, fd ∈ fds \ S ↔ DEFAULT_FD_NUM ≤ fd ∧ fd < MAX_FD_COUNT ∧ ¬ t.Taken fd := by
    intro fd
    rw [Finset.mem_sdiff, fds, Finset.mem_Ico, h fd, and_assoc]
  unfold allocate
  rcases getFdFrombitmap_least t with ⟨fd, hleast, hget⟩ | ⟨hget, hfull⟩
  · have hne : (fds \ S).Nonempty := ⟨fd, (hfree fd).mpr hleast.1⟩
    have hmin : (fds \ S).min' hne = fd := by
      refine (Finset.isLeast_min' _ hne).unique ⟨(hfree fd).mpr hleast.1, fun fd' hfd' => ?_⟩
      exact hleast.2 ((hfree fd').mp hfd')
    rw [dif_pos hne, hmin, hget]
    refine ⟨rfl, fun fd' => ?_⟩
    rw [taken_set_iff hleast.1.2.1, h fd', Finset.mem_insert]
  · have hnone : ¬ (fds \ S).Nonempty := by
      rintro ⟨fd, hfd⟩
      obtain ⟨hge, hlt, hnot⟩ := (hfree fd).mp hfd
      exact hnot (hfull fd hge hlt)
    rw [dif_neg hnone, hget]
    exact ⟨rfl, h⟩

/-- **The table simulates the allocator.** -/
theorem machine_simulates :
    Simulates machine allocator id (fun _ call => call.InRange) Represents := by
  intro t S call h hcall
  cases call with
  | get =>
    obtain ⟨hret, hrep⟩ := h.get
    exact ⟨t.getFdFrombitmap.2, congrArg some (Prod.ext hret rfl), hrep⟩
  | set fd =>
    obtain ⟨t', hset, htaken⟩ := setFdFrombitmap_of_lt (t := t) (Finset.mem_Ico.mp hcall).2
    refine ⟨t', congrArg Except.toOption hset, fun fd' => ?_⟩
    rw [htaken fd', h fd']
    exact Finset.mem_erase.symm

/-- **The table is a set allocator**: whatever the calls, they return what the allocator
returns, and the bits are the descriptors given out and not taken back. -/
theorem allocates (calls : List Call) (h : ∀ call ∈ calls, call.InRange) :
    ∃ t, machine.run zero calls = some ((allocator.run ∅ calls).1, t)
      ∧ ∀ fd, t.Taken fd ↔ fd ∈ (allocator.run ∅ calls).2 := by
  have hempty : zero.Represents ∅ := fun fd =>
    iff_of_false not_taken_zero (Finset.notMem_empty fd)
  have halong : allocator.Along (fun _ call => call.InRange) ∅ (calls.map id) :=
    .of_forall_mem (by simpa using h)
  have hrun := machine_simulates.run hempty halong
  rwa [List.map_id] at hrun

/-- Two descriptors are asked for, and the first is taken back and asked for again. -/
theorem allocates_again : ∃ t, machine.run zero [.get, .get, .set 3, .get]
      = some ((allocator.run ∅ [.get, .get, .set 3, .get]).1, t)
    ∧ ∀ fd, t.Taken fd ↔ fd ∈ (allocator.run ∅ [.get, .get, .set 3, .get]).2 :=
  allocates _ (by
    intro call hcall
    fin_cases hcall
    · trivial
    · trivial
    · exact Finset.mem_Ico.mpr (by decide)
    · trivial)

end FdTable

end Ustack
