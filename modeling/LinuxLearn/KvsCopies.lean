import LinuxLearn.KvsArray
import LinuxLearn.KvsHash
import LinuxLearn.KvsRbtree
import LinuxLearn.KvsSkiptable

/-!
# What an engine keeps of its arguments

Every string an engine holds is a copy of a key or of a value it was
called with: whatever all the strings satisfied before a call and its
arguments satisfy, all satisfy after it. This holds in every state, also
in those that a failed allocation leaves behind, so it says nothing about
the data structures and needs none of their invariants.
-/

variable {E : Type} {P : CString → Prop}

/-- **An engine copies its arguments**: a property of all its strings, of the
key and of the value is a property of all its strings after the call. -/
structure Copies (ops : KvsOps E) : Prop where
  set : ∀ {P : CString → Prop} {s k v env}, (ops.strs s).All P → P k → P v →
    Post (ops.set s (some k) (some v) env) (fun r => (ops.strs r.2).All P)
  del : ∀ {P : CString → Prop} {s k}, (ops.strs s).All P →
    Post (ops.del s (some k)) (fun r => (ops.strs r.2).All P)
  mod : ∀ {P : CString → Prop} {s k v env}, (ops.strs s).All P → P v →
    Post (ops.mod s (some k) (some v) env) (fun r => (ops.strs r.2).All P)

/-- The arguments of a call that are kept satisfy `P`. -/
def KvsOp.Keeps (P : CString → Prop) : KvsOp → Prop
  | .set k v => P k ∧ P v
  | .mod _ v => P v
  | _ => True

/-- The string a call returns, if any, satisfies `P`. -/
def KvsRes.Gives (P : CString → Prop) : KvsRes → Prop
  | .value (some v) => P v
  | _ => True

/-- **One call of an engine that copies its arguments.** -/
theorem Copies.machine {ops : KvsOps E} (h : Copies ops) {s : E} {op : KvsOp} (env : Env)
    (hs : (ops.strs s).All P) (hop : op.Keeps P) :
    Post (ops.machine s (op, env)) (fun r => r.1.Gives P ∧ (ops.strs r.2).All P) := by
  cases op with
  | set k v => exact .bind (h.set hs hop.1 hop.2) (fun r hr => .pure ⟨trivial, hr⟩)
  | get k =>
    refine .after (fun p => .ite (.pure ⟨trivial, hs⟩) ?_)
    exact .bind (R := P) (hs p) (fun v hv => .pure ⟨hv, hs⟩)
  | del k => exact .bind (h.del hs) (fun r hr => .pure ⟨trivial, hr⟩)
  | mod k v => exact .bind (h.mod hs hop) (fun r hr => .pure ⟨trivial, hr⟩)
  | exist k => exact .after (fun c => .pure ⟨trivial, hs⟩)

/-! ## The array -/

namespace KvsArray

theorem create_strs (inst : KvsArray) (garbage : Vector KvsArrayItem KVS_ARRAY_SIZE) (env : Env) :
    (kvsArrayCreate inst garbage env).2.strs = inst.strs := by
  unfold kvsArrayCreate
  split
  · rfl
  · split <;> rfl

theorem setSlot_strs (inst : KvsArray) (i : ℤ) (item : KvsArrayItem) :
    Post (inst.setSlot i item) (fun inst' => inst'.strs = inst.strs) :=
  .after (fun _ => .ite (.pure rfl) (fun _ he => nomatch he))

theorem shift_strs (n : ℕ) : ∀ (inst : KvsArray) (j : ℕ),
    Post (kvsArrayShift inst n j) (fun inst' => inst'.strs = inst.strs) := by
  induction n with
  | zero => exact fun inst j => .pure rfl
  | succ n ih =>
    refine fun inst j => .after (fun item => .bind (setSlot_strs inst j item) (fun inst' h => ?_))
    exact (ih inst' (j + 1)).mono (fun _ h' => h'.trans h)

/-- **The array copies its arguments.** -/
theorem copies : Copies kvsArrayOps where
  set := fun {P s k v env} hs hk hv => by
    have hkey := hs.malloc (env.malloc 0) hk
    refine .ite (.pure hs) (.after (fun str => .ite (.pure hs) (.ite (.pure hkey) ?_)))
    have hvalue := hkey.malloc (env.malloc 1) hv
    refine .ite (.bind (hvalue.free _) (fun strs h => .pure h)) ?_
    refine .bind (setSlot_strs _ _ _) (fun inst h => .pure ?_)
    show inst.strs.All P
    rw [h]
    exact hvalue
  del := fun {P s k} hs => by
    refine .after (fun found => ?_)
    cases found with
    | none => exact .pure hs
    | some i =>
      refine .after (fun item => .bind (hs.free item.key) (fun strs h => ?_))
      refine .bind (h.free item.value) (fun strs h => ?_)
      refine .bind (shift_strs _ _ _) (fun inst h₁ => ?_)
      refine .bind (setSlot_strs _ _ _) (fun inst' h₂ => .pure ?_)
      show inst'.strs.All P
      rw [h₂, h₁]
      exact h
  mod := fun {P s k v env} hs hv => by
    refine .ite (.pure hs) (.after (fun found => ?_))
    cases found with
    | none => exact .pure hs
    | some i =>
      refine .after (fun item => .bind (hs.free item.value) (fun strs h => ?_))
      have hvalue := h.malloc (env.malloc 0) hv
      refine .ite (.pure hvalue) (.bind (setSlot_strs _ _ _) (fun inst h => .pure ?_))
      show inst.strs.All P
      rw [h]
      exact hvalue

end KvsArray

/-! ## The hash table -/

namespace KvsHash

theorem create_strs (hash : KvsHash) (env : Env) :
    (kvsHashCreate hash env).2.strs = hash.strs := by
  unfold kvsHashCreate
  split <;> rfl

theorem setBucket_strs (hash : KvsHash) (idx : ℤ) (p : Ptr) :
    Post (hash.setBucket idx p) (fun hash' => hash'.strs = hash.strs) :=
  .after (fun _ => .ite (.pure rfl) (fun _ he => nomatch he))

theorem setNext_strs (hash : KvsHash) (p q : Ptr) :
    Post (hash.setNext p q) (fun hash' => hash'.strs = hash.strs) :=
  .after (fun _ => .pure rfl)

theorem createNode_all {hash : KvsHash} {k v : CString} (env : Env) (hs : hash.strs.All P)
    (hk : P k) (hv : P v) : Post (createNode hash k v env) (fun r => r.2.strs.All P) := by
  have hkey := hs.malloc (env.malloc 1) hk
  have hvalue := hkey.malloc (env.malloc 2) hv
  refine .ite (.pure hs) (.ite (.after (fun mem => .pure hkey)) (.after (fun mem => ?_)))
  refine .ite (.after (fun mem => .bind (hvalue.free _) (fun strs h => .pure h))) ?_
  exact .after (fun mem => .after (fun mem => .pure hvalue))

/-- **The hash table copies its arguments.** -/
theorem copies : Copies kvsHashOps where
  set := fun {P s k v env} hs hk hv => by
    refine .after (fun node => .after (fun node => .ite (.pure hs) ?_))
    refine .bind (createNode_all env hs hk hv) (fun r h => .ite (.pure h) ?_)
    refine .after (fun head => .bind (setNext_strs _ _ _) (fun hash h₁ => ?_))
    refine .bind (setBucket_strs _ _ _) (fun hash' h₂ => .pure ?_)
    show hash'.strs.All P
    rw [h₂, h₁]
    exact h
  del := fun {P s k} hs => by
    refine .after (fun head => .ite (.pure hs) (.after (fun k' => .ite ?_ ?_)))
    · refine .after (fun n => .bind (hs.free n.key) (fun strs h => ?_))
      refine .bind (h.free n.value) (fun strs h => .bind (setBucket_strs _ _ _) (fun hash h₁ => ?_))
      refine .after (fun mem => .pure ?_)
      show hash.strs.All P
      rw [h₁]
      exact h
    · refine .after (fun cur => .after (fun tmp => .ite (.pure hs) (.after (fun next => ?_))))
      refine .bind (setNext_strs _ _ _) (fun hash h₁ => .after (fun n => ?_))
      have hs' : hash.strs.All P := by
        rw [h₁]
        exact hs
      refine .bind (hs'.free n.key) (fun strs h => .bind (h.free n.value) (fun strs h => ?_))
      exact .after (fun mem => .pure h)
  mod := fun {P s k v env} hs hv => by
    refine .after (fun node => .after (fun node => .ite (.pure hs) (.after (fun n => ?_))))
    refine .bind (hs.free n.value) (fun strs h => ?_)
    have hvalue := h.malloc (env.malloc 0) hv
    exact .ite (.pure hvalue) (.after (fun mem => .pure hvalue))

end KvsHash

/-! ## The skip list -/

namespace KvsSkiptable

theorem setForward_strs (table : KvsSkiptable) (i : ℕ) (p q : Ptr) :
    Post (table.setForward i p q) (fun table' => table'.strs = table.strs) :=
  .ite (.after (fun _ => .pure rfl)) (fun _ he => nomatch he)

theorem createNode_all {table : KvsSkiptable} {k v : CString} (level : ℕ) (env : Env)
    (hs : table.strs.All P) (hk : P k) (hv : P v) :
    Post (skiptableCreateNode table (some k) (some v) level env) (fun r => r.2.strs.All P) := by
  have hkey := hs.malloc (env.malloc 1) hk
  have hvalue := hkey.malloc (env.malloc 2) hv
  refine .ite (.pure hs) (.ite (.after (fun nodes => .pure hkey)) (.after (fun nodes => ?_)))
  refine .ite (.bind (hvalue.free _) (fun strs h => .after (fun nodes => .pure h))) ?_
  exact .after (fun nodes => .pure hvalue)

theorem create_strs (table : KvsSkiptable) (env : Env) :
    Post (kvsSkiptableCreate table env) (fun r => r.2.strs = table.strs) := by
  refine .bind (R := fun r => r.2.strs = table.strs) ?_ (fun r h => .ite (.pure h) (.pure h))
  refine .ite (.pure rfl) (.ite (.after (fun nodes => .pure rfl)) (.after (fun nodes => ?_)))
  -- the head has no key, and freeing a null pointer does nothing
  refine .ite (.bind (R := fun strs => strs = table.strs) (.pure rfl) (fun strs h => ?_)) ?_
  · exact .after (fun nodes => .pure h)
  · exact .after (fun nodes => .pure rfl)

theorem link_strs (node : Ptr) (update : Vector Ptr SKIPTABLE_MAX_LEVEL) (n : ℕ) :
    ∀ (i : ℕ) (table : KvsSkiptable),
      Post (skiptableLink node update n i table) (fun table' => table'.strs = table.strs) := by
  induction n with
  | zero => exact fun i table => .pure rfl
  | succ n ih =>
    refine fun i table => .after (fun prev => .after (fun next => ?_))
    refine .bind (setForward_strs _ _ _ _) (fun table₁ h₁ => ?_)
    refine .bind (setForward_strs _ _ _ _) (fun table₂ h₂ => ?_)
    exact (ih (i + 1) table₂).mono (fun _ h => h.trans (h₂.trans h₁))

theorem unlink_strs (cur : Ptr) (update : Vector Ptr SKIPTABLE_MAX_LEVEL) (n : ℕ) :
    ∀ (i : ℕ) (table : KvsSkiptable),
      Post (skiptableUnlink cur update n i table) (fun table' => table'.strs = table.strs) := by
  induction n with
  | zero => exact fun i table => .pure rfl
  | succ n ih =>
    refine fun i table => .after (fun prev => .after (fun next => .ite (.pure rfl) ?_))
    refine .after (fun next => .bind (setForward_strs _ _ _ _) (fun table₁ h₁ => ?_))
    exact (ih (i + 1) table₁).mono (fun _ h => h.trans h₁)

/-- **The skip list copies its arguments.** -/
theorem copies : Copies kvsSkiptableOps where
  set := fun {P s k v env} hs hk hv => by
    refine .after (fun found => .after (fun cur => .after (fun hit => .ite (.pure hs) ?_)))
    refine .bind (createNode_all _ env hs hk hv) (fun r h => .ite (.pure h) ?_)
    refine .bind (link_strs _ _ _ _ _) (fun table h₁ => .pure ?_)
    show table.strs.All P
    rw [h₁]
    exact h
  del := fun {P s k} hs => by
    refine .after (fun found => .after (fun cur => .after (fun hit => .ite ?_ (.pure hs))))
    refine .bind (unlink_strs _ _ _ _ _) (fun table h₁ => .after (fun n => ?_))
    have hs' : table.strs.All P := by
      rw [h₁]
      exact hs
    refine .bind (hs'.free n.key) (fun strs h => .bind (h.free n.value) (fun strs h => ?_))
    exact .after (fun nodes => .after (fun level => .pure h))
  mod := fun {P s k v env} hs hv => by
    have hvalue := hs.malloc (env.malloc 0) hv
    refine .after (fun node => .ite (.pure hs) (.ite (.pure hvalue) (.after (fun n => ?_))))
    exact .bind (hvalue.free n.value) (fun strs h => .after (fun nodes => .pure h))

end KvsSkiptable

/-! ## The red-black tree -/

namespace KvsRbtree

open RedBlack

variable {T : KvsRbtree} {S : Heap CString}

/-- The tree's strings are those of `S`. -/
def Strs (S : Heap CString) (T : KvsRbtree) : Prop := T.strs = S

/-- The strings are those of `S`, after a step that also moves a pointer. -/
def StrsAt (S : Heap CString) (r : KvsRbtree × Ptr) : Prop := Strs S r.1

theorem write_strs (h : Strs S T) (p : Ptr) (f : RbNode → RbNode) : Post (T.write p f) (Strs S) :=
  .after (fun _ => .pure h)

theorem create_strs (inst : KvsRbtree) (env : Env) :
    Post (kvsRbtreeCreate inst env) (fun r => Strs inst.strs r.2) := by
  refine .ite (.pure rfl) (.bind (write_strs rfl _ _) (fun T h => ?_))
  refine .bind (write_strs h _ _) (fun T h => .bind (write_strs h _ _) (fun T h => ?_))
  exact .bind (write_strs h _ _) (fun T h => .pure h)

theorem relink_strs (h : Strs S T) (d : Side) (x y : Ptr) :
    Post (rbtreeRelink d T x y) (Strs S) :=
  .after (fun _ => .ite (.pure h) (.after (fun _ =>
    .ite (write_strs h _ _) (write_strs h _ _))))

theorem rotate_strs (h : Strs S T) (d : Side) (x : Ptr) : Post (rbtreeRotate d T x) (Strs S) := by
  refine .after (fun y => .after (fun b => .bind (write_strs h _ _) (fun T h => ?_)))
  refine .after (fun b => .bind (.ite (write_strs h _ _) (.pure h)) (fun T h => ?_))
  refine .after (fun p => .bind (write_strs h _ _) (fun T h => ?_))
  refine .bind (relink_strs h d x y) (fun T h => .bind (write_strs h _ _) (fun T h => ?_))
  exact write_strs h _ _

/-! ### Insertion -/

theorem insertRecolor_strs (h : Strs S T) (z y : Ptr) :
    Post (rbtreeInsertRecolor T z y) (StrsAt S) := by
  refine .after (fun _ => .bind (write_strs h _ _) (fun T h => ?_))
  refine .bind (write_strs h _ _) (fun T h => .after (fun _ => .after (fun _ => ?_)))
  exact .bind (write_strs h _ _) (fun T h => .after (fun _ => .after (fun _ => .pure h)))

theorem insertInner_strs (h : Strs S T) (d : Side) (z : Ptr) :
    Post (rbtreeInsertInner d T z) (StrsAt S) := by
  refine .after (fun _ => .after (fun _ => .ite (.after (fun z => ?_)) (.pure h)))
  exact .bind (rotate_strs h d z) (fun T h => .pure h)

theorem insertRotate_strs (h : Strs S T) (d : Side) (z : Ptr) :
    Post (rbtreeInsertRotate d T z) (StrsAt S) := by
  refine .bind (insertInner_strs h d z) (fun r h => .after (fun _ => ?_))
  refine .bind (write_strs h _ _) (fun T h => .after (fun _ => .after (fun _ => ?_)))
  refine .bind (write_strs h _ _) (fun T h => .after (fun _ => .after (fun _ => ?_)))
  exact .bind (rotate_strs h _ _) (fun T h => .pure h)

theorem insertFixupStep_strs (h : Strs S T) (d : Side) (z : Ptr) :
    Post (rbtreeInsertFixupStep d T z) (StrsAt S) :=
  .after (fun _ => .after (fun _ => .after (fun _ => .after (fun _ =>
    .ite (insertRecolor_strs h _ _) (insertRotate_strs h _ _)))))

theorem insertFixupLoop_strs (fuel : ℕ) : ∀ {T : KvsRbtree} (_ : Strs S T) (z : Ptr),
    Post (rbtreeInsertFixupLoop fuel T z) (Strs S) := by
  induction fuel with
  | zero => exact fun _ _ _ he => nomatch he
  | succ fuel ih =>
    refine fun h z => .after (fun zp => .after (fun c => .ite (.after (fun zpp => ?_)) (.pure h)))
    exact .after (fun l => .bind (insertFixupStep_strs h _ z) (fun r h => ih h r.2))

theorem attach_strs (h : Strs S T) (y z : Ptr) : Post (rbtreeAttach T y z) (Strs S) :=
  .ite (.pure h) (.after (fun _ => .after (fun _ =>
    .ite (write_strs h _ _) (write_strs h _ _))))

theorem place_strs (h : Strs S T) (y z : Ptr) : Post (rbtreePlace T y z) (Strs S) := by
  refine .bind (write_strs h _ _) (fun T h => .bind (attach_strs h y z) (fun T h => ?_))
  refine .bind (write_strs h _ _) (fun T h => .bind (write_strs h _ _) (fun T h => ?_))
  exact write_strs h _ _

/-- `rbtree_insert` leaves the strings alone. -/
theorem insert_strs (h : Strs S T) (z : Ptr) : Post (rbtreeInsert T z) (Strs S) := by
  refine .after (fun found => ?_)
  cases found with
  | none => exact .pure h
  | some y =>
    refine .bind (place_strs h y z) (fun T h => ?_)
    exact .bind (insertFixupLoop_strs _ h z) (fun T h => write_strs h _ _)

/-! ### Deletion -/

theorem deleteRedSibling_strs (h : Strs S T) (d : Side) (x w : Ptr) :
    Post (rbtreeDeleteRedSibling d T x w) (StrsAt S) := by
  refine .after (fun _ => .ite (.bind (write_strs h _ _) (fun T h => .after (fun _ => ?_))) (.pure h))
  refine .bind (write_strs h _ _) (fun T h => .after (fun _ => ?_))
  exact .bind (rotate_strs h _ _) (fun T h => .after (fun _ => .after (fun _ => .pure h)))

theorem deleteFarBlack_strs (h : Strs S T) (d : Side) (x w : Ptr) :
    Post (rbtreeDeleteFarBlack d T x w) (StrsAt S) := by
  refine .after (fun _ => .after (fun _ => .ite (.after (fun _ => ?_)) (.pure h)))
  refine .bind (write_strs h _ _) (fun T h => .bind (write_strs h _ _) (fun T h => ?_))
  exact .bind (rotate_strs h _ _) (fun T h => .after (fun _ => .after (fun _ => .pure h)))

theorem deleteFarRed_strs (h : Strs S T) (d : Side) (x w : Ptr) :
    Post (rbtreeDeleteFarRed d T x w) (StrsAt S) := by
  refine .after (fun _ => .after (fun _ => .bind (write_strs h _ _) (fun T h => .after (fun _ => ?_))))
  refine .bind (write_strs h _ _) (fun T h => .after (fun _ => ?_))
  refine .bind (write_strs h _ _) (fun T h => .after (fun _ => ?_))
  exact .bind (rotate_strs h _ _) (fun T h => .pure h)

theorem deleteFixupStep_strs (h : Strs S T) (d : Side) (x : Ptr) :
    Post (rbtreeDeleteFixupStep d T x) (StrsAt S) := by
  refine .after (fun _ => .after (fun w => .bind (deleteRedSibling_strs h d x w) (fun r h => ?_)))
  refine .after (fun black => .ite ?_ ?_)
  · exact .bind (write_strs h _ _) (fun T h => .after (fun _ => .pure h))
  · exact .bind (deleteFarBlack_strs h d x _) (fun r h => deleteFarRed_strs h d x r.2)

theorem deleteFixupLoop_strs (fuel : ℕ) : ∀ {T : KvsRbtree} (_ : Strs S T) (x : Ptr),
    Post (rbtreeDeleteFixupLoop fuel T x) (StrsAt S) := by
  induction fuel with
  | zero => exact fun _ _ _ he => nomatch he
  | succ fuel ih =>
    refine fun h x => .ite (.after (fun c => .ite ?_ (.pure h))) (.pure h)
    refine .after (fun _ => .after (fun l => ?_))
    exact .bind (deleteFixupStep_strs h _ x) (fun r h => ih h r.2)

theorem swap_strs (h : Strs S T) (y z : Ptr) : Post (rbtreeSwap T y z) (Strs S) := by
  refine .after (fun ny => .after (fun nz => .bind (write_strs h _ _) (fun T h => ?_)))
  refine .bind (write_strs h _ _) (fun T h => .bind (write_strs h _ _) (fun T h => ?_))
  exact write_strs h _ _

/-- `rbtree_delete` leaves the strings alone. -/
theorem delete_strs (h : Strs S T) (z : Ptr) :
    Post (rbtreeDelete T z) (fun r => Strs S r.2) := by
  refine .after (fun y => .after (fun x => .bind (R := Strs S) ?_ (fun T h => ?_)))
  · exact .after (fun _ => .bind (write_strs h _ _) (fun T h => relink_strs h _ _ _))
  refine .bind (.ite (swap_strs h y z) (.pure h)) (fun T h => .after (fun color => ?_))
  refine .bind (R := Strs S) (.ite ?_ (.pure h)) (fun T h => .pure h)
  exact .bind (deleteFixupLoop_strs _ h x) (fun r h => write_strs h _ _)

/-- **The red-black tree copies its arguments.** -/
theorem copies : Copies kvsRbtreeOps where
  set := fun {P s k v env} hs hk hv => by
    have hkey := hs.malloc (env.malloc 1) hk
    refine .after (fun node => .ite (.pure hs) (.ite (.pure hs) ?_))
    refine .bind (write_strs rfl _ _) (fun T h => ?_)
    have hkey' : T.strs.All P := by
      rw [h]
      exact hkey
    refine .ite (.after (fun nodes => .pure hkey')) ?_
    have hvalue := hkey'.malloc (env.malloc 2) hv
    refine .bind (write_strs rfl _ _) (fun T' h' => ?_)
    have hvalue' : T'.strs.All P := by
      rw [h']
      exact hvalue
    refine .ite (.bind (hvalue'.free _) (fun strs h => .after (fun nodes => .pure h))) ?_
    refine .bind (insert_strs rfl _) (fun T'' h'' => .pure ?_)
    show T''.strs.All P
    rw [h'']
    exact hvalue'
  del := fun {P s k} hs => by
    refine .after (fun node => .ite (.pure hs) (.bind (delete_strs rfl _) (fun r h => ?_)))
    have hs' : r.2.strs.All P := by
      rw [h]
      exact hs
    refine .after (fun n => .bind (hs'.free n.key) (fun strs h => ?_))
    exact .bind (h.free n.value) (fun strs h => .after (fun nodes => .pure h))
  mod := fun {P s k v env} hs hv => by
    refine .after (fun node => .ite (.pure hs) (.ite (.pure hs) (.after (fun n => ?_))))
    refine .bind (hs.free n.value) (fun strs h => ?_)
    have hvalue := h.malloc (env.malloc 0) hv
    refine .bind (write_strs rfl _ _) (fun T h => ?_)
    have hvalue' : T.strs.All P := by
      rw [h]
      exact hvalue
    exact .ite (.pure hvalue') (.pure hvalue')

end KvsRbtree
