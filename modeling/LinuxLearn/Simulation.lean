import Mathlib.Tactic

/-!
# Machines and simulations

A program that serves one request after another is a **machine**: a step
takes a state and an input to an output and the next state, and has no
result where the program's behaviour is undefined. What the program is
for is a **specification**: a total step on abstract states.

A simulation relates the two by a relation that every step keeps while
both produce the same output; `Simulates.run` lifts it to runs of any
length, which then return and produce what the specification produces.
Steps may be assumed to satisfy a condition on the abstract state they
are taken in (`Along`), for programs that meet their specification only
under one.

Where a step tells why it has no result, it is a computation that may fail,
made of others one after another.
-/

section Except

variable {ε α β : Type} {o : Except ε α} {f : α → Except ε β} {a : α}

/-- A call that returns, followed by another. -/
theorem bind_ok {r : Except ε β} (h : o = .ok a) (hf : f a = r) : (o >>= f) = r := by
  rw [h]
  exact hf

/-- A bind that returns is a call that returns, and another. -/
theorem exists_of_bind_eq_ok {b : β} (h : (o >>= f) = .ok b) : ∃ a, o = .ok a ∧ f a = .ok b := by
  cases o with
  | error e => cases h
  | ok a => exact ⟨a, rfl, h⟩

/-- A bind that goes wrong is a call that does, or one that returns and another that does. -/
theorem of_bind_eq_error {e : ε} (h : (o >>= f) = .error e) :
    o = .error e ∨ ∃ a, o = .ok a ∧ f a = .error e := by
  cases o with
  | error e' => exact Or.inl (congrArg Except.error (Except.error.inj h))
  | ok a => exact Or.inr ⟨a, rfl, h⟩

/-- What is read off a result is read off what was returned. -/
theorem exists_of_map_eq_ok {g : α → β} {b : β} (h : o.map g = .ok b) : ∃ a, o = .ok a ∧ g a = b := by
  cases o with
  | error e => cases h
  | ok a => exact ⟨a, rfl, Except.ok.inj h⟩

/-- What has a result has returned. -/
theorem eq_ok_of_toOption (h : o.toOption = some a) : o = .ok a := by
  cases o with
  | error e => cases h
  | ok b => exact congrArg Except.ok (Option.some.inj h)

end Except

variable {σ τ ι κ ρ : Type}

/-- **A machine**: one step from a state on an input, undefined where it has
no result. -/
def Machine (σ ι ρ : Type) : Type := σ → ι → Option (ρ × σ)

/-- **A specification**: a machine whose steps always have a result. -/
def Spec (τ κ ρ : Type) : Type := τ → κ → ρ × τ

namespace Machine

/-- A run of a machine over a list of inputs, with the outputs in order. -/
def run (M : Machine σ ι ρ) : σ → List ι → Option (List ρ × σ)
  | s, [] => some ([], s)
  | s, i :: is => do
    let (r, s) ← M s i
    let (rs, s) ← M.run s is
    return (r :: rs, s)

theorem run_cons (M : Machine σ ι ρ) (s : σ) (i : ι) (is : List ι) :
    M.run s (i :: is)
      = (M s i).bind (fun p => (M.run p.2 is).map (fun q => (p.1 :: q.1, q.2))) := by
  show (do let (r, s) ← M s i; let (rs, s) ← M.run s is; return (r :: rs, s)) = _
  cases M s i with
  | none => rfl
  | some p =>
    show (do let (rs, s) ← M.run p.2 is; return (p.1 :: rs, s)) = _
    cases h : M.run p.2 is with
    | none => simp [h]
    | some q => simp [h]

/-- A step and then a run is a run. -/
theorem run_cons_of_eq {M : Machine σ ι ρ} {s s' s'' : σ} {i : ι} {is : List ι} {r : ρ}
    {rs : List ρ} (hstep : M s i = some (r, s')) (hrun : M.run s' is = some (rs, s'')) :
    M.run s (i :: is) = some (r :: rs, s'') := by
  simp [run_cons, hstep, hrun]

/-- A run of at least one step starts with a step. -/
theorem eq_of_run_cons {M : Machine σ ι ρ} {s s'' : σ} {i : ι} {is : List ι}
    {out : List ρ} (h : M.run s (i :: is) = some (out, s'')) :
    ∃ r s' rs, M s i = some (r, s') ∧ M.run s' is = some (rs, s'') ∧ out = r :: rs := by
  rw [run_cons] at h
  obtain ⟨⟨r, s'⟩, hstep, h⟩ := Option.bind_eq_some_iff.mp h
  obtain ⟨⟨rs, t⟩, hrun, h⟩ := Option.map_eq_some_iff.mp h
  obtain ⟨rfl, rfl⟩ := Prod.mk.inj h
  exact ⟨r, s', rs, hstep, hrun, rfl⟩

/-- A run and then a step is a run. -/
theorem run_concat_of_eq {M : Machine σ ι ρ} {is : List ι} {s s' s'' : σ} {i : ι} {rs : List ρ}
    {r : ρ} (hrun : M.run s is = some (rs, s')) (hstep : M s' i = some (r, s'')) :
    M.run s (is ++ [i]) = some (rs ++ [r], s'') := by
  induction is generalizing s rs with
  | nil =>
    obtain ⟨rfl, rfl⟩ := Prod.mk.inj (Option.some.inj hrun)
    exact run_cons_of_eq hstep rfl
  | cons j is ih =>
    obtain ⟨r', t, rs', ht, hrest, rfl⟩ := eq_of_run_cons hrun
    exact run_cons_of_eq ht (ih hrest)

/-- A machine on translated inputs. -/
def comap (M : Machine σ ι ρ) (f : κ → ι) : Machine σ κ ρ := fun s k => M s (f k)

/-- Translating the inputs one by one, or all at once. -/
theorem run_comap (M : Machine σ ι ρ) (f : κ → ι) (is : List κ) (s : σ) :
    (M.comap f).run s is = M.run s (is.map f) := by
  induction is generalizing s with
  | nil => rfl
  | cons k is ih =>
    rw [List.map_cons, run_cons, run_cons]
    show (M s (f k)).bind _ = (M s (f k)).bind _
    congr 1
    funext p
    rw [ih]

/-- **The invariant rule for runs**: a property that every step on an
admissible input keeps, while its output satisfies `Q`, holds after every
run, all of whose outputs satisfy `Q`. -/
theorem run_invariant {M : Machine σ ι ρ} {I : σ → Prop} {P : ι → Prop} {Q : ρ → Prop}
    (hstep : ∀ s i r s', I s → P i → M s i = some (r, s') → I s' ∧ Q r) :
    ∀ {is : List ι} {s s' : σ} {rs : List ρ}, I s → (∀ i ∈ is, P i) →
      M.run s is = some (rs, s') → I s' ∧ ∀ r ∈ rs, Q r := by
  intro is
  induction is with
  | nil =>
    intro s s' rs hI _ hrun
    obtain ⟨rfl, rfl⟩ := Prod.mk.inj (Option.some.inj hrun)
    exact ⟨hI, fun r hr => absurd hr List.not_mem_nil⟩
  | cons i is ih =>
    intro s s' rs hI hP hrun
    obtain ⟨r, t, rs, hs, ht, rfl⟩ := eq_of_run_cons hrun
    obtain ⟨hIt, hQ⟩ := hstep s i r t hI (hP i List.mem_cons_self) hs
    obtain ⟨hI', hQs⟩ := ih hIt (fun j hj => hP j (List.mem_cons_of_mem i hj)) ht
    refine ⟨hI', fun q hq => ?_⟩
    rcases List.mem_cons.mp hq with rfl | hq
    · exact hQ
    · exact hQs q hq

/-- **A property of every step of a run**: each step returns, and `P` holds
of the state before it, its input, its output and the state after it. -/
def Holds (M : Machine σ ι ρ) (P : σ → ι → ρ → σ → Prop) : σ → List ι → Prop
  | _, [] => True
  | s, i :: is => ∃ r s', M s i = some (r, s') ∧ P s i r s' ∧ M.Holds P s' is

/-- Two step properties that agree on every step from a state of an invariant hold
along the same runs. -/
theorem holds_congr {M : Machine σ ι ρ} {I : σ → Prop} {P Q : σ → ι → ρ → σ → Prop}
    (hstep : ∀ s i r s', I s → M s i = some (r, s') → I s' ∧ (P s i r s' ↔ Q s i r s')) :
    ∀ {is : List ι} {s : σ}, I s → (M.Holds P s is ↔ M.Holds Q s is) := by
  intro is
  induction is with
  | nil => exact fun _ => Iff.rfl
  | cons i is ih =>
    intro s hI
    constructor
    · rintro ⟨r, s', hs, hP, hrest⟩
      obtain ⟨hI', hPQ⟩ := hstep s i r s' hI hs
      exact ⟨r, s', hs, hPQ.mp hP, (ih hI').mp hrest⟩
    · rintro ⟨r, s', hs, hQ, hrest⟩
      obtain ⟨hI', hPQ⟩ := hstep s i r s' hI hs
      exact ⟨r, s', hs, hPQ.mpr hQ, (ih hI').mpr hrest⟩

/-- A property of every step is one of the last. -/
theorem Holds.last {M : Machine σ ι ρ} {P : σ → ι → ρ → σ → Prop} {i : ι} :
    ∀ {is : List ι} {s t : σ} {rs : List ρ}, M.Holds P s (is ++ [i]) → M.run s is = some (rs, t) →
      ∃ r u, M t i = some (r, u) ∧ P t i r u := by
  intro is
  induction is with
  | nil =>
    rintro s t rs ⟨r, u, hstep, hP, -⟩ hrun
    obtain ⟨rfl, rfl⟩ := Prod.mk.inj (Option.some.inj hrun)
    exact ⟨r, u, hstep, hP⟩
  | cons j is ih =>
    rintro s t rs ⟨r, u, hstep, -, hrest⟩ hrun
    obtain ⟨r', u', rs', hstep', hrun', rfl⟩ := eq_of_run_cons hrun
    obtain ⟨rfl, rfl⟩ := Prod.mk.inj (Option.some.inj (hstep.symm.trans hstep'))
    exact ih hrest hrun'

/-- A step property that every step from an invariant state has holds along
every run. -/
theorem holds_of_step {M : Machine σ ι ρ} {I : σ → Prop} {P : σ → ι → ρ → σ → Prop}
    (hstep : ∀ s i, I s → ∃ r s', M s i = some (r, s') ∧ I s' ∧ P s i r s') :
    ∀ {is : List ι} {s : σ}, I s → M.Holds P s is := by
  intro is
  induction is with
  | nil => exact fun _ => trivial
  | cons i is ih =>
    intro s hI
    obtain ⟨r, s', hs, hI', hP⟩ := hstep s i hI
    exact ⟨r, s', hs, hP, ih hI'⟩

/-- **What a machine can reach** on inputs that satisfy `P` in the state they
are taken in, with the log its steps have left. -/
inductive Reach (M : Machine σ ι (List ρ)) (P : σ → ι → Prop) (s : σ) : List ρ → σ → Prop
  | refl : Reach M P s [] s
  | step {log out : List ρ} {t u : σ} {i : ι} (h : Reach M P s log t) (hP : P t i)
    (hstep : M t i = some (out, u)) : Reach M P s (log ++ out) u

/-- A machine that is stopped by an input that does not satisfy `P`. -/
def guard (M : Machine σ ι ρ) (P : σ → ι → Prop) [∀ s i, Decidable (P s i)] : Machine σ ι ρ :=
  fun s i => if P s i then M s i else none

/-- **A run that returns reaches its last state.** -/
theorem Reach.of_run_guard {M : Machine σ ι (List ρ)} {P : σ → ι → Prop}
    [∀ s i, Decidable (P s i)] {is : List ι} {s t : σ} {outs : List (List ρ)}
    (hrun : (M.guard P).run s is = some (outs, t)) : Reach M P s outs.flatten t := by
  have hfrom : ∀ (is : List ι) {log : List ρ} {u t : σ} {outs : List (List ρ)},
      Reach M P s log u → (M.guard P).run u is = some (outs, t) →
      Reach M P s (log ++ outs.flatten) t := by
    intro is
    induction is with
    | nil =>
      intro log u t outs h hrun
      obtain ⟨rfl, rfl⟩ := Prod.mk.inj (Option.some.inj hrun)
      simpa using h
    | cons i is ih =>
      intro log u t outs h hrun
      obtain ⟨out, v, rest, hstep, hrest, rfl⟩ := eq_of_run_cons hrun
      unfold guard at hstep
      split at hstep
      · next hP =>
        have hreach := ih (h.step hP hstep) hrest
        rwa [List.append_assoc] at hreach
      · cases hstep
  exact hfrom is .refl hrun

/-- A run on inputs that satisfy a condition of their own. -/
theorem Reach.of_run_forall {M : Machine σ ι (List ρ)} {P : ι → Prop} {is : List ι} {s t : σ}
    {outs : List (List ρ)} (hP : ∀ i ∈ is, P i) (hrun : M.run s is = some (outs, t)) :
    Reach M (fun _ i => P i) s outs.flatten t := by
  have hfrom : ∀ (is : List ι) {log : List ρ} {u t : σ} {outs : List (List ρ)},
      (∀ i ∈ is, P i) → Reach M (fun _ i => P i) s log u → M.run u is = some (outs, t) →
      Reach M (fun _ i => P i) s (log ++ outs.flatten) t := by
    intro is
    induction is with
    | nil =>
      intro log u t outs _ h hrun
      obtain ⟨rfl, rfl⟩ := Prod.mk.inj (Option.some.inj hrun)
      simpa using h
    | cons i is ih =>
      intro log u t outs hP h hrun
      obtain ⟨hi, his⟩ := List.forall_mem_cons.mp hP
      obtain ⟨out, v, rest, hstep, hrest, rfl⟩ := eq_of_run_cons hrun
      have hreach := ih his (h.step hi hstep) hrest
      rwa [List.append_assoc] at hreach
  exact hfrom is hP .refl hrun

theorem Reach.of_run {M : Machine σ ι (List ρ)} {is : List ι} {s t : σ} {outs : List (List ρ)}
    (hrun : M.run s is = some (outs, t)) : Reach M (fun _ _ => True) s outs.flatten t :=
  .of_run_forall (fun _ _ => trivial) hrun

/-- **The invariant rule for reachable states**: a relation between log and
state that every step on an admissible input keeps. -/
theorem Reach.invariant {M : Machine σ ι (List ρ)} {P : σ → ι → Prop} {s : σ}
    {I : List ρ → σ → Prop} (hinit : I [] s)
    (hkeep : ∀ {log t i out u}, I log t → P t i → M t i = some (out, u) → I (log ++ out) u)
    {log : List ρ} {t : σ} (h : Reach M P s log t) : I log t := by
  induction h with
  | refl => exact hinit
  | step _ hP hstep ih => exact hkeep ih hP hstep

/-- A stronger condition on the inputs reaches less. -/
theorem Reach.mono {M : Machine σ ι (List ρ)} {P Q : σ → ι → Prop} (hPQ : ∀ s i, P s i → Q s i)
    {s t : σ} {log : List ρ} (h : Reach M P s log t) : Reach M Q s log t := by
  induction h with
  | refl => exact .refl
  | step _ hP hstep ih => exact .step ih (hPQ _ _ hP) hstep

end Machine

namespace Spec

/-- A run of a specification: the outputs in order, and the last state. -/
def run (A : Spec τ κ ρ) : τ → List κ → List ρ × τ
  | t, [] => ([], t)
  | t, k :: ks => ((A t k).1 :: (A.run (A t k).2 ks).1, (A.run (A t k).2 ks).2)

/-- **A condition along a run**: every input satisfies `P` in the abstract
state it is taken in. -/
def Along (A : Spec τ κ ρ) (P : τ → κ → Prop) : τ → List κ → Prop
  | _, [] => True
  | t, k :: ks => P t k ∧ A.Along P (A t k).2 ks

theorem Along.mono {A : Spec τ κ ρ} {P Q : τ → κ → Prop} (hPQ : ∀ t k, P t k → Q t k)
    {ks : List κ} {t : τ} (h : A.Along P t ks) : A.Along Q t ks := by
  induction ks generalizing t with
  | nil => trivial
  | cons k ks ih => exact ⟨hPQ t k h.1, ih h.2⟩

theorem Along.of_forall {A : Spec τ κ ρ} {P : τ → κ → Prop} (hP : ∀ t k, P t k)
    (ks : List κ) (t : τ) : A.Along P t ks := by
  induction ks generalizing t with
  | nil => trivial
  | cons k ks ih => exact ⟨hP t k, ih _⟩

/-- A condition on the inputs alone. -/
theorem Along.of_forall_mem {A : Spec τ κ ρ} {P : κ → Prop} {ks : List κ} (hP : ∀ k ∈ ks, P k)
    {t : τ} : A.Along (fun _ k => P k) t ks := by
  induction ks generalizing t with
  | nil => trivial
  | cons k ks ih =>
    exact ⟨hP k List.mem_cons_self, ih (fun k' hk => hP k' (List.mem_cons_of_mem k hk))⟩

/-- Two specifications that agree where a condition holds have the same runs
along which it does. -/
theorem run_congr {A B : Spec τ κ ρ} {P : τ → κ → Prop} (h : ∀ t k, P t k → A t k = B t k)
    {ks : List κ} {t : τ} (hP : B.Along P t ks) : A.run t ks = B.run t ks := by
  induction ks generalizing t with
  | nil => rfl
  | cons k ks ih =>
    show ((A t k).1 :: (A.run (A t k).2 ks).1, (A.run (A t k).2 ks).2) = _
    rw [h t k hP.1, ih hP.2]
    rfl

/-- Two conditions along a run. -/
theorem Along.and {A : Spec τ κ ρ} {P Q : τ → κ → Prop} {ks : List κ} {t : τ}
    (hP : A.Along P t ks) (hQ : A.Along Q t ks) : A.Along (fun t k => P t k ∧ Q t k) t ks := by
  induction ks generalizing t with
  | nil => trivial
  | cons k ks ih => exact ⟨⟨hP.1, hQ.1⟩, ih hP.2 hQ.2⟩

end Spec

/-- **A simulation**: from related states, on an input admissible in the
abstract state, the machine returns what the specification returns on the
input it stands for, and the states stay related. -/
def Simulates (M : Machine σ ι ρ) (A : Spec τ κ ρ) (f : ι → κ) (P : τ → κ → Prop)
    (R : σ → τ → Prop) : Prop :=
  ∀ s t i, R s t → P t (f i) → ∃ s', M s i = some ((A t (f i)).1, s') ∧ R s' (A t (f i)).2

/-- **A simulation lifts to runs**: the machine returns, and its outputs are
those of the specification. -/
theorem Simulates.run {M : Machine σ ι ρ} {A : Spec τ κ ρ} {f : ι → κ}
    {P : τ → κ → Prop} {R : σ → τ → Prop} (hsim : Simulates M A f P R) :
    ∀ {is : List ι} {s : σ} {t : τ}, R s t → A.Along P t (is.map f) →
      ∃ s', M.run s is = some ((A.run t (is.map f)).1, s') ∧ R s' (A.run t (is.map f)).2 := by
  intro is
  induction is with
  | nil => exact fun hR _ => ⟨_, rfl, hR⟩
  | cons i is ih =>
    intro s t hR hP
    obtain ⟨s', hs, hR'⟩ := hsim s t i hR hP.1
    obtain ⟨s'', hrun, hR''⟩ := ih hR' hP.2
    exact ⟨s'', Machine.run_cons_of_eq hs hrun, hR''⟩

/-- **What holds of every step from related states** holds along runs. -/
theorem Simulates.holds {M : Machine σ ι ρ} {A : Spec τ κ ρ} {f : ι → κ} {P : τ → κ → Prop}
    {R : σ → τ → Prop} {Q : σ → ι → ρ → σ → Prop} (hsim : Simulates M A f P R)
    (hQ : ∀ s t i s', R s t → P t (f i) → M s i = some ((A t (f i)).1, s') → R s' (A t (f i)).2 →
      Q s i (A t (f i)).1 s') :
    ∀ {is : List ι} {s : σ} {t : τ}, R s t → A.Along P t (is.map f) → M.Holds Q s is := by
  intro is
  induction is with
  | nil => exact fun _ _ => trivial
  | cons i is ih =>
    intro s t hR hP
    obtain ⟨s', hs, hR'⟩ := hsim s t i hR hP.1
    exact ⟨_, s', hs, hQ s t i s' hR hP.1 hs hR', ih hR' hP.2⟩

/-- **A property that steps have under a condition, and no others**, holds along exactly
the runs along which the condition does. -/
theorem Simulates.holds_iff {M : Machine σ ι ρ} {A : Spec τ κ ρ} {f : ι → κ} {P : τ → κ → Prop}
    {R : σ → τ → Prop} {Q : σ → ι → ρ → σ → Prop} (hsim : Simulates M A f P R)
    (hQ : ∀ s t i s', R s t → P t (f i) → M s i = some ((A t (f i)).1, s') → R s' (A t (f i)).2 →
      Q s i (A t (f i)).1 s')
    (hnot : ∀ s t i r s', R s t → ¬ P t (f i) → M s i = some (r, s') → ¬ Q s i r s')
    {is : List ι} {s : σ} {t : τ} (hR : R s t) : M.Holds Q s is ↔ A.Along P t (is.map f) := by
  refine ⟨fun h => ?_, hsim.holds hQ hR⟩
  induction is generalizing s t with
  | nil => trivial
  | cons i is ih =>
    obtain ⟨r, s', hs, hstep, hrest⟩ := h
    have hP : P t (f i) := by
      by_contra hP
      exact hnot s t i r s' hR hP hs hstep
    obtain ⟨s'', hs'', hR'⟩ := hsim s t i hR hP
    obtain ⟨-, rfl⟩ := Prod.mk.inj (Option.some.inj (hs.symm.trans hs''))
    exact ⟨hP, ih hR' hrest⟩
