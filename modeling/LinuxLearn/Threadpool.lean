import LinuxLearn.DList
import LinuxLearn.Simulation

/-!
# The thread pool

`Threadpool.c` hands tasks to workers through a doubly linked list. A task
is pushed at its end under the mutex, and a waiting worker is signalled;
a worker takes the first task under the mutex and runs it outside, or
waits for the signal where there is none.

What a thread does under the mutex is one step, and steps of all threads
come in any order. A signal wakes one of those that wait, whichever, and
is lost where nobody does; and a worker may wake without one. Tasks belong
to the callers but for the time from their push to their call: they may
be allocated, freed and pushed again, also by their own functions.
-/

namespace Threadpool

open DList

/-- **`struct nTask`**, without its links. -/
structure NTask where
  /-- Which function it is. -/
  taskFunc : ℕ
  userData : Ptr

/-- **Where a worker is**: before the mutex, at the start of its loop or back from
a wait; waiting; holding a task it is about to call; running one; or gone. -/
inductive Place where
  | locking
  | waiting
  | holding (task : Ptr)
  | running
  | exited
deriving DecidableEq

/-- **`struct nWorker`.** -/
structure NWorker where
  terminate : Bool
  /-- Where its thread is. -/
  place : Place

/-- **`struct nManager`.** -/
structure Pool where
  /-- The memory of the tasks. -/
  mem : Heap (Node NTask)
  /-- The first task of the list, or null. -/
  tasks : Ptr
  /-- In the order they were created in. -/
  workers : List NWorker

/-- What happens: a task was pushed, or taken by a worker. -/
inductive Note where
  | pushed (task : Ptr)
  | took (worker : ℕ) (task : Ptr)

/-- The tasks pushed, in order. -/
def pushed (log : List Note) : List Ptr :=
  log.filterMap (fun n => match n with
    | .pushed task => some task
    | .took _ _ => none)

/-- The tasks taken, in order, each with the worker that took it. -/
def taken (log : List Note) : List (ℕ × Ptr) :=
  log.filterMap (fun n => match n with
    | .took worker task => some (worker, task)
    | .pushed _ => none)

/-- The loop of `nThreadPoolCreate`: worker `i` and `n` more are started. -/
def createWorkers (malloc create : ℕ → Bool) : ℕ → ℕ → List NWorker → ℤ × List NWorker
  | _, 0, workers => (0, workers)
  | i, n + 1, workers =>
    if ¬ malloc i then (-2, workers)
    else if ¬ create i then (-3, workers)
    else createWorkers malloc create (i + 1) n (workers ++ [⟨false, .locking⟩])

/-- **`nThreadPoolCreate`**: what it returns, and the pool it leaves. -/
def nThreadPoolCreate (mem : Heap (Node NTask)) (numWorkers : ℤ) (malloc create : ℕ → Bool) :
    ℤ × Pool :=
  let numWorkers := if numWorkers < 1 then 1 else numWorkers
  let (ret, workers) := createWorkers malloc create 0 numWorkers.toNat []
  (ret, ⟨mem, 0, workers⟩)

namespace Pool

/-- A worker moves on. -/
def setPlace (pool : Pool) (i : ℕ) (place : Place) : Pool :=
  { pool with workers := pool.workers.modify i (fun worker => { worker with place := place }) }

/-- Where a worker is, if there is one of that number. -/
def placeOf (pool : Pool) (i : ℕ) : Option Place := pool.workers[i]?.map NWorker.place

/-- Somebody waits. -/
def Awaited (pool : Pool) : Prop := ∃ worker ∈ pool.workers, worker.place = .waiting

instance (pool : Pool) : Decidable pool.Awaited :=
  inferInstanceAs (Decidable (∃ worker ∈ pool.workers, worker.place = .waiting))

/-- **`pthread_cond_signal`** wakes worker `i`, which is one that waits, if there
is one that does. -/
def condSignal (pool : Pool) (i : ℕ) : Option Pool :=
  if pool.Awaited then
    if pool.placeOf i = some .waiting then some (pool.setPlace i .locking) else none
  else some pool

/-- **`nThreadPoolPushTask`**, with the worker that is signalled if some wait. -/
def nThreadPoolPushTask (pool : Pool) (task : Ptr) (i : ℕ) : Option (List Note × Pool) := do
  let (tasks, mem) ← insertTail pool.mem task pool.tasks
  let pool ← condSignal { pool with mem := mem, tasks := tasks } i
  return ([.pushed task], pool)

/-- **One step of `nThreadPoolCallback`**: what it does under the mutex, the call
of the task, or the end of that call. -/
def nThreadPoolCallback (pool : Pool) (i : ℕ) : Option (List Note × Pool) := do
  let worker ← pool.workers[i]?
  match worker.place with
  | .locking =>
    if pool.tasks = 0 ∧ ¬ worker.terminate then
      return ([], pool.setPlace i .waiting)
    else if worker.terminate then
      return ([], pool.setPlace i .exited)
    else
      let task := pool.tasks
      let (tasks, mem) ← DList.remove pool.mem task pool.tasks
      return ([.took i task], { pool with mem := mem, tasks := tasks }.setPlace i (.holding task))
  | .holding task =>
    -- the function is read from the task
    let _ ← pool.mem.load task
    return ([], pool.setPlace i .running)
  | .running => return ([], pool.setPlace i .locking)
  | .waiting => none
  | .exited => none

/-- **What can happen**: a task is pushed, a worker takes a step or wakes without
a signal, or a caller allocates a task, its links not yet written, or frees
one. -/
inductive Input where
  | push (task : Ptr) (signalled : ℕ)
  | work (worker : ℕ)
  | wake (worker : ℕ)
  | malloc (task : Node NTask)
  | free (task : Ptr)

/-- **One step.** -/
def step (pool : Pool) : Input → Option (List Note × Pool)
  | .push task i => pool.nThreadPoolPushTask task i
  | .work i => pool.nThreadPoolCallback i
  | .wake i => some ([], pool.setPlace i .locking)
  | .malloc task => some ([], { pool with mem := pool.mem.alloc task })
  | .free task => do
    let mem ← pool.mem.free task
    return ([], { pool with mem := mem })

/-- The pool as a machine. -/
def machine : Machine Pool Input (List Note) := step

/-- The pool has a task: it is in the list, or a worker is about to call it. -/
def Owns (pool : Pool) (task : Ptr) : Prop :=
  (∃ t, Repr pool.mem pool.tasks t ∧ task ∈ t.map Prod.fst)
    ∨ ∃ worker ∈ pool.workers, worker.place = .holding task

/-- **What callers and scheduler keep to**: a task that is pushed or freed is one
that is there and that the pool does not have; a signal goes to one that
waits, if there is one; a worker takes a step unless it waits or is gone, and
only one that waits can wake. -/
def Admissible (pool : Pool) : Input → Prop
  | .push task i => (pool.mem.load task).isSome ∧ ¬ pool.Owns task
    ∧ (pool.Awaited → pool.placeOf i = some .waiting)
  | .work i => ∃ place, pool.placeOf i = some place ∧ place ≠ .waiting ∧ place ≠ .exited
  | .wake i => pool.placeOf i = some .waiting
  | .malloc _ => True
  | .free task => (pool.mem.load task).isSome ∧ ¬ pool.Owns task

/-! ## Workers -/

section Workers

variable {pool : Pool} {i : ℕ} {place : Place} {worker : NWorker}

theorem mem_setPlace (h : worker ∈ (pool.setPlace i place).workers) :
    worker ∈ pool.workers ∨ ∃ w ∈ pool.workers, worker = { w with place := place } := by
  obtain ⟨j, hj⟩ := List.mem_iff_getElem?.mp h
  unfold setPlace at hj
  rw [List.getElem?_modify] at hj
  by_cases hi : i = j
  · obtain ⟨w, hw, rfl⟩ := Option.map_eq_some_iff.mp hj
    rw [if_pos hi]
    exact Or.inr ⟨w, List.mem_of_getElem? hw, rfl⟩
  · obtain ⟨w, hw, rfl⟩ := Option.map_eq_some_iff.mp hj
    rw [if_neg hi]
    exact Or.inl (List.mem_of_getElem? hw)

theorem mem_setPlace_self (h : pool.workers[i]? = some worker) :
    { worker with place := place } ∈ (pool.setPlace i place).workers := by
  refine List.mem_of_getElem? (i := i) ?_
  unfold setPlace
  rw [List.getElem?_modify, h]
  exact congrArg some (if_pos rfl)

theorem exists_of_placeOf (h : pool.placeOf i = some place) :
    ∃ worker, pool.workers[i]? = some worker ∧ worker.place = place :=
  Option.map_eq_some_iff.mp h

end Workers

/-! ## The invariant -/

/-- **What holds between the steps.** The list `t` is what was pushed and not yet
taken; a task about to be called is there, and no longer in the list; and if
there is something to do, somebody is awake. -/
structure Inv (t : NodeList NTask) (log : List Note) (pool : Pool) : Prop where
  repr : Repr pool.mem pool.tasks t
  queue : pushed log = (taken log).map Prod.snd ++ t.map Prod.fst
  started : pool.workers ≠ []
  goesOn : ∀ worker ∈ pool.workers, worker.terminate = false
  held : ∀ worker ∈ pool.workers, ∀ task, worker.place = .holding task →
    (pool.mem.load task).isSome ∧ task ∉ t.map Prod.fst
  awake : pool.tasks ≠ 0 → ∃ worker ∈ pool.workers, worker.place ≠ .waiting

section Steps

variable {t : NodeList NTask} {log : List Note} {pool : Pool} {i : ℕ}

theorem Inv.setPlace_ne_nil (h : Inv t log pool) (i : ℕ) (place : Place) :
    (pool.setPlace i place).workers ≠ [] := by
  intro hnil
  have hlength := congrArg List.length hnil
  unfold setPlace at hlength
  rw [List.length_modify] at hlength
  exact h.started (List.length_eq_zero_iff.mp hlength)

theorem Inv.setPlace_goesOn (h : Inv t log pool) (i : ℕ) (place : Place) :
    ∀ worker ∈ (pool.setPlace i place).workers, worker.terminate = false := by
  intro worker hworker
  rcases mem_setPlace hworker with hw | ⟨w, hw, rfl⟩
  · exact h.goesOn worker hw
  · exact h.goesOn w hw

/-- **A worker moves on**, with no task in its hands. -/
theorem Inv.setPlace (h : Inv t log pool) (place : Place) {worker : NWorker}
    (hworker : pool.workers[i]? = some worker)
    (hplace : ∀ task, place ≠ .holding task) (hawake : pool.tasks ≠ 0 → place ≠ .waiting) :
    Inv t log (pool.setPlace i place) where
  repr := h.repr
  queue := h.queue
  started := h.setPlace_ne_nil i place
  goesOn := h.setPlace_goesOn i place
  held := by
    intro w hw task htask
    rcases mem_setPlace hw with hw | ⟨w', -, rfl⟩
    · exact h.held w hw task htask
    · exact absurd htask (hplace task)
  awake := fun htasks => ⟨_, mem_setPlace_self hworker, hawake htasks⟩

theorem pushed_append (log log' : List Note) : pushed (log ++ log') = pushed log ++ pushed log' :=
  List.filterMap_append

theorem taken_append (log log' : List Note) : taken (log ++ log') = taken log ++ taken log' :=
  List.filterMap_append

/-- A task the pool does not have is not in its list. -/
theorem Inv.notMem_of_not_owns (h : Inv t log pool) {task : Ptr} (howns : ¬ pool.Owns task) :
    task ∉ t.map Prod.fst :=
  fun hmem => howns (Or.inl ⟨t, h.repr, hmem⟩)

/-- **A signal** finds one that waits, or there is one that does not. -/
theorem condSignal_eq (pool : Pool) (hstarted : pool.workers ≠ [])
    (hi : pool.Awaited → pool.placeOf i = some .waiting) :
    ∃ pool', pool.condSignal i = some pool' ∧ pool'.mem = pool.mem ∧ pool'.tasks = pool.tasks
      ∧ (∃ worker ∈ pool'.workers, worker.place ≠ .waiting)
      ∧ (pool' = pool ∨ pool' = pool.setPlace i .locking) := by
  unfold condSignal
  by_cases hawaited : pool.Awaited
  · rw [if_pos hawaited, if_pos (hi hawaited)]
    obtain ⟨worker, hworker, -⟩ := exists_of_placeOf (hi hawaited)
    exact ⟨_, rfl, rfl, rfl, ⟨_, mem_setPlace_self hworker, fun he => nomatch he⟩, Or.inr rfl⟩
  · rw [if_neg hawaited]
    obtain ⟨worker, hworker⟩ := List.exists_mem_of_ne_nil _ hstarted
    exact ⟨pool, rfl, rfl, rfl, ⟨worker, hworker, fun he => hawaited ⟨worker, hworker, he⟩⟩,
      Or.inl rfl⟩

/-- **A task is pushed.** -/
theorem Inv.push (h : Inv t log pool) {task : Ptr} (hadm : Admissible pool (.push task i)) :
    ∃ t' pool', pool.nThreadPoolPushTask task i = some ([.pushed task], pool')
      ∧ Inv t' (log ++ [Note.pushed task]) pool' := by
  obtain ⟨hlive, howns, hi⟩ := hadm
  obtain ⟨node, hload⟩ := Option.isSome_iff_exists.mp hlive
  obtain ⟨mem, hinsert, hrepr, hother, -⟩ := h.repr.insertTail hload (h.notMem_of_not_owns howns)
  obtain ⟨pool', hsignal, hmem, htasks, hawake, hpool'⟩ := condSignal_eq
    { pool with mem := mem, tasks := headD (t ++ [(task, node.val)]) 0 } h.started hi
  refine ⟨t ++ [(task, node.val)], pool', bind_of_eq hinsert (bind_of_eq hsignal rfl), ?_, ?_, ?_,
    ?_, ?_, fun _ => hawake⟩
  · rw [hmem, htasks]
    exact hrepr
  · rw [pushed_append, taken_append, h.queue]
    simp [pushed, taken]
  · rcases hpool' with rfl | rfl
    · exact h.started
    · exact h.setPlace_ne_nil i .locking
  · rcases hpool' with rfl | rfl
    · exact h.goesOn
    · exact h.setPlace_goesOn i .locking
  · -- a task in the hands of a worker is neither the one pushed nor in the list
    have hheld : ∀ worker ∈ pool.workers, ∀ p, worker.place = .holding p →
        (mem.load p).isSome ∧ p ∉ (t ++ [(task, node.val)]).map Prod.fst := by
      intro worker hworker p hp
      obtain ⟨hp', hpt⟩ := h.held worker hworker p hp
      have hne : p ≠ task := by
        rintro rfl
        exact howns (Or.inr ⟨worker, hworker, hp⟩)
      rw [hother p hne hpt, List.map_append, List.mem_append, not_or]
      exact ⟨hp', hpt, fun he => hne (List.mem_singleton.mp he)⟩
    intro worker hworker p hp
    rw [hmem]
    rcases hpool' with rfl | rfl
    · exact hheld worker hworker p hp
    · rcases mem_setPlace hworker with hw | ⟨w, -, rfl⟩
      · exact hheld worker hw p hp
      · exact nomatch hp

/-- **A worker takes the first task.** -/
theorem Inv.take {x : Ptr × NTask} (h : Inv (x :: t) log pool) {worker : NWorker}
    (hworker : pool.workers[i]? = some worker) :
    ∃ tasks mem, DList.remove pool.mem pool.tasks pool.tasks = some (tasks, mem)
      ∧ Inv t (log ++ [Note.took i pool.tasks])
        ({ pool with mem := mem, tasks := tasks }.setPlace i (.holding pool.tasks)) := by
  have hhead : pool.tasks = x.1 := h.repr.head_eq
  obtain ⟨mem, hremove, hrepr, hload, hother, -⟩ := h.repr.remove (a := []) (p := x.1) (v := x.2)
  have hx : x.1 ∉ t.map Prod.fst := (List.nodup_cons.mp h.repr.distinct).1
  refine ⟨headD t 0, mem, ?_, ?_⟩
  · rw [← hhead] at hremove
    exact hremove
  refine ⟨hrepr, ?_, h.setPlace_ne_nil i _, h.setPlace_goesOn i _, ?_, fun htasks => ?_⟩
  · rw [pushed_append, taken_append, h.queue, hhead]
    simp [pushed, taken]
  · intro worker hworker p hp
    rcases mem_setPlace hworker with hw | ⟨w, -, rfl⟩
    · obtain ⟨hp', hpt⟩ := h.held worker hw p hp
      refine ⟨?_, fun hmem => hpt (List.mem_cons_of_mem _ hmem)⟩
      show (mem.load p).isSome
      rw [hother p hpt]
      exact hp'
    · obtain rfl : pool.tasks = p := Place.holding.inj hp
      show (mem.load pool.tasks).isSome ∧ _
      rw [hhead, hload]
      exact ⟨rfl, hx⟩
  · exact ⟨_, mem_setPlace_self hworker, fun he => nomatch he⟩

/-- **A worker takes a step.** -/
theorem Inv.work (h : Inv t log pool) (hadm : Admissible pool (.work i)) :
    ∃ t' out pool', pool.nThreadPoolCallback i = some (out, pool') ∧ Inv t' (log ++ out) pool' := by
  obtain ⟨place, hplace, hwaiting, hexited⟩ := hadm
  obtain ⟨worker, hworker, rfl⟩ := exists_of_placeOf hplace
  have hmem := List.mem_of_getElem? hworker
  have hterminate : ¬ (worker.terminate = true) := by
    rw [h.goesOn worker hmem]
    exact Bool.false_ne_true
  unfold nThreadPoolCallback
  rw [hworker]
  cases hat : worker.place with
  | waiting => exact absurd hat hwaiting
  | exited => exact absurd hat hexited
  | running =>
    have hinv := h.setPlace .locking hworker (fun _ he => nomatch he) (fun _ he => nomatch he)
    refine ⟨t, [], _, bind_of_eq rfl ?_, (List.append_nil log).symm ▸ hinv⟩
    simp only [hat]
    rfl
  | holding task =>
    have hinv := h.setPlace .running hworker (fun _ he => nomatch he) (fun _ he => nomatch he)
    obtain ⟨node, hload⟩ := Option.isSome_iff_exists.mp (h.held worker hmem task hat).1
    refine ⟨t, [], _, bind_of_eq rfl ?_, (List.append_nil log).symm ▸ hinv⟩
    simp only [hat]
    exact bind_of_eq hload rfl
  | locking =>
    by_cases htasks : pool.tasks = 0
    · have hinv := h.setPlace .waiting hworker (fun _ he => nomatch he)
        (fun hne => absurd htasks hne)
      refine ⟨t, [], _, bind_of_eq rfl ?_, (List.append_nil log).symm ▸ hinv⟩
      simp only [hat]
      exact if_pos ⟨htasks, hterminate⟩
    · obtain ⟨x, u, rfl⟩ :=
        List.exists_cons_of_ne_nil (fun hnil => htasks (h.repr.head_eq_zero.mpr hnil))
      obtain ⟨tasks, mem, hremove, hinv⟩ := h.take hworker
      refine ⟨u, _, _, bind_of_eq rfl ?_, hinv⟩
      simp only [hat]
      rw [if_neg (fun hwait => htasks hwait.1), if_neg hterminate]
      exact bind_of_eq hremove rfl

/-- **A caller allocates a task.** -/
theorem Inv.malloc (h : Inv t log pool) (task : Node NTask) :
    Inv t log { pool with mem := pool.mem.alloc task } where
  repr := h.repr.congr (fun x hx => by
    obtain ⟨node, hload, -⟩ := h.repr.seg.load hx
    rw [Heap.load_alloc_of_load task hload, hload])
  queue := h.queue
  started := h.started
  goesOn := h.goesOn
  held := by
    intro worker hworker p hp
    obtain ⟨hlive, hpt⟩ := h.held worker hworker p hp
    obtain ⟨node, hload⟩ := Option.isSome_iff_exists.mp hlive
    refine ⟨?_, hpt⟩
    show ((pool.mem.alloc task).load p).isSome
    rw [Heap.load_alloc_of_load task hload]
    rfl
  awake := h.awake

/-- **A caller frees a task** the pool does not have. -/
theorem Inv.free (h : Inv t log pool) {task : Ptr} (howns : ¬ pool.Owns task) :
    Inv t log { pool with mem := pool.mem.erase task } where
  repr := h.repr.congr (fun x hx => by
    rw [Heap.load_erase, if_neg]
    rintro rfl
    exact h.notMem_of_not_owns howns (mem_fst hx))
  queue := h.queue
  started := h.started
  goesOn := h.goesOn
  held := by
    intro worker hworker p hp
    obtain ⟨hlive, hpt⟩ := h.held worker hworker p hp
    refine ⟨?_, hpt⟩
    show ((pool.mem.erase task).load p).isSome
    rw [Heap.load_erase, if_neg]
    · exact hlive
    · rintro rfl
      exact howns (Or.inr ⟨worker, hworker, hp⟩)
  awake := h.awake

/-- **Every step** goes through, and keeps the invariant. -/
theorem Inv.step (h : Inv t log pool) {input : Input} (hadm : Admissible pool input) :
    ∃ t' out pool', pool.step input = some (out, pool') ∧ Inv t' (log ++ out) pool' := by
  cases input with
  | push task i =>
    obtain ⟨t', pool', hstep, hinv⟩ := h.push hadm
    exact ⟨t', _, pool', hstep, hinv⟩
  | work i => exact h.work hadm
  | wake i =>
    obtain ⟨worker, hworker, -⟩ := exists_of_placeOf hadm
    exact ⟨t, [], _, rfl, (List.append_nil log).symm ▸
      h.setPlace _ hworker (fun _ he => nomatch he) (fun _ he => nomatch he)⟩
  | malloc task => exact ⟨t, [], _, rfl, (List.append_nil log).symm ▸ h.malloc task⟩
  | free task =>
    obtain ⟨node, hload⟩ := Option.isSome_iff_exists.mp hadm.1
    exact ⟨t, [], _, bind_of_eq (Heap.free_of_load hload) rfl,
      (List.append_nil log).symm ▸ h.free hadm.2⟩

end Steps

/-! ## Runs -/

theorem createWorkers_eq {malloc create : ℕ → Bool} {workers ws : List NWorker} {i n : ℕ}
    (hlocking : ∀ w ∈ ws, w = ⟨false, .locking⟩)
    (h : createWorkers malloc create i n ws = (0, workers)) :
    workers.length = ws.length + n ∧ ∀ w ∈ workers, w = ⟨false, .locking⟩ := by
  induction n generalizing i ws with
  | zero =>
    obtain ⟨-, rfl⟩ := Prod.mk.inj h
    exact ⟨rfl, hlocking⟩
  | succ n ih =>
    unfold createWorkers at h
    split at h
    · exact absurd (Prod.mk.inj h).1 (by decide)
    split at h
    · exact absurd (Prod.mk.inj h).1 (by decide)
    obtain ⟨hlength, hall⟩ := ih (fun w hw => by
      rcases List.mem_append.mp hw with hw | hw
      · exact hlocking w hw
      · exact List.mem_singleton.mp hw) h
    rw [List.length_append, List.length_singleton] at hlength
    exact ⟨by omega, hall⟩

/-- **A pool that was created** has a worker, and all of them are at their start. -/
theorem Inv.init {mem : Heap (Node NTask)} {numWorkers : ℤ} {malloc create : ℕ → Bool} {pool : Pool}
    (h : nThreadPoolCreate mem numWorkers malloc create = (0, pool)) : Inv [] [] pool := by
  unfold nThreadPoolCreate at h
  obtain ⟨hret, rfl⟩ := Prod.mk.inj h
  obtain ⟨hlength, hall⟩ := createWorkers_eq (fun w hw => absurd hw List.not_mem_nil)
    (Prod.ext hret rfl)
  refine ⟨Repr.empty mem, rfl, ?_, ?_, ?_, fun htasks => absurd rfl htasks⟩
  · intro hnil
    have hzero := (congrArg List.length hnil).symm.trans hlength
    rw [List.length_nil] at hzero
    split at hzero <;> omega
  · intro worker hworker
    rw [hall worker hworker]
  · intro worker hworker task htask
    rw [hall worker hworker] at htask
    cases htask

/-- **The pool delivers every task once, in order, without a stall.** In every
state that any order of pushes and steps of workers leads to, the list is well
formed and has what was pushed and not yet taken, in the order of the pushes;
the tasks taken are those pushed first, each taken once; not all workers wait
while there is a task; and whatever can come next is well defined. -/
theorem delivers_in_order {mem : Heap (Node NTask)} {numWorkers : ℤ} {malloc create : ℕ → Bool}
    {pool₀ pool : Pool} {log : List Note}
    (h₀ : nThreadPoolCreate mem numWorkers malloc create = (0, pool₀))
    (h : machine.Reach Admissible pool₀ log pool) :
    (∃ t, Repr pool.mem pool.tasks t
      ∧ pushed log = (taken log).map Prod.snd ++ t.map Prod.fst)
    ∧ ¬ (pool.tasks ≠ 0 ∧ ∀ worker ∈ pool.workers, worker.place = .waiting)
    ∧ ∀ input, Admissible pool input → ∃ out pool', pool.step input = some (out, pool') := by
  obtain ⟨t, hinv⟩ : ∃ t, Inv t log pool := by
    refine Machine.Reach.invariant (I := fun log pool => ∃ t, Inv t log pool) ⟨[], Inv.init h₀⟩ ?_ h
    rintro log pool input out pool' ⟨t, hinv⟩ hadm hstep
    obtain ⟨t', out', pool'', hstep', hinv'⟩ := hinv.step hadm
    obtain ⟨rfl, rfl⟩ := Prod.mk.inj (Option.some.inj (hstep'.symm.trans hstep))
    exact ⟨t', hinv'⟩
  refine ⟨⟨t, hinv.repr, hinv.queue⟩, ?_, ?_⟩
  · rintro ⟨htasks, hall⟩
    obtain ⟨worker, hworker, hawake⟩ := hinv.awake htasks
    exact hawake (hall worker hworker)
  · intro input hadm
    obtain ⟨-, out, pool', hstep, -⟩ := hinv.step hadm
    exact ⟨out, pool', hstep⟩

/-- Two workers, of which one waits, is told of a task and takes it. -/
theorem delivers_in_order_two :
    ∃ pool₀ pool, nThreadPoolCreate Heap.empty 2 (fun _ => true) (fun _ => true) = (0, pool₀)
      ∧ machine.Reach Admissible pool₀ [.pushed 1, .took 0 1] pool
      ∧ (∃ t, Repr pool.mem pool.tasks t ∧ [1] = [1] ++ t.map Prod.fst)
      ∧ ¬ (pool.tasks ≠ 0 ∧ ∀ worker ∈ pool.workers, worker.place = .waiting) := by
  have hcreate : nThreadPoolCreate Heap.empty 2 (fun _ => true) (fun _ => true)
      = (0, ⟨Heap.empty, 0, [⟨false, .locking⟩, ⟨false, .locking⟩]⟩) := rfl
  have hwait := (Machine.Reach.refl (M := machine) (P := Admissible)
    (s := ⟨Heap.empty, 0, [⟨false, .locking⟩, ⟨false, .locking⟩]⟩)).step
    (i := Input.work 0) ⟨.locking, rfl, by decide, by decide⟩ (show machine _ _ = some ([], _) from rfl)
  have hmalloc := hwait.step (i := Input.malloc ⟨⟨0, 0⟩, 5, 5⟩) trivial
    (show machine _ _ = some ([], _) from rfl)
  have howns : ¬ Owns ⟨Heap.empty.alloc ⟨⟨0, 0⟩, 5, 5⟩, 0, [⟨false, .waiting⟩, ⟨false, .locking⟩]⟩ 1 := by
    rintro (⟨t, hrepr, hmem⟩ | ⟨worker, hworker, hholding⟩)
    · rw [hrepr.head_eq_zero.mp rfl] at hmem
      exact absurd hmem List.not_mem_nil
    · revert worker
      decide
  have hpush := hmalloc.step (i := Input.push 1 0) ⟨rfl, howns, fun _ => rfl⟩
    (show machine _ _ = some ([.pushed 1], _) from rfl)
  have htake := hpush.step (i := Input.work 0) ⟨.locking, rfl, by decide, by decide⟩
    (show machine _ _ = some ([.took 0 1], _) from rfl)
  obtain ⟨hlist, hstall, -⟩ := delivers_in_order hcreate htake
  exact ⟨_, _, hcreate, htake, hlist, hstall⟩

end Pool

end Threadpool
