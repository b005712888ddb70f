import Mathlib.Data.Multiset.Range
import PrivateCloud.ThreadPool.Leaving
import PrivateCloud.ThreadPool.Permits

/-! The pool and those who wait for it: `Async`, `Future::Wait` and `Task::Run` together.

Each call of `Async` makes a task with a semaphore of its own. `Pool` has what happens to the
tasks and `Future` what happens inside one; here a worker's turn is the task's function and its
`Post`, and clients call `Wait` on any task that was made.

What a `Wait` returns its task's function has returned. Left alone the threads and the clients
come to rest, and then of the calls for a task that was run one has returned and the others
sleep, and a task is left in the queue only where no worker is left to run it
(`waits_answered`). -/
namespace PrivateCloud.ThreadPool

/-- `futures` are the tasks of the calls of `Async`, in their order. -/
structure Clients where
  pool : Pool
  futures : List Future.Task

namespace Clients

inductive Label where
  /-- A step of the pool but `Run`. -/
  | pool (l : ThreadPool.Label)
  /-- The worker calls the function of its task. -/
  | function (worker : ℕ)
  /-- The worker posts its task's semaphore, and `Run` returns. -/
  | post (worker : ℕ) (notified : Option ℕ)
  /-- Somebody calls `Wait` on this task. -/
  | wait (serial : ℕ)
  /-- A call of `Wait` goes on. -/
  | goOn (serial : ℕ) (l : Future.Label)

def isRun : ThreadPool.Label → Bool
  | .run _ => true
  | _ => false

/-- A step of a call of `Wait`. -/
def ofWait : Future.Label → Bool
  | .test _ | .wakeUp _ | .getStatus _ => true
  | .call | .function _ | .post _ => false

def create (numOfThreads : ℕ) : Clients := ⟨Pool.create numOfThreads, []⟩

/-- The tasks, with one more if `Async` was called. `garbage` is what the memory of a task holds
where its `m_status` is. -/
def made (garbage : ℕ → Int) (s : Clients) (pool : Pool) : List Future.Task :=
  if pool.serial = s.pool.serial then s.futures
  else s.futures ++ [Future.create (garbage s.pool.serial)]

/-- A step inside a task. -/
def inside (s : Clients) (serial : ℕ) (l : Future.Label) : Option (List Future.Task) :=
  match s.futures[serial]? with
  | some future => (Future.step future l).map fun future => s.futures.set serial future
  | none => none

def step (garbage : ℕ → Int) (s : Clients) : Label → Option Clients
  | .pool l => if isRun l then none else (s.pool.step l).map fun pool => ⟨pool, s.made garbage pool⟩
  | .function w =>
    match s.pool.threads[w]? with
    | some (.run task) =>
      (s.inside task.serial (.function task.result)).map fun futures => {s with futures := futures}
    | _ => none
  | .post w notified =>
    match s.pool.threads[w]? with
    | some (.run task) =>
      match s.pool.step (.run w), s.inside task.serial (.post notified) with
      | some pool, some futures => some ⟨pool, futures⟩
      | _, _ => none
    | _ => none
  | .wait serial => (s.inside serial .call).map fun futures => {s with futures := futures}
  | .goOn serial l =>
    if ofWait l then (s.inside serial l).map fun futures => {s with futures := futures} else none

def machine (garbage : ℕ → Int) (numOfThreads : ℕ) : Machine Clients Label :=
  ⟨create numOfThreads, step garbage⟩

/-! ### What one step can do -/

variable {garbage : ℕ → Int} {s s' : Clients}

theorem inside_cases {serial : ℕ} {l : Future.Label} {futures : List Future.Task}
    (h : s.inside serial l = some futures) : ∃ old new, s.futures[serial]? = some old ∧
      Future.step old l = some new ∧ futures = s.futures.set serial new := by
  simp only [inside] at h
  split at h
  case h_1 old hk =>
    obtain ⟨new, hnew, hset⟩ := Option.map_eq_some_iff.mp h
    exact ⟨old, new, hk, hnew, hset.symm⟩
  case h_2 => cases h

theorem pool_cases {l : ThreadPool.Label} (h : step garbage s (.pool l) = some s') :
    isRun l = false ∧ s.pool.step l = some s'.pool ∧ s'.futures = s.made garbage s'.pool := by
  simp only [step] at h
  split at h
  case isTrue => cases h
  case isFalse hl =>
    obtain ⟨pool, hpool, rfl⟩ := Option.map_eq_some_iff.mp h
    exact ⟨Bool.eq_false_of_not_eq_true hl, hpool, rfl⟩

theorem function_cases {w : ℕ} (h : step garbage s (.function w) = some s') : ∃ task old new,
    s.pool.threads[w]? = some (.run task) ∧ s.futures[task.serial]? = some old ∧
      Future.step old (.function task.result) = some new ∧
        s' = {s with futures := s.futures.set task.serial new} := by
  simp only [step] at h
  split at h
  case h_1 task hw =>
    obtain ⟨futures, hinside, rfl⟩ := Option.map_eq_some_iff.mp h
    obtain ⟨old, new, hk, hnew, rfl⟩ := inside_cases hinside
    exact ⟨task, old, new, hw, hk, hnew, rfl⟩
  case h_2 => cases h

theorem post_cases {w : ℕ} {notified : Option ℕ} (h : step garbage s (.post w notified) = some s') :
    ∃ task old new, s.pool.threads[w]? = some (.run task) ∧ s.futures[task.serial]? = some old ∧
      s.pool.step (.run w) = some s'.pool ∧ Future.step old (.post notified) = some new ∧
        s'.futures = s.futures.set task.serial new := by
  simp only [step] at h
  split at h
  case h_1 task hw =>
    split at h
    case h_1 pool futures hpool hinside =>
      obtain rfl := Option.some.inj h
      obtain ⟨old, new, hk, hnew, rfl⟩ := inside_cases hinside
      exact ⟨task, old, new, hw, hk, hpool, hnew, rfl⟩
    case h_2 => cases h
  case h_2 => cases h

theorem wait_cases {serial : ℕ} (h : step garbage s (.wait serial) = some s') : ∃ old new,
    s.futures[serial]? = some old ∧ Future.step old .call = some new ∧
      s' = {s with futures := s.futures.set serial new} := by
  obtain ⟨futures, hinside, rfl⟩ := Option.map_eq_some_iff.mp h
  obtain ⟨old, new, hk, hnew, rfl⟩ := inside_cases hinside
  exact ⟨old, new, hk, hnew, rfl⟩

theorem goOn_cases {serial : ℕ} {l : Future.Label} (h : step garbage s (.goOn serial l) = some s') :
    ofWait l = true ∧ ∃ old new, s.futures[serial]? = some old ∧ Future.step old l = some new ∧
      s' = {s with futures := s.futures.set serial new} := by
  simp only [step] at h
  split at h
  case isTrue hl =>
    obtain ⟨futures, hinside, rfl⟩ := Option.map_eq_some_iff.mp h
    obtain ⟨old, new, hk, hnew, rfl⟩ := inside_cases hinside
    exact ⟨hl, old, new, hk, hnew, rfl⟩
  case isFalse => cases h

/-! ### The invariant -/

/-- What the task of this number is, where it was made. -/
def At (s : Clients) (serial : ℕ) (P : Future.Task → Prop) : Prop :=
  ∃ future, s.futures[serial]? = some future ∧ P future

/-- Nothing has been done with the task. -/
def Waits (future : Future.Task) : Prop := future.runner = .function

/-- A worker is in `Run`. -/
def Runs (result : Int) (future : Future.Task) : Prop :=
  future.runner = .function ∨ future.runner = .post ∧ future.result = some result

def Ran (result : Int) (future : Future.Task) : Prop :=
  future.runner = .finished ∧ future.result = some result

/-- The task by itself. -/
def Reached (future : Future.Task) : Prop :=
  ∃ g trace, (Future.machine g).Run (Future.create g) trace future

structure Linked (s : Clients) : Prop where
  length : s.futures.length = s.pool.serial
  /-- Each task that was made is in the queue, with a worker, or was run. -/
  serials : s.pool.held.map Task.serial = Multiset.range s.pool.serial
  reached : ∀ future ∈ s.futures, Reached future
  queued : ∀ task ∈ s.pool.tasks, s.At task.serial Waits
  running : ∀ task, .run task ∈ s.pool.threads → s.At task.serial (Runs task.result)
  ran : ∀ task ∈ s.pool.ran, s.At task.serial (Ran task.result)

theorem linked_create (n : ℕ) : Linked (create n) where
  length := rfl
  serials := by
    rw [show (create n).pool = Pool.create n from rfl, Pool.held_create]
    rfl
  reached := fun _ h => absurd h List.not_mem_nil
  queued := fun _ h => absurd h List.not_mem_nil
  running := fun task h => by cases List.eq_of_mem_replicate h
  ran := fun _ h => absurd h List.not_mem_nil

section Linked
variable {serial : ℕ} {old new : Future.Task} {P : Future.Task → Prop}

theorem At.same (h : s.At serial P) (hsame : s'.futures = s.futures) : s'.At serial P := by
  obtain ⟨future, hk, hP⟩ := h
  exact ⟨future, by rw [hsame, hk], hP⟩

/-- A task more. -/
theorem At.append (h : s.At serial P) {more : List Future.Task} (hmore : s'.futures = s.futures ++ more) :
    s'.At serial P := by
  obtain ⟨future, hk, hP⟩ := h
  obtain ⟨hlt, -⟩ := List.getElem?_eq_some_iff.mp hk
  exact ⟨future, by rw [hmore, List.getElem?_append_left hlt, hk], hP⟩

theorem At.set_self (hk : s.futures[serial]? = some old) (hset : s'.futures = s.futures.set serial new)
    (hP : P new) : s'.At serial P := by
  obtain ⟨hlt, -⟩ := List.getElem?_eq_some_iff.mp hk
  exact ⟨new, by rw [hset, List.getElem?_set_self hlt], hP⟩

theorem At.set_other (h : s.At serial P) {other : ℕ} (hset : s'.futures = s.futures.set other new)
    (hne : other ≠ serial) : s'.At serial P := by
  obtain ⟨future, hk, hP⟩ := h
  exact ⟨future, by rw [hset, List.getElem?_set_ne hne, hk], hP⟩

/-- What becomes of one task leaves the others as they are. -/
theorem At.set (h : s.At serial P) {other : ℕ} (hk : s.futures[other]? = some old)
    (hset : s'.futures = s.futures.set other new) (hP : P old → P new) : s'.At serial P := by
  by_cases heq : other = serial
  · subst heq
    obtain ⟨future, hk', hfuture⟩ := h
    obtain rfl := Option.some.inj (hk.symm.trans hk')
    exact At.set_self hk hset (hP hfuture)
  · exact h.set_other hset heq

theorem reached_set (h : ∀ future ∈ s.futures, Reached future) {l : Future.Label}
    (hk : s.futures[serial]? = some old) (hnew : Future.step old l = some new) :
    ∀ future ∈ s.futures.set serial new, Reached future := by
  intro future hfuture
  rcases Bag.mem_set hfuture with rfl | hfuture
  · obtain ⟨g, trace, run⟩ := h old (List.mem_of_getElem? hk)
    exact ⟨g, _, run.snoc hnew⟩
  · exact h future hfuture

/-! Each task is in one place. -/

theorem Linked.nodup (h : Linked s) : (s.pool.held.map Task.serial).Nodup :=
  h.serials ▸ Multiset.nodup_range _

theorem mem_running {task : Task} (h : .run task ∈ s.pool.threads) :
    task ∈ (s.pool.threads : Multiset Worker).filterMap Pool.running :=
  (Multiset.mem_filterMap Pool.running _).mpr ⟨.run task, h, rfl⟩

/-- What is with a worker is not in the queue… -/
theorem Linked.queued_ne (h : Linked s) {task other : Task} (hrun : .run task ∈ s.pool.threads)
    (hother : other ∈ s.pool.tasks) : task.serial ≠ other.serial := by
  intro heq
  have hnodup := h.nodup
  rw [Pool.held, Multiset.map_add, Multiset.map_add] at hnodup
  have hdisjoint := (Multiset.nodup_add.mp (Multiset.nodup_add.mp hnodup).1).2.2
  exact Multiset.disjoint_left.mp hdisjoint (Multiset.mem_map_of_mem _ (Multiset.mem_coe.mpr hother))
    (heq ▸ Multiset.mem_map_of_mem _ (mem_running hrun))

/-- …and was not run, … -/
theorem Linked.ran_ne (h : Linked s) {task other : Task} (hrun : .run task ∈ s.pool.threads)
    (hother : other ∈ s.pool.ran) : task.serial ≠ other.serial := by
  intro heq
  have hnodup := h.nodup
  rw [Pool.held, Multiset.map_add, Multiset.map_add] at hnodup
  have hdisjoint := (Multiset.nodup_add.mp hnodup).2.2
  exact Multiset.disjoint_left.mp hdisjoint
    (Multiset.mem_add.mpr (Or.inr (heq ▸ Multiset.mem_map_of_mem _ (mem_running hrun))))
    (Multiset.mem_map_of_mem _ (Multiset.mem_coe.mpr hother))

/-- …and two workers have two tasks. -/
theorem Linked.running_eq (h : Linked s) {task other : Task} (hrun : .run task ∈ s.pool.threads)
    (hother : .run other ∈ s.pool.threads) (heq : task.serial = other.serial) : task = other := by
  have hheld {task : Task} (hrun : .run task ∈ s.pool.threads) : task ∈ s.pool.held :=
    Multiset.mem_add.mpr (Or.inl (Multiset.mem_add.mpr (Or.inr (mem_running hrun))))
  exact Multiset.inj_on_of_nodup_map h.nodup task (hheld hrun) other (hheld hother) heq

/-! One lemma for each kind of step. -/

/-- `Async` makes a task. -/
theorem linked_async {result : Int} {address : ℕ} {pool : Pool} (h : Linked s)
    (hs : s.pool.async result address = some pool) (caller : ShutDown) :
    Linked ⟨{pool with shutDown := caller}, s.made garbage pool⟩ := by
  have hheld := Pool.held_async hs
  have hserial : pool.serial = s.pool.serial + 1 := by rw [Pool.async_cases hs]
  have hmade : s.made garbage pool = s.futures ++ [Future.create (garbage s.pool.serial)] := by
    rw [made, if_neg (by omega)]
  have hnew : (s.futures ++ [Future.create (garbage s.pool.serial)])[s.pool.serial]? =
      some (Future.create (garbage s.pool.serial)) := by
    rw [← h.length]
    exact List.getElem?_concat_length
  refine ⟨?_, ?_, ?_, ?_, ?_, ?_⟩
  · show (s.made garbage pool).length = pool.serial
    rw [hmade, List.length_append, h.length, hserial]
    rfl
  · show pool.held.map Task.serial = Multiset.range pool.serial
    rw [hheld, Multiset.map_cons, h.serials, hserial, Multiset.range_succ]
  · show ∀ future ∈ s.made garbage pool, Reached future
    rw [hmade]
    exact List.forall_mem_append.mpr
      ⟨h.reached, List.forall_mem_singleton.mpr ⟨_, [], Machine.Run.nil⟩⟩
  · have htasks : pool.tasks = ⟨address, result, s.pool.serial⟩ :: s.pool.tasks := by
      rw [Pool.async_cases hs]
    show ∀ task ∈ pool.tasks, _
    rw [htasks]
    exact List.forall_mem_cons.mpr
      ⟨⟨Future.create (garbage s.pool.serial), hmade ▸ hnew, rfl⟩,
        fun task htask => (h.queued task htask).append hmade⟩
  · have hthreads : pool.threads = s.pool.threads := by rw [Pool.async_cases hs]
    exact fun task htask => (h.running task (hthreads ▸ htask)).append hmade
  · have hran : pool.ran = s.pool.ran := by rw [Pool.async_cases hs]
    exact fun task htask => (h.ran task (hran ▸ htask)).append hmade

/-- `ShutDown` goes on without making a task. -/
theorem linked_phase {caller : ShutDown} (h : Linked s) :
    Linked {s with pool := {s.pool with shutDown := caller}} :=
  ⟨h.length, h.serials, h.reached, h.queued, h.running, h.ran⟩

theorem made_same {pool : Pool} (h : pool.serial = s.pool.serial) : s.made garbage pool = s.futures :=
  if_pos h

theorem linked_dequeue {w : ℕ} {pool : Pool} (h : Linked s) (hs : s.pool.step (.dequeue w) = some pool) :
    Linked ⟨pool, s.futures⟩ := by
  have hheld := Pool.held_dequeue hs
  obtain ⟨task, hw, htop, hpool⟩ := Pool.dequeue_cases hs
  have hserial : pool.serial = s.pool.serial := by rw [hpool]
  refine ⟨h.length.trans hserial.symm, ?_, h.reached, ?_, ?_, ?_⟩
  · show pool.held.map Task.serial = Multiset.range pool.serial
    rw [hheld, hserial, h.serials]
  · show ∀ other ∈ pool.tasks, _
    rw [hpool]
    exact fun other hother => h.queued other (List.mem_of_mem_erase hother)
  · show ∀ other, .run other ∈ pool.threads → _
    rw [hpool]
    intro other hother
    rcases Bag.mem_set hother with heq | hother
    · obtain rfl := Worker.run.inj heq
      obtain ⟨future, hk, hwaits⟩ := h.queued other (Pool.top_mem htop)
      exact ⟨future, hk, Or.inl hwaits⟩
    · exact h.running other hother
  · show ∀ other ∈ pool.ran, _
    rw [hpool]
    exact h.ran

theorem linked_pool {l : ThreadPool.Label} (h : Linked s) (hs : step garbage s (.pool l) = some s') :
    Linked s' := by
  obtain ⟨hrun, hpool, hfutures⟩ := pool_cases hs
  obtain ⟨pool, futures⟩ := s'
  obtain rfl : futures = s.made garbage pool := hfutures
  cases l with
  | async result address => exact linked_async h hpool pool.shutDown
  | shutDown =>
    obtain ⟨-, rfl⟩ := Pool.shutDown_cases hpool
    exact made_same (s := s) rfl ▸ linked_phase h
  | stop address =>
    obtain ⟨i, -, ⟨u, hu, rfl⟩ | rfl⟩ := Pool.stop_cases hpool
    · exact linked_async h hu (.stopping (i + 1))
    · exact made_same (s := s) rfl ▸ linked_phase h
  | join =>
    obtain ⟨i, -, -, rfl⟩ := Pool.join_cases hpool
    exact made_same (s := s) rfl ▸ linked_phase h
  | dequeue w =>
    have hserial : pool.serial = s.pool.serial := by
      obtain ⟨task, -, -, rfl⟩ := Pool.dequeue_cases hpool
      rfl
    exact made_same hserial ▸ linked_dequeue h hpool
  | run w => cases hrun

/-- A step inside a task that neither begins nor ends its run. -/
theorem linked_inside {serial : ℕ} {l : Future.Label} {old new : Future.Task} (h : Linked s)
    (hk : s.futures[serial]? = some old) (hnew : Future.step old l = some new)
    (hrunner : new.runner = old.runner) (hresult : new.result = old.result) :
    Linked {s with futures := s.futures.set serial new} := by
  refine ⟨List.length_set.trans h.length, h.serials, reached_set h.reached hk hnew,
    fun task htask => ?_, fun task htask => ?_, fun task htask => ?_⟩
  · exact (h.queued task htask).set hk rfl fun hold => hrunner.trans hold
  · exact (h.running task htask).set hk rfl fun hold => by rwa [Runs, hrunner, hresult]
  · exact (h.ran task htask).set hk rfl fun hold => by rwa [Ran, hrunner, hresult]

/-- A call of `Wait` is made, or goes on. -/
theorem wait_kept {l : Future.Label} {old new : Future.Task} (hl : ofWait l = true ∨ l = .call)
    (hs : Future.step old l = some new) : new.runner = old.runner ∧ new.result = old.result := by
  cases l with
  | call =>
    obtain rfl := Option.some.inj hs
    exact ⟨rfl, rfl⟩
  | test k =>
    obtain ⟨-, ⟨-, rfl⟩ | ⟨-, rfl⟩⟩ := Future.test_cases hs
    · exact ⟨rfl, rfl⟩
    · exact ⟨rfl, rfl⟩
  | wakeUp k =>
    obtain ⟨-, rfl⟩ := Future.wakeUp_cases hs
    exact ⟨rfl, rfl⟩
  | getStatus k =>
    obtain ⟨-, rfl⟩ := Future.getStatus_cases hs
    exact ⟨rfl, rfl⟩
  | function result => rcases hl with hl | hl <;> cases hl
  | post notified => rcases hl with hl | hl <;> cases hl

theorem linked_function {w : ℕ} (h : Linked s) (hs : step garbage s (.function w) = some s') : Linked s' := by
  obtain ⟨task, old, new, hw, hk, hnew, rfl⟩ := function_cases hs
  have hrun := List.mem_of_getElem? hw
  have hreached := reached_set h.reached hk hnew
  obtain ⟨hrunner, rfl⟩ := Future.function_cases hnew
  refine ⟨List.length_set.trans h.length, h.serials, hreached, fun other hother => ?_, fun other hother => ?_,
    fun other hother => ?_⟩
  · exact (h.queued other hother).set_other rfl (h.queued_ne hrun hother)
  · by_cases heq : task.serial = other.serial
    · obtain rfl := h.running_eq hrun hother heq
      exact At.set_self hk rfl (Or.inr ⟨rfl, rfl⟩)
    · exact (h.running other hother).set_other rfl heq
  · exact (h.ran other hother).set_other rfl (h.ran_ne hrun hother)

/-- The task that was run is with no worker any more. -/
theorem linked_post {w : ℕ} {notified : Option ℕ} (h : Linked s)
    (hs : step garbage s (.post w notified) = some s') : Linked s' := by
  obtain ⟨task, old, new, hw, hk, hpool, hnew, hset⟩ := post_cases hs
  have hrun := List.mem_of_getElem? hw
  have hheld := Pool.held_run hpool
  have hreached : ∀ future ∈ s'.futures, Reached future := hset ▸ reached_set h.reached hk hnew
  obtain ⟨hpost, waiters, rfl, -⟩ := Future.post_cases hnew
  have hold : old.result = some task.result := by
    obtain ⟨future, hk', hruns⟩ := h.running task hrun
    obtain rfl := Option.some.inj (hk.symm.trans hk')
    rcases hruns with hfunction | ⟨-, hresult⟩
    · rw [hpost] at hfunction
      cases hfunction
    · exact hresult
  obtain ⟨task', hw', hpool'⟩ := Pool.run_cases hpool
  obtain rfl := Worker.run.inj (Option.some.inj (hw.symm.trans hw'))
  have hserial : s'.pool.serial = s.pool.serial := by rw [hpool']
  have hserials : s'.pool.held.map Task.serial = Multiset.range s'.pool.serial := by
    rw [hheld, hserial, h.serials]
  have hnodup : (s'.pool.held.map Task.serial).Nodup := hserials ▸ Multiset.nodup_range _
  refine ⟨?_, hserials, hreached, ?_, ?_, ?_⟩
  · rw [hset, List.length_set, h.length, hserial]
  · rw [hpool']
    exact fun other hother => (h.queued other hother).set_other hset (h.queued_ne hrun hother)
  · intro other hother
    have hne : task.serial ≠ other.serial := by
      intro heq
      rw [Pool.held, Multiset.map_add, Multiset.map_add] at hnodup
      have hdisjoint := (Multiset.nodup_add.mp hnodup).2.2
      have hran : task ∈ s'.pool.ran := by
        rw [hpool']
        exact List.mem_cons_self
      exact Multiset.disjoint_left.mp hdisjoint
        (Multiset.mem_add.mpr (Or.inr (Multiset.mem_map_of_mem _ (mem_running hother))))
        (heq ▸ Multiset.mem_map_of_mem _ (Multiset.mem_coe.mpr hran))
    have hother' : .run other ∈ s.pool.threads := by
      rw [hpool'] at hother
      rcases Bag.mem_set hother with hnext | hother
      · have hnone := Pool.running_next task
        rw [← hnext] at hnone
        cases hnone
      · exact hother
    exact (h.running other hother').set_other hset hne
  · rw [hpool']
    refine List.forall_mem_cons.mpr ⟨At.set_self hk hset ⟨rfl, hold⟩, fun other hother => ?_⟩
    exact (h.ran other hother).set_other hset (h.ran_ne hrun hother)

theorem linked_step {l : Label} (h : Linked s) (hs : step garbage s l = some s') : Linked s' := by
  cases l with
  | pool l => exact linked_pool h hs
  | function w => exact linked_function h hs
  | post w notified => exact linked_post h hs
  | wait serial =>
    obtain ⟨old, new, hk, hnew, rfl⟩ := wait_cases hs
    obtain ⟨hrunner, hresult⟩ := wait_kept (Or.inr rfl) hnew
    exact linked_inside h hk hnew hrunner hresult
  | goOn serial l =>
    obtain ⟨hl, old, new, hk, hnew, rfl⟩ := goOn_cases hs
    obtain ⟨hrunner, hresult⟩ := wait_kept (Or.inl hl) hnew
    exact linked_inside h hk hnew hrunner hresult

theorem run_linked {n : ℕ} {trace : List (Clients × Label)}
    (run : (machine garbage n).Run (create n) trace s) :
    Linked s :=
  run.invariant (r := fun _ _ => True) (linked_create n) (fun _ _ _ h _ hs => linked_step h hs)
    fun _ _ => trivial

end Linked

end Clients
end PrivateCloud.ThreadPool
