import Mathlib.Data.List.MinMax
import PrivateCloud.Library.Bag
import PrivateCloud.Library.Machine

/-! The thread pool: `ThreadPool.cpp`.

`async` puts a task on a priority queue of `std::shared_ptr<Task>`. `std::less` on
the pointers orders it, so the task at the greatest address comes out first. A
worker takes a task, runs it and goes back to the queue, unless the task's function
returned `BADAPPLE`: that is how `shutDown` stops the workers, one stop task for
each, and a function that returns the same number for reasons of its own stops one
too.

A machine step is one `Async`, one turn of a loop of `ShutDown`, one `Dequeue` or
one `Run`. Addresses are the allocator's: any that no queued or running task has.
`accepted` and `ran` are histories; nothing reads them. -/
namespace PrivateCloud.ThreadPool

def BADAPPLE : Int := -1

def badApple (_ : Int) : Int := BADAPPLE

/-- A task is its address, what its function returns when it is run, and, to tell
tasks apart that were given one address after the other, the call of `Async` that
made it. -/
structure Task where
  address : ℕ
  result : Int
  serial : ℕ
  deriving DecidableEq

/-- Where a worker is in `TaskDespacher`. -/
inductive Worker where
  | dequeue
  | run (task : Task)
  /-- Out of the loop. -/
  | done
  deriving DecidableEq

/-- Where `ShutDown` is: in the loop that sends the stop tasks, or in the one that
joins the threads. -/
inductive ShutDown where
  | notCalled
  | stopping (i : ℕ)
  | joining (i : ℕ)
  deriving DecidableEq

structure Pool where
  threads : List Worker
  tasks : List Task
  shutDown : ShutDown
  serial : ℕ
  accepted : List Task
  ran : List Task

inductive Label where
  | async (result : Int) (address : ℕ)
  | shutDown
  /-- The next turn of `ShutDown`'s first loop. -/
  | stop (address : ℕ)
  /-- The next turn of its second. -/
  | join
  | dequeue (worker : ℕ)
  | run (worker : ℕ)
  deriving DecidableEq

namespace Pool

def create (numOfThreads : ℕ) : Pool :=
  ⟨List.replicate numOfThreads .dequeue, [], .notCalled, 0, [], []⟩

/-- The task a worker is running. -/
def running : Worker → Option Task
  | .run task => some task
  | _ => none

/-- No queued or running task has this address. -/
def fresh (address : ℕ) (s : Pool) : Bool :=
  (s.tasks ++ s.threads.filterMap running).all fun task => task.address != address

/-- `Async`: the task queued, and on record if `ShutDown` has not been called. -/
def async (result : Int) (address : ℕ) (s : Pool) : Option Pool :=
  let task : Task := ⟨address, result, s.serial⟩
  if s.fresh address then
    some { s with
      tasks := task :: s.tasks
      serial := s.serial + 1
      accepted := if s.shutDown = .notCalled then task :: s.accepted else s.accepted }
  else none

/-- The element `Dequeue` returns. -/
def top (s : Pool) : Option Task := s.tasks.argmax Task.address

def step (s : Pool) : Label → Option Pool
  | .async result address => s.async result address
  | .shutDown => if s.shutDown = .notCalled then some {s with shutDown := .stopping 0} else none
  | .stop address =>
    match s.shutDown with
    | .stopping i =>
      if i < s.threads.length then
        (s.async (badApple 0) address).map fun s => {s with shutDown := .stopping (i + 1)}
      else some {s with shutDown := .joining 0}
    | _ => none
  | .join =>
    match s.shutDown with
    | .joining i =>
      if s.threads[i]? = some .done then some {s with shutDown := .joining (i + 1)} else none
    | _ => none
  | .dequeue w =>
    match s.threads[w]?, s.top with
    | some .dequeue, some task =>
      some {s with threads := s.threads.set w (.run task), tasks := s.tasks.erase task}
    | _, _ => none
  | .run w =>
    match s.threads[w]? with
    | some (.run task) =>
      some { s with
        threads := s.threads.set w (if BADAPPLE = task.result then .done else .dequeue)
        ran := task :: s.ran }
    | _ => none

/-- `ShutDown` has joined every thread. -/
def Returned (s : Pool) : Prop := s.shutDown = .joining s.threads.length

/-- The pool of `num_of_threads` threads. -/
def machine (numOfThreads : ℕ) : Machine Pool Label := ⟨create numOfThreads, step⟩

/-! ### What one step can do -/

theorem async_cases {s s' : Pool} {result : Int} {address : ℕ} (h : s.async result address = some s') :
    s' = { s with
      tasks := ⟨address, result, s.serial⟩ :: s.tasks
      serial := s.serial + 1
      accepted := if s.shutDown = .notCalled then ⟨address, result, s.serial⟩ :: s.accepted
        else s.accepted } := by
  simp only [async] at h
  split at h
  · exact (Option.some.inj h).symm
  · cases h

theorem stop_cases {s s' : Pool} {address : ℕ} (h : s.step (.stop address) = some s') :
    ∃ i, s.shutDown = .stopping i ∧
      ((∃ u, s.async BADAPPLE address = some u ∧ s' = {u with shutDown := .stopping (i + 1)}) ∨
        s' = {s with shutDown := .joining 0}) := by
  simp only [step] at h
  split at h
  case h_1 i hi =>
    refine ⟨i, hi, ?_⟩
    split at h
    case isTrue =>
      obtain ⟨u, hu, rfl⟩ := Option.map_eq_some_iff.mp h
      exact Or.inl ⟨u, hu, rfl⟩
    case isFalse => exact Or.inr (Option.some.inj h).symm
  case h_2 => cases h

theorem join_cases {s s' : Pool} (h : s.step .join = some s') :
    ∃ i, s.shutDown = .joining i ∧ s.threads[i]? = some .done ∧
      s' = {s with shutDown := .joining (i + 1)} := by
  simp only [step] at h
  split at h
  case h_1 i hi =>
    split at h
    case isTrue hdone => exact ⟨i, hi, hdone, (Option.some.inj h).symm⟩
    case isFalse => cases h
  case h_2 => cases h

theorem dequeue_cases {s s' : Pool} {w : ℕ} (h : s.step (.dequeue w) = some s') :
    ∃ task, s.threads[w]? = some .dequeue ∧ s.top = some task ∧
      s' = {s with threads := s.threads.set w (.run task), tasks := s.tasks.erase task} := by
  simp only [step] at h
  split at h
  case h_1 task hw ht => exact ⟨task, hw, ht, (Option.some.inj h).symm⟩
  case h_2 => cases h

theorem run_cases {s s' : Pool} {w : ℕ} (h : s.step (.run w) = some s') :
    ∃ task, s.threads[w]? = some (.run task) ∧ s' = { s with
      threads := s.threads.set w (if BADAPPLE = task.result then .done else .dequeue)
      ran := task :: s.ran } := by
  simp only [step] at h
  split at h
  case h_1 task hw => exact ⟨task, hw, (Option.some.inj h).symm⟩
  case h_2 => cases h

theorem shutDown_cases {s s' : Pool} (h : s.step .shutDown = some s') :
    s.shutDown = .notCalled ∧ s' = {s with shutDown := .stopping 0} := by
  simp only [step] at h
  split at h
  case isTrue hn => exact ⟨hn, (Option.some.inj h).symm⟩
  case isFalse => cases h

theorem top_mem {s : Pool} {task : Task} (h : s.top = some task) : task ∈ s.tasks :=
  List.argmax_mem h

/-- The greatest address comes out first. -/
theorem le_top {s : Pool} {task other : Task} (h : s.top = some task) (ho : other ∈ s.tasks) :
    other.address ≤ task.address :=
  List.le_of_mem_argmax ho h

/-- No step changes the number of threads. -/
theorem step_threads {s s' : Pool} {l : Label} (h : s.step l = some s') :
    s'.threads.length = s.threads.length := by
  cases l with
  | async result address =>
    rw [async_cases h]
  | shutDown =>
    rw [(shutDown_cases h).2]
  | stop address =>
    obtain ⟨i, _, ⟨u, hu, rfl⟩ | rfl⟩ := stop_cases h
    · rw [async_cases hu]
    · rfl
  | join =>
    obtain ⟨i, _, _, rfl⟩ := join_cases h
    rfl
  | dequeue w =>
    obtain ⟨task, _, _, rfl⟩ := dequeue_cases h
    exact List.length_set
  | run w =>
    obtain ⟨task, _, rfl⟩ := run_cases h
    exact List.length_set

end Pool
end PrivateCloud.ThreadPool
