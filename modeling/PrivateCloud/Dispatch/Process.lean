import PrivateCloud.Dispatch.Refinement
import PrivateCloud.ThreadPool.Drain
import PrivateCloud.ThreadPool.Workers

/-! The server on the threads it has.

In `System` every task that was handed to the pool can take its next step at any moment.
In the process it takes one of the pool's threads to do that: a task waits in the pool's
queue until a worker takes it, which may be long after it was put there and in another
order, and the worker is gone for other tasks until the task's loop has ended.

A `Process` is the server and its pool, moving together. What it does is something that the
server could do by itself, so what holds of the server's runs holds of its
(`run_serves`). What the threads add is that they do not stop it: with one
thread or more whatever is left to do gets done, however few the threads are and however
long a task keeps them. -/
namespace PrivateCloud.Dispatch
open Nbd Host
open ThreadPool (Pool Worker)

structure Process where
  server : System
  pool : Pool
  /-- The numbers the pool has given to the server's tasks, in their order. -/
  serials : List ℕ

inductive Act where
  | nbd (message : NbdMessage)
  /-- One `Async` of the loop in `Distribute`, for a task the allocator puts here. -/
  | async (address : ℕ)
  | dequeue (worker : ℕ)
  /-- The loop condition of the task a worker runs. -/
  | test (worker : ℕ) (seen : UInt32)
  /-- The body of its loop. -/
  | send (worker : ℕ) (junk : Memory)
  | answer (k : ℕ) (header : AtlasHeader) (data : List UInt8)
  | iot (sockfd : ℕ) (cuts : ℕ → ℕ)

def Act.takes : Act → List NbdMessage
  | .nbd message => [message]
  | _ => []

namespace Process

def init (numOfThreads : ℕ) : Process := ⟨System.init, Pool.create numOfThreads, []⟩

/-- Which of the server's tasks a worker runs; none is past the last one. -/
def slot (s : Process) (w : ℕ) : ℕ :=
  match s.pool.threads[w]? with
  | some (.run task) => s.serials.idxOf task.serial
  | _ => s.server.tasks.length

/-- The loop ends with this test: `SendMsgWrapper` returns 0 to its worker. -/
def ends (s : Process) (w : ℕ) (seen : UInt32) : Bool :=
  match s.server.tasks[s.slot w]? with
  | some task => ¬task.i < fragments (s.server.dataLenAt task.owner seen)
  | none => false

/-- What it is for the server. -/
def toServer (s : Process) : Act → Option Label
  | .nbd message => some (.nbd message)
  | .async _ => some .async
  | .dequeue _ => none
  | .test w seen => some (.test (s.slot w) seen)
  | .send w junk => some (.send (s.slot w) junk)
  | .answer k header data => some (.answer k header data)
  | .iot sockfd cuts => some (.iot sockfd cuts)

/-- What it is for the pool. -/
def toPool (s : Process) : Act → Option ThreadPool.Label
  | .async address => some (.async 0 address)
  | .dequeue w => some (.dequeue w)
  | .test w seen => if s.ends w seen then some (.run w) else none
  | .nbd _ | .send _ _ | .answer _ _ _ | .iot _ _ => none

def serialsAfter (s : Process) : Act → List ℕ
  | .async _ => s.pool.serial :: s.serials
  | .test w seen => if s.ends w seen then s.serials.eraseIdx (s.slot w) else s.serials
  | .nbd _ | .dequeue _ | .send _ _ | .answer _ _ _ | .iot _ _ => s.serials

def step (s : Process) (a : Act) : Option Process :=
  match Machine.maybe System.step s.server (s.toServer a), Machine.maybe Pool.step s.pool (s.toPool a) with
  | some server, some pool => some ⟨server, pool, s.serialsAfter a⟩
  | _, _ => none

/-- The process whose pool has `num_of_threads` threads. -/
def machine (numOfThreads : ℕ) : Machine Process Act := ⟨init numOfThreads, step⟩

/-- What the server is assumed of its client, nodes and sockets. -/
def Allowed (s : Process) (a : Act) : Prop := ∀ l ∈ s.toServer a, System.Contract s.server l

/-- The requests a run took, in the order they came in. -/
def arrivals (trace : List (Process × Act)) : List NbdMessage :=
  (trace.map Prod.snd).flatMap Act.takes

/-! ### The two parts of a step -/

variable {s s' : Process} {a : Act}

theorem step_cases (h : s.step a = some s') :
    Machine.maybe System.step s.server (s.toServer a) = some s'.server ∧
      Machine.maybe Pool.step s.pool (s.toPool a) = some s'.pool ∧ s'.serials = s.serialsAfter a := by
  simp only [step] at h
  split at h
  case h_1 server pool hserver hpool =>
    obtain rfl := Option.some.inj h
    exact ⟨hserver, hpool, rfl⟩
  case h_2 => cases h

theorem step_of {server : System} {pool : Pool}
    (hserver : Machine.maybe System.step s.server (s.toServer a) = some server)
    (hpool : Machine.maybe Pool.step s.pool (s.toPool a) = some pool) :
    s.step a = some ⟨server, pool, s.serialsAfter a⟩ := by
  simp only [step, hserver, hpool]

/-- The server's part of a run is a run of the server. -/
theorem run_server {n : ℕ} {trace : List (Process × Act)} (run : (machine n).Run (init n) trace s) :
    System.machine.Run System.init (Machine.project server toServer trace) s.server :=
  run.project server toServer fun _ _ _ hs => (step_cases hs).1

theorem arrivals_server (trace : List (Process × Act)) :
    System.arrivals (Machine.project server toServer trace) = arrivals trace := by
  induction trace with
  | nil => rfl
  | cons e trace ih =>
    obtain ⟨s, a⟩ := e
    have hproject : System.arrivals (Machine.project server toServer ((s, a) :: trace)) =
        (s.toServer a).elim [] Label.takes ++
          System.arrivals (Machine.project server toServer trace) := by
      cases hl : s.toServer a <;> simp [Machine.project, System.arrivals, hl]
    have htakes : (s.toServer a).elim [] Label.takes = a.takes := by
      cases a <;> rfl
    rw [hproject, htakes, ih]
    rfl

/-! ### The pool's tasks and the server's -/

/-- The reactor has read from a socket that had something, and touched no task. -/
theorem iot_frame {t t' : System} {sockfd : ℕ} {cuts : ℕ → ℕ} (h : t.step (.iot sockfd cuts) = some t') :
    t.queueing = [] ∧ t.stream sockfd ≠ [] ∧ t'.tasks = t.tasks ∧
      ∃ bytes, t'.stream = Function.update t.stream sockfd bytes := by
  simp only [System.step, System.iot] at h
  split at h
  case isTrue hready =>
    split at h
    case h_1 => cases h
    case h_2 disp socket _ =>
      rw [← Option.some.inj h]
      exact ⟨hready.1, hready.2, rfl, socket.bytes, rfl⟩
  case isFalse => cases h

/-- The tasks the pool has not finished with. -/
def unfinished (p : Pool) : Multiset ThreadPool.Task :=
  (p.tasks : Multiset ThreadPool.Task) + (p.threads : Multiset Worker).filterMap Pool.running

theorem unfinished_async {p p' : Pool} {result : Int} {address : ℕ}
    (h : p.step (.async result address) = some p') :
    unfinished p' = ⟨address, result, p.serial⟩ ::ₘ unfinished p := by
  have h : p.async result address = some p' := h
  rw [Pool.async_cases h]
  simp only [unfinished, ← Multiset.cons_coe, Multiset.cons_add]

theorem unfinished_dequeue {p p' : Pool} {w : ℕ} (h : p.step (.dequeue w) = some p') :
    unfinished p' = unfinished p := by
  obtain ⟨task, hw, ht, rfl⟩ := Pool.dequeue_cases h
  simp only [unfinished, Bag.coe_set hw, Bag.coe_eq_cons hw, Bag.coe_erase (Pool.top_mem ht)]
  rw [Multiset.filterMap_cons_some _ _ _ (Pool.running_run task),
    Multiset.filterMap_cons_none _ _ Pool.running_dequeue]
  simp only [Multiset.cons_add, Multiset.add_cons]

theorem unfinished_run {p p' : Pool} {w : ℕ} {task : ThreadPool.Task}
    (hw : p.threads[w]? = some (.run task)) (h : p.step (.run w) = some p') :
    unfinished p = task ::ₘ unfinished p' := by
  obtain ⟨task', hw', rfl⟩ := Pool.run_cases h
  obtain rfl : task' = task := by
    have heq := Option.some.inj (hw'.symm.trans hw)
    exact Worker.run.inj heq
  simp only [unfinished, Bag.coe_set hw, Bag.coe_eq_cons hw]
  rw [Multiset.filterMap_cons_none _ _ (Pool.running_next task'),
    Multiset.filterMap_cons_some _ _ _ (Pool.running_run task'), Multiset.add_cons]

theorem mem_unfinished_running {p : Pool} {w : ℕ} {task : ThreadPool.Task}
    (h : p.threads[w]? = some (.run task)) : task ∈ unfinished p := by
  refine Multiset.mem_add.mpr (Or.inr (Multiset.mem_filterMap _ _ |>.mpr ⟨_, ?_, Pool.running_run task⟩))
  exact Multiset.mem_coe.mpr (List.mem_of_getElem? h)

/-- The server's tasks are those the pool has not finished with, and the pool has all its
threads. -/
structure Linked (n : ℕ) (s : Process) : Prop where
  length : s.serials.length = s.server.tasks.length
  nodup : s.serials.Nodup
  fresh : ∀ k ∈ s.serials, k < s.pool.serial
  shared : (s.serials : Multiset ℕ) = (unfinished s.pool).map ThreadPool.Task.serial
  returns : ∀ task ∈ unfinished s.pool, task.result = 0
  threads : s.pool.threads.length = n
  loops : ∀ worker ∈ s.pool.threads, worker ≠ .done

theorem linked_init (n : ℕ) : Linked n (init n) where
  length := rfl
  nodup := List.nodup_nil
  fresh := fun _ hk => absurd hk List.not_mem_nil
  shared := by
    simp only [init, unfinished, Pool.create, Multiset.filterMap_coe,
      List.filterMap_replicate_of_none Pool.running_dequeue]
    rfl
  returns := by
    simp only [init, unfinished, Pool.create, Multiset.filterMap_coe,
      List.filterMap_replicate_of_none Pool.running_dequeue]
    exact fun _ htask => absurd htask (Multiset.notMem_zero _)
  threads := List.length_replicate
  loops := by
    intro worker hworker hdone
    rw [List.eq_of_mem_replicate hworker] at hdone
    cases hdone

section Linked
variable {n : ℕ}

/-- What a worker runs is a task of the server's. -/
theorem Linked.running (h : Linked n s) {w : ℕ} {task : ThreadPool.Task}
    (hw : s.pool.threads[w]? = some (.run task)) :
    s.slot w = s.serials.idxOf task.serial ∧ task.serial ∈ s.serials ∧
      ∃ t, s.server.tasks[s.slot w]? = some t := by
  have hslot : s.slot w = s.serials.idxOf task.serial := by simp only [slot, hw]
  have hmem : task.serial ∈ s.serials := by
    have hshared : task.serial ∈ (unfinished s.pool).map ThreadPool.Task.serial :=
      Multiset.mem_map_of_mem _ (mem_unfinished_running hw)
    rwa [← h.shared, Multiset.mem_coe] at hshared
  have hlt : s.slot w < s.server.tasks.length := by
    rw [← h.length, hslot]
    exact List.idxOf_lt_length_of_mem hmem
  exact ⟨hslot, hmem, _, List.getElem?_eq_getElem hlt⟩

/-- A step that changes neither the pool nor which tasks there are. -/
theorem Linked.quiet (h : Linked n s) (hpool : s'.pool = s.pool) (hserials : s'.serials = s.serials)
    (hlength : s'.server.tasks.length = s.server.tasks.length) : Linked n s' where
  length := by rw [hserials, hlength, h.length]
  nodup := hserials ▸ h.nodup
  fresh := by
    rw [hserials, hpool]
    exact h.fresh
  shared := by rw [hserials, hpool, h.shared]
  returns := hpool ▸ h.returns
  threads := hpool ▸ h.threads
  loops := hpool ▸ h.loops

theorem linked_async (h : Linked n s) {address : ℕ} (hs : s.step (.async address) = some s') :
    Linked n s' := by
  obtain ⟨hserver, hpool, hserials⟩ := step_cases hs
  have hpool : s.pool.step (.async 0 address) = some s'.pool := hpool
  have hserials : s'.serials = s.pool.serial :: s.serials := hserials
  have hunfinished := unfinished_async hpool
  obtain ⟨task, rest, -, hserver⟩ := System.async_cases hserver
  have hcases := Pool.async_cases hpool
  have hnew : s.pool.serial ∉ s.serials := fun hmem => Nat.lt_irrefl _ (h.fresh _ hmem)
  refine ⟨?_, ?_, ?_, ?_, ?_, ?_, ?_⟩
  · rw [hserials, hserver, List.length_cons, List.length_cons, h.length]
  · rw [hserials]
    exact List.nodup_cons.mpr ⟨hnew, h.nodup⟩
  · rw [hserials, hcases]
    intro k hk
    rcases List.mem_cons.mp hk with rfl | hk
    · exact Nat.lt_succ_self _
    · exact Nat.lt_succ_of_lt (h.fresh k hk)
  · rw [hserials, hunfinished, Multiset.map_cons, ← h.shared, Multiset.cons_coe]
  · rw [hunfinished]
    intro task htask
    rcases Multiset.mem_cons.mp htask with rfl | htask
    · rfl
    · exact h.returns task htask
  · rw [hcases]
    exact h.threads
  · rw [hcases]
    exact h.loops

theorem linked_dequeue (h : Linked n s) {w : ℕ} (hs : s.step (.dequeue w) = some s') :
    Linked n s' := by
  obtain ⟨hserver, hpool, hserials⟩ := step_cases hs
  have hserver : s'.server = s.server := (Option.some.inj hserver).symm
  have hpool : s.pool.step (.dequeue w) = some s'.pool := hpool
  have hserials : s'.serials = s.serials := hserials
  have hunfinished := unfinished_dequeue hpool
  obtain ⟨task, -, -, hcases⟩ := Pool.dequeue_cases hpool
  refine ⟨?_, hserials ▸ h.nodup, ?_, ?_, ?_, ?_, ?_⟩
  · rw [hserials, hserver, h.length]
  · rw [hserials, hcases]
    exact h.fresh
  · rw [hserials, hunfinished, h.shared]
  · rw [hunfinished]
    exact h.returns
  · rw [hcases, List.length_set, h.threads]
  · rw [hcases]
    intro worker hworker
    rcases Bag.mem_set hworker with rfl | hworker
    · nofun
    · exact h.loops worker hworker

/-- A task whose loop has ended leaves the server and the pool together. -/
theorem linked_ended (h : Linked n s) {w : ℕ} {seen : UInt32} (hs : s.step (.test w seen) = some s')
    (hends : s.ends w seen = true) (htasks : s'.server.tasks = s.server.tasks.eraseIdx (s.slot w)) :
    Linked n s' := by
  obtain ⟨-, hpool, hserials⟩ := step_cases hs
  simp only [toPool, hends, if_true] at hpool
  simp only [serialsAfter, hends, if_true] at hserials
  have hpool : s.pool.step (.run w) = some s'.pool := hpool
  obtain ⟨task, hw, hcases⟩ := Pool.run_cases hpool
  obtain ⟨hslot, hmem, -⟩ := h.running hw
  have hunfinished := unfinished_run hw hpool
  have hserials : s'.serials = s.serials.erase task.serial := by
    rw [hserials, hslot]
    exact (List.erase_eq_eraseIdx_of_idxOf rfl).symm
  have hlt : s.slot w < s.server.tasks.length := by
    rw [← h.length, hslot]
    exact List.idxOf_lt_length_of_mem hmem
  have hreturns : task.result = 0 := by
    apply h.returns task
    rw [hunfinished]
    exact Multiset.mem_cons_self _ _
  refine ⟨?_, ?_, ?_, ?_, ?_, ?_, ?_⟩
  · rw [hserials, htasks, List.length_erase_of_mem hmem, List.length_eraseIdx_of_lt hlt, h.length]
  · rw [hserials]
    exact h.nodup.erase _
  · rw [hserials, hcases]
    exact fun k hk => h.fresh k (List.mem_of_mem_erase hk)
  · have hshared := h.shared
    rw [hunfinished, Multiset.map_cons, Bag.coe_erase hmem, Multiset.cons_inj_right] at hshared
    rw [hserials, hshared]
  · intro other hother
    apply h.returns other
    rw [hunfinished]
    exact Multiset.mem_cons_of_mem hother
  · rw [hcases, List.length_set, h.threads]
  · rw [hcases]
    intro worker hworker
    rcases Bag.mem_set hworker with rfl | hworker
    · rw [hreturns]
      nofun
    · exact h.loops worker hworker

theorem linked_test (h : Linked n s) {w : ℕ} {seen : UInt32} (hs : s.step (.test w seen) = some s') :
    Linked n s' := by
  obtain ⟨hserver, hpool, hserials⟩ := step_cases hs
  obtain ⟨task, hk, -, ⟨hi, hserver⟩ | ⟨hi, hserver⟩⟩ := System.test_cases hserver
  · have hends : s.ends w seen = false := by simp [ends, hk, hi]
    simp only [toPool, hends] at hpool
    simp only [serialsAfter, hends] at hserials
    apply h.quiet (Option.some.inj hpool).symm hserials
    rw [hserver, List.length_set]
  · have hends : s.ends w seen = true := by simpa [ends, hk] using hi
    apply linked_ended h hs hends
    rw [hserver]

theorem linked_step (h : Linked n s) (hs : s.step a = some s') : Linked n s' := by
  cases a with
  | async address => exact linked_async h hs
  | dequeue w => exact linked_dequeue h hs
  | test w seen => exact linked_test h hs
  | nbd message =>
    obtain ⟨hserver, hpool, hserials⟩ := step_cases hs
    obtain ⟨-, hserver⟩ := System.nbd_cases hserver
    exact h.quiet (Option.some.inj hpool).symm hserials (hserver ▸ rfl)
  | send w junk =>
    obtain ⟨hserver, hpool, hserials⟩ := step_cases hs
    obtain ⟨task, command, -, -, -, hserver⟩ := System.send_cases hserver
    apply h.quiet (Option.some.inj hpool).symm hserials
    rw [hserver, List.length_set]
  | answer k header data =>
    obtain ⟨hserver, hpool, hserials⟩ := step_cases hs
    obtain ⟨m, -, hserver⟩ := System.answer_cases hserver
    exact h.quiet (Option.some.inj hpool).symm hserials (hserver ▸ rfl)
  | iot sockfd cuts =>
    obtain ⟨hserver, hpool, hserials⟩ := step_cases hs
    apply h.quiet (Option.some.inj hpool).symm hserials
    rw [(iot_frame hserver).2.2.1]

theorem run_linked {trace : List (Process × Act)} (run : (machine n).Run (init n) trace s) :
    Linked n s :=
  run.invariant (r := fun _ _ => True) (linked_init n) (fun _ _ _ h _ hs => linked_step h hs)
    fun _ _ => trivial

/-! ### What the threads can do -/

/-- A step that takes no request, and is allowed. -/
def Moves (s : Process) : Prop := ∃ a s', Allowed s a ∧ s.step a = some s' ∧ a.takes = []

theorem allowed_of {l : Label} (hl : s.toServer a = some l) (hc : System.Contract s.server l) :
    Allowed s a := by
  intro l' hl'
  obtain rfl := Option.some.inj (hl.symm.trans hl')
  exact hc

/-- A step of the server that the pool has no part in. -/
theorem moves_server {l : Label} {server : System} (hl : s.toServer a = some l)
    (hpool : s.toPool a = none) (htakes : a.takes = []) (hc : System.Contract s.server l)
    (hs : s.server.step l = some server) : Moves s := by
  have hserver : Machine.maybe System.step s.server (s.toServer a) = some server := by
    rw [hl]
    exact hs
  have hsame : Machine.maybe Pool.step s.pool (s.toPool a) = some s.pool := by
    rw [hpool]
    rfl
  exact ⟨a, _, allowed_of hl hc, step_of hserver hsame, htakes⟩

theorem async_moves {task : Task} {rest : List Task} (hq : s.server.queueing = task :: rest) :
    Moves s := by
  obtain ⟨address, hfresh⟩ : ∃ address, s.pool.fresh address = true :=
    Bag.exists_fresh ThreadPool.Task.address _
  have hserver : ∃ server, s.server.step .async = some server := by
    simp only [System.step, System.async, hq]
    exact ⟨_, rfl⟩
  have hpool : ∃ pool, s.pool.step (.async 0 address) = some pool := by
    simp only [Pool.step, Pool.async, hfresh, if_true]
    exact ⟨_, rfl⟩
  obtain ⟨server, hserver⟩ := hserver
  obtain ⟨pool, hpool⟩ := hpool
  exact ⟨.async address, _, allowed_of rfl ⟨trivial, trivial, trivial, trivial, trivial⟩,
    step_of hserver hpool, rfl⟩

/-- A worker that runs a task can go on with it. -/
theorem Linked.running_moves (h : Linked n s) {ms : List NbdMessage} (hsim : System.Sim s.server ms)
    {w : ℕ} {task : ThreadPool.Task} (hw : s.pool.threads[w]? = some (.run task)) : Moves s := by
  obtain ⟨-, -, t, hk⟩ := h.running hw
  have hok := hsim.inv.task t (Or.inr (List.mem_of_getElem? hk))
  obtain ⟨owner, info, i, pc⟩ := t
  cases pc with
  | test =>
    have hlength : System.SeesLength s.server (.test (s.slot w) (s.server.req owner).dataLen) := by
      intro other hother
      obtain rfl := Option.some.inj (hk.symm.trans hother)
      rfl
    have hserver : ∃ server, s.server.step (.test (s.slot w) (s.server.req owner).dataLen) = some server := by
      simp only [System.step, System.test, hk]
      split <;> exact ⟨_, rfl⟩
    have hpool : ∃ pool, Machine.maybe Pool.step s.pool
        (s.toPool (.test w (s.server.req owner).dataLen)) = some pool := by
      simp only [toPool]
      split
      · simp only [Machine.maybe, Pool.step, hw]
        exact ⟨_, rfl⟩
      · exact ⟨_, rfl⟩
    obtain ⟨server, hserver⟩ := hserver
    obtain ⟨pool, hpool⟩ := hpool
    have hc : System.Contract s.server (.test (s.slot w) (s.server.req owner).dataLen) :=
      ⟨trivial, trivial, trivial, trivial, hlength⟩
    exact ⟨.test w (s.server.req owner).dataLen, _, allowed_of rfl hc, step_of hserver hpool, rfl⟩
  | body =>
    have hcommand : ∃ command, creators.create info.atlasHeader.type = some command := by
      have hinfo : info = (s.server.host owner).infoAt i.toNat := hok.info
      have htype : info.atlasHeader.type = (s.server.req owner).reqType := by
        rw [hinfo, RequestHost.infoAt_eq]
        rfl
      rw [htype]
      rcases hsim.types owner hok.owner with hread | hwrite
      · exact ⟨.readRequest, by rw [hread]; rfl⟩
      · exact ⟨.writeRequest, by rw [hwrite]; rfl⟩
    obtain ⟨command, hcommand⟩ := hcommand
    have hserver : ∃ server, s.server.step (.send (s.slot w) fun _ => 0) = some server := by
      simp only [System.step, System.send, hk, hcommand]
      exact ⟨_, rfl⟩
    obtain ⟨server, hserver⟩ := hserver
    exact moves_server (a := .send w fun _ => 0) rfl rfl rfl ⟨trivial, trivial, trivial, trivial, trivial⟩
      hserver

/-- With no worker running anything, a task that is left is in the queue. -/
theorem Linked.queued (h : Linked n s) (hidle : ∀ (w : ℕ) task, s.pool.threads[w]? ≠ some (Worker.run task)) :
    s.pool.tasks.length = s.server.tasks.length ∧ ∀ worker ∈ s.pool.threads, worker = .dequeue := by
  have hwaiting : ∀ worker ∈ s.pool.threads, worker = .dequeue := by
    intro worker hworker
    obtain ⟨w, hw⟩ := List.mem_iff_getElem?.mp hworker
    cases worker with
    | dequeue => rfl
    | run task => exact absurd hw (hidle w task)
    | done => exact absurd rfl (h.loops _ hworker)
  refine ⟨?_, hwaiting⟩
  have hnone : s.pool.threads.filterMap Pool.running = [] := by
    rw [List.filterMap_eq_nil_iff]
    intro worker hworker
    rw [hwaiting worker hworker]
    rfl
  have hcard := congrArg Multiset.card h.shared
  rw [Multiset.card_map, unfinished, Multiset.filterMap_coe, hnone, Multiset.card_add, Multiset.coe_card,
    Multiset.coe_card, Multiset.coe_card] at hcard
  rw [← h.length, hcard]
  rfl

theorem Linked.task_moves (h : Linked n s) (hn : 0 < n) {ms : List NbdMessage}
    (hsim : System.Sim s.server ms) (htasks : s.server.tasks ≠ []) : Moves s := by
  by_cases hrunning : ∃ (w : ℕ) (task : ThreadPool.Task), s.pool.threads[w]? = some (Worker.run task)
  · obtain ⟨w, task, hw⟩ := hrunning
    exact h.running_moves hsim hw
  · -- Everybody waits at the queue, and the queue has a task.
    obtain ⟨hlength, hwaiting⟩ := h.queued fun w task hw => hrunning ⟨w, task, hw⟩
    have hpos : 0 < s.pool.threads.length := h.threads.symm ▸ hn
    have hw : s.pool.threads[0]? = some .dequeue := by
      rw [List.getElem?_eq_getElem hpos, hwaiting _ (List.getElem_mem hpos)]
    have htop : ∃ task, s.pool.top = some task := by
      rw [← Option.isSome_iff_exists, ← Option.ne_none_iff_isSome, Pool.top, ne_eq, List.argmax_eq_none]
      intro hnil
      rw [hnil] at hlength
      exact htasks (List.length_eq_zero_iff.mp hlength.symm)
    obtain ⟨task, htop⟩ := htop
    have hpool : ∃ pool, s.pool.step (.dequeue 0) = some pool := by
      simp only [Pool.step, hw, htop]
      exact ⟨_, rfl⟩
    obtain ⟨pool, hpool⟩ := hpool
    refine ⟨.dequeue 0, _, ?_, step_of (a := .dequeue 0) rfl hpool, rfl⟩
    intro l hl
    cases hl

/-- **The threads do not stop the server**: with one of them or more, as long as there is
something left to do, something can be done. -/
theorem Linked.progress (h : Linked n s) (hn : 0 < n) {ms : List NbdMessage}
    (hsim : System.Sim s.server ms) (hbusy : ¬System.Idle s.server) : Moves s := by
  cases hq : s.server.queueing with
  | cons task rest => exact async_moves hq
  | nil =>
    by_cases htasks : s.server.tasks = []
    · -- No task is left, so it is the nodes or the reactor that moves.
      obtain ⟨l, server, hc, hs, htakes⟩ := hsim.progress hbusy
      cases l with
      | nbd message => cases htakes
      | async =>
        obtain ⟨task, rest, hcons, -⟩ := System.async_cases hs
        cases hq.symm.trans hcons
      | test k seen =>
        obtain ⟨task, hk, -⟩ := System.test_cases hs
        rw [htasks] at hk
        cases hk
      | send k junk =>
        obtain ⟨task, command, hk, -⟩ := System.send_cases hs
        rw [htasks] at hk
        cases hk
      | answer k header data => exact moves_server (a := .answer k header data) rfl rfl rfl hc hs
      | iot sockfd cuts => exact moves_server (a := .iot sockfd cuts) rfl rfl rfl hc hs
    · exact h.task_moves hn hsim htasks

end Linked

/-! ### How much there is left to do -/

/-- The server's steps that are left, and a queued task's way to its worker. -/
def work (s : Process) : ℕ := 2 * s.server.work + s.pool.tasks.length

/-- A step is a worker's taking a task, or one of the server's. -/
theorem step_server (htakes : a.takes = []) (hs : s.step a = some s') :
    (∃ w, a = .dequeue w) ∨ ∃ l, s.toServer a = some l ∧ l.takes = [] ∧
      s.server.step l = some s'.server := by
  obtain ⟨hserver, -, -⟩ := step_cases hs
  cases a with
  | nbd message => cases htakes
  | dequeue w => exact Or.inl ⟨w, rfl⟩
  | async address => exact Or.inr ⟨_, rfl, rfl, hserver⟩
  | test w seen => exact Or.inr ⟨_, rfl, rfl, hserver⟩
  | send w junk => exact Or.inr ⟨_, rfl, rfl, hserver⟩
  | answer k header data => exact Or.inr ⟨_, rfl, rfl, hserver⟩
  | iot sockfd cuts => exact Or.inr ⟨_, rfl, rfl, hserver⟩

/-- The queue grows by what is put there. -/
theorem tasks_step (hs : s.step a = some s') : s'.pool.tasks.length ≤ s.pool.tasks.length + 1 := by
  obtain ⟨-, hpool, -⟩ := step_cases hs
  cases hl : s.toPool a with
  | none =>
    rw [hl] at hpool
    rw [← Option.some.inj hpool]
    exact Nat.le_succ _
  | some l =>
    rw [hl] at hpool
    have hpool : s.pool.step l = some s'.pool := hpool
    cases a with
    | async address =>
      obtain rfl := Option.some.inj hl
      rw [Pool.async_cases hpool, List.length_cons]
    | dequeue w =>
      obtain rfl := Option.some.inj hl
      obtain ⟨task, -, ht, hcases⟩ := Pool.dequeue_cases hpool
      rw [hcases, List.length_erase_of_mem (Pool.top_mem ht)]
      omega
    | test w seen =>
      obtain rfl : .run w = l := by
        simp only [toPool] at hl
        split at hl
        · exact Option.some.inj hl
        · cases hl
      obtain ⟨task, -, hcases⟩ := Pool.run_cases hpool
      rw [hcases]
      exact Nat.le_succ _
    | nbd message => cases hl
    | send w junk => cases hl
    | answer k header data => cases hl
    | iot sockfd cuts => cases hl

/-- **A step that takes no request leaves less to do**, and the server what it is to the
requests taken. -/
theorem work_step {ms : List NbdMessage} (hsim : System.Sim s.server ms) (hallowed : Allowed s a)
    (htakes : a.takes = []) (hs : s.step a = some s') :
    System.Sim s'.server ms ∧ s'.work < s.work := by
  rcases step_server htakes hs with ⟨w, rfl⟩ | ⟨l, hl, hltakes, hserver⟩
  · obtain ⟨hserver, hpool, -⟩ := step_cases hs
    have hserver : s.server = s'.server := Option.some.inj hserver
    obtain ⟨task, -, ht, hcases⟩ := Pool.dequeue_cases hpool
    have hpos : 0 < s.pool.tasks.length := List.length_pos_of_mem (Pool.top_mem ht)
    refine ⟨hserver ▸ hsim, ?_⟩
    rw [work, work, ← hserver, hcases, List.length_erase_of_mem (Pool.top_mem ht)]
    omega
  · have hc := hallowed l hl
    have hless := hsim.work_step hc hltakes hserver
    have hqueue := tasks_step hs
    refine ⟨hsim.internal hc hltakes hserver, ?_⟩
    rw [work, work]
    omega

/-! ### Runs -/

/-- The process is the local server that was given these requests, with the threads it has. -/
structure Serves (n : ℕ) (s : Process) (ms : List NbdMessage) : Prop where
  /-- It has answered what the server would have by itself. -/
  server : System.Refines s.server ms
  /-- Work that is left can be done by the threads there are, and ends when no more requests
  come in. -/
  progress : System.Idle s.server ∨ Moves s
  ends : ∀ trace t, (machine n).Run s trace t →
    Machine.Meets (fun u a => Allowed u a ∧ a.takes = []) trace → trace.length ≤ s.work
  /-- All threads are there, and when no work is left all wait for some. -/
  threads : s.pool.workers = n
  waiting : System.Idle s.server → s.pool.tasks = [] ∧ ∀ worker ∈ s.pool.threads, worker = .dequeue

theorem Linked.workers {n : ℕ} (h : Linked n s) : s.pool.workers = n := by
  rw [Pool.workers, ← h.threads, List.countP_eq_length]
  intro worker hworker
  cases worker with
  | dequeue => rfl
  | run task => rfl
  | done => exact absurd rfl (h.loops _ hworker)

theorem Linked.waiting {n : ℕ} (h : Linked n s) (htasks : s.server.tasks = []) :
    s.pool.tasks = [] ∧ ∀ worker ∈ s.pool.threads, worker = .dequeue := by
  obtain ⟨hlength, hwaiting⟩ := h.queued fun w task hw => by
    obtain ⟨-, -, t, hk⟩ := h.running hw
    rw [htasks] at hk
    cases hk
  rw [htasks, List.length_nil] at hlength
  exact ⟨List.length_eq_zero_iff.mp hlength, hwaiting⟩

theorem Linked.serves {n : ℕ} (h : Linked n s) (hn : 0 < n) {ms : List NbdMessage}
    (hsim : System.Sim s.server ms) (horder : System.InOrder s.server ms) : Serves n s ms := by
  refine ⟨hsim.refines horder, ?_, ?_, h.workers, fun hidle => h.waiting hidle.tasks⟩
  · by_cases hidle : System.Idle s.server
    · exact Or.inl hidle
    · exact Or.inr (h.progress hn hsim hidle)
  · intro rest t run hrest
    have hbound := run.bounded (P := fun u => System.Sim u.server ms) (m := work) hsim
      (fun _ _ _ hu ha hs => work_step hu ha.1 ha.2 hs) hrest
    exact Nat.le_trans (Nat.le_add_left _ _) hbound.2

theorem run_sim {n : ℕ} {trace : List (Process × Act)} (run : (machine n).Run (init n) trace s)
    (hc : Machine.Meets Allowed trace) :
    System.Sim s.server (arrivals trace) ∧ System.InOrder s.server (arrivals trace) := by
  have hsim := System.run_sim (run_server run) (Machine.meets_project hc)
  rwa [arrivals_server] at hsim

/-- **The server with its threads is the local server**: for every number of threads but
none, every interleaving of the reactor, the workers and the nodes, and every order in which
the pool hands its tasks out. -/
theorem run_serves {n : ℕ} (hn : 0 < n) {trace : List (Process × Act)}
    (run : (machine n).Run (init n) trace s) (hc : Machine.Meets Allowed trace) :
    Serves n s (arrivals trace) := by
  obtain ⟨hsim, horder⟩ := run_sim run hc
  exact (run_linked run).serves hn hsim horder

end Process
end PrivateCloud.Dispatch
