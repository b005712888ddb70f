import PrivateCloud.ThreadPool.Clients

/-! Who gets an answer.

Left alone, with no more calls and with nobody woken up for no reason, the workers, `ShutDown`
and the calls of `Wait` come to rest, each step leaving less to do. At rest every task was run
or lies in a queue that has no worker; of the calls of `Wait` for the one that was run one has
returned what its function did, and all others are asleep. -/
namespace PrivateCloud.ThreadPool

namespace Future

/-- The steps a call of `Wait` has left. -/
def Waiter.left : Waiter → ℕ
  | .enter => 2
  | .through => 1
  | .asleep | .returned _ => 0

/-- Those of `Run`, with what the waiter does that it wakes up. -/
def Runner.left : Runner → ℕ
  | .function => 4
  | .post => 3
  | .finished => 0

def left (s : Task) : ℕ := (s.waiters.map Waiter.left).sum + s.runner.left

/-- A step of `Run`, or of a call of `Wait`. -/
def own : Label → Bool
  | .test _ | .getStatus _ | .function _ | .post _ => true
  | .call | .wakeUp _ => false

variable {s s' : Task}

theorem left_step {l : Label} (hown : own l = true) (hs : step s l = some s') : left s' < left s := by
  cases l with
  | test k =>
    obtain ⟨hk, ⟨-, rfl⟩ | ⟨-, rfl⟩⟩ := test_cases hs
    · have hsum := Bag.sum_map_set Waiter.left hk .asleep
      simp only [Waiter.left] at hsum
      simp only [left]
      omega
    · have hsum := Bag.sum_map_set Waiter.left hk .through
      simp only [Waiter.left] at hsum
      simp only [left]
      omega
  | getStatus k =>
    obtain ⟨hk, rfl⟩ := getStatus_cases hs
    have hsum := Bag.sum_map_set Waiter.left hk (.returned s.status)
    simp only [Waiter.left] at hsum
    simp only [left]
    omega
  | function result =>
    obtain ⟨hrun, rfl⟩ := function_cases hs
    simp only [left, hrun, Runner.left]
    omega
  | post notified =>
    obtain ⟨hrun, waiters, rfl, rfl | ⟨k, hk, rfl⟩⟩ := post_cases hs
    · simp only [left, hrun, Runner.left]
      omega
    · have hsum := Bag.sum_map_set Waiter.left hk .enter
      simp only [Waiter.left] at hsum
      simp only [left, hrun, Runner.left]
      omega
  | call => cases hown
  | wakeUp k => cases hown

/-- Every call sleeps or has returned. -/
def Resting (s : Task) : Prop := ∀ waiter ∈ s.waiters, waiter = .asleep ∨ ∃ v, waiter = .returned v

/-- A call that does not sleep goes on. -/
theorem waiter_moves {waiter : Waiter} (hmem : waiter ∈ s.waiters)
    (hbusy : ¬(waiter = .asleep ∨ ∃ v, waiter = .returned v)) :
    ∃ k, (step s (.test k)).isSome = true ∨ (step s (.getStatus k)).isSome = true := by
  obtain ⟨k, hk⟩ := List.mem_iff_getElem?.mp hmem
  cases waiter with
  | enter =>
    refine ⟨k, Or.inl ?_⟩
    simp only [step, hk, if_true]
    split <;> rfl
  | through =>
    refine ⟨k, Or.inr ?_⟩
    simp only [step, hk, if_true, Option.isSome_some]
  | asleep => exact absurd (Or.inl rfl) hbusy
  | returned v => exact absurd (Or.inr ⟨v, rfl⟩) hbusy

/-- One call has the answer, and only one. -/
structure Answered (v : Int) (s : Task) : Prop where
  returned : .returned v ∈ s.waiters
  once : s.waiters.countP passed = 1
  others : ∀ waiter ∈ s.waiters, waiter = .asleep ∨ waiter = .returned v

/-- At rest the permit of a task that was run has been taken: whoever slept beside it would have
left it to a call that has still to look. -/
theorem answered_of_resting {garbage : Int} {trace : List (Task × Label)} {v : Int}
    (run : (machine garbage).Run (create garbage) trace s) (hrest : Resting s)
    (hfinished : s.runner = .finished) (hresult : s.result = some v) (hne : s.waiters ≠ []) :
    Answered v s := by
  have hinv := run_inv run
  have hposts := hinv.posts
  rw [if_pos hfinished] at hposts
  have hothers : ∀ waiter ∈ s.waiters, waiter = .asleep ∨ waiter = .returned v := by
    intro waiter hmem
    rcases hrest waiter hmem with hasleep | ⟨u, rfl⟩
    · exact Or.inl hasleep
    · obtain rfl := Option.some.inj ((hinv.returned u hmem).symm.trans hresult)
      exact Or.inr rfl
  have hsome : 0 < s.waiters.countP passed := by
    by_contra hnone
    obtain ⟨waiter, hmem⟩ := List.exists_mem_of_ne_nil _ hne
    have hzero : s.waiters.countP passed = 0 := by omega
    have hasleep : .asleep ∈ s.waiters := by
      rcases hothers waiter hmem with rfl | rfl
      · exact hmem
      · exact absurd rfl (List.countP_eq_zero.mp hzero _ hmem)
    have henter := permit_taken run hasleep (by omega)
    rcases hothers _ henter with heq | heq <;> cases heq
  obtain ⟨waiter, hmem, hpassed⟩ := List.countP_pos_iff.mp hsome
  refine ⟨?_, by omega, hothers⟩
  rcases hothers waiter hmem with rfl | rfl
  · cases hpassed
  · exact hmem

/-- Nobody has an answer before the task has run. -/
theorem asleep_of_resting (hinv : Inv s) (hrest : Resting s) (hrun : s.runner ≠ .finished) :
    ∀ waiter ∈ s.waiters, waiter = .asleep := by
  intro waiter hmem
  rcases hrest waiter hmem with hasleep | ⟨v, rfl⟩
  · exact hasleep
  · exact absurd (hinv.finished hmem rfl) hrun

end Future

namespace Clients

/-- A step of a worker, of `ShutDown`, or of a call of `Wait`. -/
def own : Label → Bool
  | .pool (.dequeue _) | .pool (.stop _) | .pool .join | .function _ | .post _ _ => true
  | .goOn _ l => Future.own l
  | .pool (.async _ _) | .pool .shutDown | .pool (.run _) | .wait _ => false

/-- What `ShutDown` has left to do: six steps for each stop task, with what becomes of it. -/
def owes (n : ℕ) : ShutDown → ℕ
  | .notCalled => 0
  | .stopping i => 6 * (n - i) + (n + 1)
  | .joining i => n - i

def left (s : Clients) : ℕ :=
  (s.futures.map Future.left).sum + s.pool.tasks.length + owes s.pool.threads.length s.pool.shutDown

variable {garbage : ℕ → Int} {s s' : Clients}

theorem left_pool {l : ThreadPool.Label} (hown : own (.pool l) = true)
    (hs : step garbage s (.pool l) = some s') : s'.left < s.left := by
  obtain ⟨-, hpool, hfutures⟩ := pool_cases hs
  cases l with
  | stop address =>
    obtain ⟨i, hi, -⟩ := Pool.stop_cases hpool
    simp only [Pool.step, hi] at hpool
    split at hpool
    case isTrue hlt =>
      obtain ⟨u, hu, hs'⟩ := Option.map_eq_some_iff.mp hpool
      rw [Pool.async_cases hu] at hs'
      have hne : s'.pool.serial ≠ s.pool.serial := by
        rw [← hs']
        exact Nat.succ_ne_self _
      have hone : Future.left (Future.create (garbage s.pool.serial)) = 4 := rfl
      rw [made, if_neg hne] at hfutures
      simp only [left, hfutures, List.map_append, List.sum_append, List.map_singleton, List.sum_singleton, hone,
        ← hs', List.length_cons, hi, owes]
      omega
    case isFalse =>
      obtain hs' := Option.some.inj hpool
      rw [made_same (by rw [← hs'])] at hfutures
      simp only [left, hfutures, ← hs', hi, owes]
      omega
  | join =>
    obtain ⟨i, hi, hdone, hs'⟩ := Pool.join_cases hpool
    obtain ⟨hlt, -⟩ := List.getElem?_eq_some_iff.mp hdone
    rw [made_same (by rw [hs'])] at hfutures
    simp only [left, hfutures, hs', hi, owes]
    omega
  | dequeue w =>
    obtain ⟨task, -, htop, hs'⟩ := Pool.dequeue_cases hpool
    have hmem := Pool.top_mem htop
    have herase := List.length_erase_of_mem hmem
    have hpos := List.length_pos_of_mem hmem
    rw [made_same (by rw [hs'])] at hfutures
    simp only [left, hfutures, hs', herase, List.length_set]
    omega
  | async result address => cases hown
  | shutDown => cases hown
  | run w => cases hown

/-- A step inside a task. -/
theorem left_set {serial : ℕ} {l : Future.Label} {old new : Future.Task} (hown : Future.own l = true)
    (hk : s.futures[serial]? = some old) (hnew : Future.step old l = some new) :
    ((s.futures.set serial new).map Future.left).sum < (s.futures.map Future.left).sum := by
  have hsum := Bag.sum_map_set Future.left hk new
  have hless := Future.left_step hown hnew
  omega

/-- **What is left gets less** with every step. -/
theorem left_step {l : Label} (hown : own l = true) (hs : step garbage s l = some s') : s'.left < s.left := by
  cases l with
  | pool l => exact left_pool hown hs
  | function w =>
    obtain ⟨task, old, new, -, hk, hnew, rfl⟩ := function_cases hs
    have hless := left_set rfl hk hnew
    simp only [left]
    omega
  | post w notified =>
    obtain ⟨task, old, new, -, hk, hpool, hnew, hset⟩ := post_cases hs
    have hless := left_set rfl hk hnew
    obtain ⟨task', -, hpool'⟩ := Pool.run_cases hpool
    simp only [left, hset, hpool', List.length_set]
    omega
  | wait serial => cases hown
  | goOn serial l =>
    obtain ⟨-, old, new, hk, hnew, rfl⟩ := goOn_cases hs
    have hless := left_set hown hk hnew
    simp only [left]
    omega

/-! ### At rest -/

/-- Somebody can take a step. -/
def Moves (garbage : ℕ → Int) (s : Clients) : Prop := ∃ l s', own l = true ∧ step garbage s l = some s'

/-- Nobody can. -/
structure Settled (s : Clients) : Prop where
  /-- Of the calls for a task that was run one has returned. -/
  answered : ∀ task ∈ s.pool.ran, s.At task.serial fun future =>
    future.waiters = [] ∨ Future.Answered task.result future
  /-- Those for a task in the queue sleep… -/
  waiting : ∀ task ∈ s.pool.tasks, s.At task.serial fun future => ∀ waiter ∈ future.waiters, waiter = .asleep
  /-- …where there is no worker left. -/
  stranded : s.pool.tasks = [] ∨ ∀ worker ∈ s.pool.threads, worker = .done
  all : ∀ k < s.futures.length, ∃ task ∈ s.pool.ran ++ s.pool.tasks, task.serial = k

theorem moves_of {l : Label} (hown : own l = true) (h : (step garbage s l).isSome = true) :
    Moves garbage s := by
  obtain ⟨s', hs⟩ := Option.isSome_iff_exists.mp h
  exact ⟨l, s', hown, hs⟩

theorem inside_some {serial : ℕ} {l : Future.Label} {old new : Future.Task}
    (hk : s.futures[serial]? = some old) (hnew : Future.step old l = some new) :
    s.inside serial l = some (s.futures.set serial new) := by
  simp only [inside, hk, hnew, Option.map_some]

/-- A worker that has a task goes on with it. -/
theorem running_moves (h : Linked s) {task : Task} (hrun : .run task ∈ s.pool.threads) : Moves garbage s := by
  obtain ⟨w, hw⟩ := List.mem_iff_getElem?.mp hrun
  obtain ⟨future, hk, hfunction | ⟨hpost, -⟩⟩ := h.running task hrun
  · have hnew : ∃ new, Future.step future (.function task.result) = some new := by
      simp only [Future.step, hfunction, if_true]
      exact ⟨_, rfl⟩
    obtain ⟨new, hnew⟩ := hnew
    refine moves_of (l := .function w) rfl ?_
    simp only [step, hw, inside_some hk hnew, Option.map_some, Option.isSome_some]
  · obtain ⟨notified, new, hnew, -⟩ := Future.post_possible hpost
    refine moves_of (l := .post w notified) rfl ?_
    simp only [step, hw, Pool.step, inside_some hk hnew, Option.isSome_some]

/-- A worker at a queue with something in it takes that. -/
theorem dequeue_moves {w : ℕ} (hw : s.pool.threads[w]? = some .dequeue) (htasks : s.pool.tasks ≠ []) :
    Moves garbage s := by
  cases htop : s.pool.top with
  | none => exact absurd (List.argmax_eq_none.mp htop) htasks
  | some task =>
    refine moves_of (l := .pool (.dequeue w)) rfl ?_
    simp only [step, isRun, Bool.false_eq_true, if_false, Pool.step, hw, htop, Option.map_some,
      Option.isSome_some]

theorem goOn_moves {serial : ℕ} {l : Future.Label} {future : Future.Task}
    (hk : s.futures[serial]? = some future) (hown : Future.own l = true) (hl : ofWait l = true)
    (h : (Future.step future l).isSome = true) : Moves garbage s := by
  obtain ⟨new, hnew⟩ := Option.isSome_iff_exists.mp h
  refine moves_of (l := .goOn serial l) hown ?_
  simp only [step, hl, if_true, inside_some hk hnew, Option.map_some, Option.isSome_some]

theorem waiting_moves {serial : ℕ} {future : Future.Task} (hk : s.futures[serial]? = some future)
    (hbusy : ¬Future.Resting future) : Moves garbage s := by
  unfold Future.Resting at hbusy
  push Not at hbusy
  obtain ⟨waiter, hmem, hasleep, hreturned⟩ := hbusy
  have hneither : ¬(waiter = .asleep ∨ ∃ v, waiter = .returned v) :=
    not_or.mpr ⟨hasleep, fun hex => hex.elim hreturned⟩
  obtain ⟨k, htest | hget⟩ := Future.waiter_moves hmem hneither
  · exact goOn_moves hk rfl rfl htest
  · exact goOn_moves hk rfl rfl hget

/-- Every task that was made is somewhere. -/
theorem Linked.task (h : Linked s) {k : ℕ} (hk : k < s.futures.length) : ∃ task, task.serial = k ∧
    (task ∈ s.pool.tasks ∨ .run task ∈ s.pool.threads ∨ task ∈ s.pool.ran) := by
  have hmem : k ∈ s.pool.held.map Task.serial := by
    rw [h.serials, Multiset.mem_range, ← h.length]
    exact hk
  obtain ⟨task, htask, hserial⟩ := Multiset.mem_map.mp hmem
  refine ⟨task, hserial, ?_⟩
  rw [Pool.held, Multiset.mem_add, Multiset.mem_add] at htask
  rcases htask with (htask | htask) | htask
  · exact Or.inl htask
  · obtain ⟨worker, hworker, hrun⟩ := (Multiset.mem_filterMap Pool.running _).mp htask
    cases worker with
    | run other =>
      obtain rfl := Option.some.inj hrun
      exact Or.inr (Or.inl hworker)
    | _ => cases hrun
  · exact Or.inr (Or.inr htask)

theorem Linked.settled (h : Linked s) : Moves garbage s ∨ Settled s := by
  by_cases hmoves : Moves garbage s
  · exact Or.inl hmoves
  · have hrest {serial : ℕ} {future : Future.Task} (hk : s.futures[serial]? = some future) :
        Future.Resting future := by
      by_contra hbusy
      exact hmoves (waiting_moves hk hbusy)
    refine Or.inr ⟨fun task htask => ?_, fun task htask => ?_, ?_, fun k hk => ?_⟩
    · obtain ⟨future, hk, hfinished, hresult⟩ := h.ran task htask
      obtain ⟨g, trace, run⟩ := h.reached future (List.mem_of_getElem? hk)
      refine ⟨future, hk, ?_⟩
      by_cases hnobody : future.waiters = []
      · exact Or.inl hnobody
      · exact Or.inr (Future.answered_of_resting run (hrest hk) hfinished hresult hnobody)
    · obtain ⟨future, hk, hwaits⟩ := h.queued task htask
      obtain ⟨g, trace, run⟩ := h.reached future (List.mem_of_getElem? hk)
      refine ⟨future, hk, Future.asleep_of_resting (Future.run_inv run) (hrest hk) ?_⟩
      rw [show future.runner = .function from hwaits]
      decide
    · by_cases htasks : s.pool.tasks = []
      · exact Or.inl htasks
      · refine Or.inr fun worker hworker => ?_
        obtain ⟨w, hw⟩ := List.mem_iff_getElem?.mp hworker
        cases worker with
        | dequeue => exact absurd (dequeue_moves hw htasks) hmoves
        | run task => exact absurd (running_moves h hworker) hmoves
        | done => rfl
    · obtain ⟨task, hserial, hqueued | hrun | hran⟩ := h.task hk
      · exact ⟨task, List.mem_append_right _ hqueued, hserial⟩
      · exact absurd (running_moves h hrun) hmoves
      · exact ⟨task, List.mem_append_left _ hran, hserial⟩

/-- What a `Wait` returns is what the function of its task has returned. -/
theorem Linked.truthful (h : Linked s) {k : ℕ} {future : Future.Task} {v : Int}
    (hk : s.futures[k]? = some future) (hv : .returned v ∈ future.waiters) :
    ∃ task ∈ s.pool.ran, task.serial = k ∧ task.result = v := by
  obtain ⟨g, trace, run⟩ := h.reached future (List.mem_of_getElem? hk)
  have hinv := Future.run_inv run
  have hfinished := hinv.finished hv rfl
  obtain ⟨hlt, -⟩ := List.getElem?_eq_some_iff.mp hk
  obtain ⟨task, rfl, hqueued | hrun | hran⟩ := h.task hlt
  · obtain ⟨other, hother, hwaits⟩ := h.queued task hqueued
    obtain rfl := Option.some.inj (hk.symm.trans hother)
    cases hfinished.symm.trans hwaits
  · obtain ⟨other, hother, hruns⟩ := h.running task hrun
    obtain rfl := Option.some.inj (hk.symm.trans hother)
    rcases hruns with hfunction | ⟨hpost, -⟩
    · cases hfinished.symm.trans hfunction
    · cases hfinished.symm.trans hpost
  · obtain ⟨other, hother, -, hresult⟩ := h.ran task hran
    obtain rfl := Option.some.inj (hk.symm.trans hother)
    exact ⟨task, hran, rfl, Option.some.inj (hresult.symm.trans (hinv.returned v hv))⟩

structure Answers (garbage : ℕ → Int) (n : ℕ) (s : Clients) : Prop where
  truthful : ∀ (k : ℕ) (future : Future.Task) (v : Int), s.futures[k]? = some future →
    .returned v ∈ future.waiters → ∃ task ∈ s.pool.ran, task.serial = k ∧ task.result = v
  progress : Moves garbage s ∨ Settled s
  ends : ∀ rest t, (machine garbage n).Run s rest t → Machine.Meets (fun _ l => own l = true) rest →
    rest.length ≤ s.left

/-- **The calls of `Wait` are answered**, over every interleaving of clients, workers and
`ShutDown`: with nothing but what their tasks' functions returned, and in a bounded number of
steps one for each task that is waited for, unless no worker is left to run it. -/
theorem waits_answered (garbage : ℕ → Int) (n : ℕ) {trace : List (Clients × Label)}
    (run : (machine garbage n).Run (create n) trace s) : Answers garbage n s := by
  have hlinked := run_linked run
  refine ⟨fun k future v hk hv => hlinked.truthful hk hv, hlinked.settled, fun rest t run' hown => ?_⟩
  have hbound := run'.bounded (P := fun _ => True) (m := left) trivial
    (fun _ _ _ _ hl hs => ⟨trivial, left_step hl hs⟩) hown
  exact Nat.le_trans (Nat.le_add_left _ _) hbound.2

/-- Two calls wait for one task; the stop task overtakes the other one, which a third call waits
for. -/
def overtaken : List Label :=
  [.pool (.async 5 64), .wait 0, .wait 0, .goOn 0 (.test 0), .goOn 0 (.test 1), .pool (.dequeue 0),
    .function 0, .post 0 (some 1), .goOn 0 (.test 1), .goOn 0 (.getStatus 1), .pool (.async 7 32), .wait 1,
    .pool .shutDown, .pool (.stop 96), .pool (.stop 0), .pool (.dequeue 0), .function 0, .post 0 none,
    .pool .join, .goOn 1 (.test 0)]

theorem waits_answered_overtaken : ∃ trace s, (machine (fun _ => 99) 1).Run (create 1) trace s ∧
    s.futures.map Future.Task.waiters = [[.asleep, .returned 5], [.asleep], []] ∧
      s.pool.tasks.map Task.serial = [1] ∧ Answers (fun _ => 99) 1 s := by
  obtain ⟨trace, s, run, h⟩ := Machine.run_of_replay (machine (fun _ => 99) 1) (create 1) overtaken
    (fun e => decide (e.2.futures.map Future.Task.waiters = [[.asleep, .returned 5], [.asleep], []] ∧
      e.2.pool.tasks.map Task.serial = [1])) (by decide +kernel)
  obtain ⟨hwaiters, hqueued⟩ := of_decide_eq_true h
  exact ⟨trace, s, run, hwaiters, hqueued, waits_answered (fun _ => 99) 1 run⟩

end Clients
end PrivateCloud.ThreadPool
