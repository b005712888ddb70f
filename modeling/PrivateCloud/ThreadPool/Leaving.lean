import PrivateCloud.ThreadPool.Drain

/-! Whether `ShutDown` returns.

It sends as many stop tasks as there are threads, and each stops the worker that takes
it; a function that returned `BADAPPLE` for reasons of its own only takes a worker out
earlier. So there is never a worker more than stop tasks sent and taken account for
(`Counted.left`), and once all are sent no worker is left at an empty queue. Each
`Dequeue` from then on takes a task off a queue that nothing is added to: the workers
all leave, and `ShutDown` joins them (`shutDown_returns`). -/
namespace PrivateCloud.ThreadPool.Pool

/-- The call of `Async` that `ShutDown` makes in this step. -/
def pushes (s : Pool) : Label → Option ℕ
  | .stop _ =>
    match s.shutDown with
    | .stopping i => if i < s.threads.length then some s.serial else none
    | _ => none
  | _ => none

/-- The stop tasks `ShutDown` has sent in a run, by their calls of `Async`. -/
def stopTasks (trace : List (Pool × Label)) : List ℕ := trace.filterMap fun e => pushes e.1 e.2

/-- How many of them are still in the queue. -/
def queued (sent : List ℕ) (s : Pool) : ℕ := s.tasks.countP fun task => task.serial ∈ sent

/-- `ShutDown` has made its last `Async`. -/
def AllSent (s : Pool) : Prop :=
  s.shutDown = .stopping s.threads.length ∨ ∃ i, s.shutDown = .joining i

/-- `ShutDown` is in its first loop or past it, with this many stop tasks sent. -/
def InStep (n : ℕ) (sent : List ℕ) : ShutDown → Prop
  | .notCalled => sent.length = 0
  | .stopping i => sent.length = i ∧ i ≤ n
  | .joining _ => sent.length = n

structure Counted (n : ℕ) (sent : List ℕ) (s : Pool) : Prop where
  threads : s.threads.length = n
  serial : ∀ task ∈ s.tasks, task.serial < s.serial
  fresh : ∀ k ∈ sent, k < s.serial
  result : ∀ task ∈ s.tasks, task.serial ∈ sent → task.result = BADAPPLE
  left : s.alive + sent.length ≤ n + queued sent s
  phase : InStep n sent s.shutDown

variable {n : ℕ} {sent : List ℕ} {s s' : Pool}

theorem counted_create (n : ℕ) : Counted n [] (create n) where
  threads := List.length_replicate
  serial := nofun
  fresh := nofun
  result := nofun
  left := by simp [alive, create, List.countP_replicate, live]
  phase := rfl

/-- A task of a client is none of `ShutDown`'s. -/
theorem counted_async {result : Int} {address : ℕ} (h : Counted n sent s)
    (hs : s.async result address = some s') : Counted n sent s' := by
  have hnew : s.serial ∉ sent := fun hmem => Nat.lt_irrefl _ (h.fresh _ hmem)
  rw [async_cases hs]
  refine ⟨h.threads, ?_, fun k hk => Nat.lt_succ_of_lt (h.fresh k hk), ?_, ?_, h.phase⟩
  · exact List.forall_mem_cons.mpr
      ⟨Nat.lt_succ_self _, fun task htask => Nat.lt_succ_of_lt (h.serial task htask)⟩
  · exact List.forall_mem_cons.mpr ⟨fun hmem => absurd hmem hnew, h.result⟩
  · have hsame : queued sent {s with tasks := ⟨address, result, s.serial⟩ :: s.tasks} = queued sent s := by
      simp only [queued, List.countP_cons, hnew, decide_false, Bool.false_eq_true, if_false, Nat.add_zero]
    exact hsame ▸ h.left

/-- One more stop task is sent, and it is in the queue. -/
theorem counted_push {address i : ℕ} (h : Counted n sent s) (hi : s.shutDown = .stopping i) (hlt : i < n)
    (hs : s.async BADAPPLE address = some s') :
    Counted n (sent ++ [s.serial]) {s' with shutDown := .stopping (i + 1)} := by
  have hphase := h.phase
  rw [hi] at hphase
  have hold : ∀ task ∈ s.tasks, task.serial ∈ sent ++ [s.serial] ↔ task.serial ∈ sent := by
    intro task htask
    have hne : task.serial ≠ s.serial := Nat.ne_of_lt (h.serial task htask)
    simp only [List.mem_append, List.mem_singleton, hne, or_false]
  rw [async_cases hs]
  refine ⟨h.threads, ?_, ?_, ?_, ?_, ?_⟩
  · exact List.forall_mem_cons.mpr
      ⟨Nat.lt_succ_self _, fun task htask => Nat.lt_succ_of_lt (h.serial task htask)⟩
  · intro k hk
    rcases List.mem_append.mp hk with hk | hk
    · exact Nat.lt_succ_of_lt (h.fresh k hk)
    · obtain rfl := List.mem_singleton.mp hk
      exact Nat.lt_succ_self _
  · refine List.forall_mem_cons.mpr ⟨fun _ => rfl, fun task htask hmem => ?_⟩
    exact h.result task htask ((hold task htask).mp hmem)
  · have hqueued : (s.tasks.countP fun task => task.serial ∈ sent ++ [s.serial]) = queued sent s :=
      List.countP_congr fun task htask => by simpa using hold task htask
    have hleft := h.left
    simp only [queued, List.countP_cons, List.mem_append, List.mem_singleton, or_true, decide_true, if_true,
      List.length_append, List.length_singleton] at hqueued ⊢
    rw [hqueued]
    exact Nat.add_le_add_right hleft 1
  · show (sent ++ [s.serial]).length = i + 1 ∧ i + 1 ≤ n
    rw [List.length_append, List.length_singleton, hphase.1]
    exact ⟨rfl, hlt⟩

/-- The worker that takes a stop task is alive no more; any other task leaves at least
as many stop tasks for the workers there are. -/
theorem counted_dequeue {w : ℕ} (h : Counted n sent s) (hs : s.step (.dequeue w) = some s') :
    Counted n sent s' := by
  have hthreads := step_threads hs
  obtain ⟨task, hw, ht, hs'⟩ := dequeue_cases hs
  have halive := alive_dequeue ht hs
  have hqueued : queued sent s = queued sent s' + if task.serial ∈ sent then 1 else 0 := by
    have hperm := (List.perm_cons_erase (top_mem ht)).countP_eq fun task : Task => task.serial ∈ sent
    rw [List.countP_cons] at hperm
    rw [hs']
    simpa only [queued, decide_eq_true_eq] using hperm
  have hleft := h.left
  have hsub : ∀ other ∈ s'.tasks, other ∈ s.tasks := by
    rw [hs']
    exact fun other hother => List.mem_of_mem_erase hother
  refine ⟨hthreads.trans h.threads, fun other hother => ?_, ?_,
    fun other hother => h.result other (hsub other hother), ?_, ?_⟩
  · have := h.serial other (hsub other hother)
    rwa [hs']
  · rw [hs']
    exact h.fresh
  · by_cases hstop : task.serial ∈ sent
    · rw [if_pos hstop] at hqueued
      rw [if_pos (h.result task (top_mem ht) hstop)] at halive
      omega
    · rw [if_neg hstop] at hqueued
      have hle : (if task.result = BADAPPLE then 0 else 1) ≤ 1 := by split <;> decide
      omega
  · rw [hs']
    exact h.phase

theorem counted_run {w : ℕ} (h : Counted n sent s) (hs : s.step (.run w) = some s') :
    Counted n sent s' := by
  have hthreads := step_threads hs
  have halive := alive_run hs
  obtain ⟨task, hw, rfl⟩ := run_cases hs
  exact ⟨hthreads.trans h.threads, h.serial, h.fresh, h.result, halive ▸ h.left, h.phase⟩

/-- A loop of `ShutDown` that ends, or goes on without sending anything. -/
theorem counted_phase {phase : ShutDown} (h : Counted n sent s) (hphase : InStep n sent phase) :
    Counted n sent {s with shutDown := phase} :=
  ⟨h.threads, h.serial, h.fresh, h.result, h.left, hphase⟩

theorem counted_step {l : Label} (h : Counted n sent s) (hs : s.step l = some s') :
    Counted n (sent ++ (pushes s l).toList) s' := by
  cases l with
  | async result address =>
    rw [show pushes s (.async result address) = none from rfl, Option.toList_none, List.append_nil]
    exact counted_async h hs
  | shutDown =>
    obtain ⟨hcall, rfl⟩ := shutDown_cases hs
    have hphase := h.phase
    rw [hcall] at hphase
    rw [show pushes s .shutDown = none from rfl, Option.toList_none, List.append_nil]
    exact counted_phase h ⟨hphase, Nat.zero_le n⟩
  | stop address =>
    obtain ⟨i, hi, -⟩ := stop_cases hs
    have hphase := h.phase
    rw [hi] at hphase
    simp only [step, hi] at hs
    simp only [pushes, hi]
    split at hs
    case isTrue hlt =>
      obtain ⟨u, hu, rfl⟩ := Option.map_eq_some_iff.mp hs
      rw [if_pos hlt]
      exact counted_push h hi (h.threads ▸ hlt) hu
    case isFalse hge =>
      obtain rfl := Option.some.inj hs
      rw [if_neg hge, Option.toList_none, List.append_nil]
      obtain ⟨hlength, hle⟩ := hphase
      rw [h.threads] at hge
      exact counted_phase h (show sent.length = n by omega)
  | join =>
    obtain ⟨i, hi, -, rfl⟩ := join_cases hs
    have hphase := h.phase
    rw [hi] at hphase
    rw [show pushes s .join = none from rfl, Option.toList_none, List.append_nil]
    exact counted_phase h hphase
  | dequeue w =>
    rw [show pushes s (.dequeue w) = none from rfl, Option.toList_none, List.append_nil]
    exact counted_dequeue h hs
  | run w =>
    rw [show pushes s (.run w) = none from rfl, Option.toList_none, List.append_nil]
    exact counted_run h hs

theorem run_counted {trace : List (Pool × Label)} (run : (machine n).Run (create n) trace s) :
    Counted n (stopTasks trace) s := by
  induction run with
  | nil => exact counted_create n
  | @snoc t u trace l _ hu ih =>
    have hlast : stopTasks (trace ++ [(t, l)]) = stopTasks trace ++ (pushes t l).toList := by
      rw [stopTasks, List.filterMap_append]
      cases hp : pushes t l <;> simp [stopTasks, hp]
    rw [hlast]
    exact counted_step ih hu

/-- Once all stop tasks are sent, each worker that can still take one finds it queued. -/
theorem Counted.alive_le (h : Counted n sent s) (hsent : AllSent s) : s.alive ≤ queued sent s := by
  have hphase := h.phase
  have hlength : sent.length = n := by
    rcases hsent with hstop | ⟨i, hjoin⟩
    · rw [hstop, h.threads] at hphase
      exact hphase.1
    · rw [hjoin] at hphase
      exact hphase
  have hleft := h.left
  omega

theorem tasks_ne_nil {w : ℕ} (h : Counted n sent s) (hsent : AllSent s)
    (hw : s.threads[w]? = some .dequeue) : s.tasks ≠ [] := by
  have halive : 0 < s.alive := List.countP_pos_iff.mpr ⟨.dequeue, List.mem_of_getElem? hw, rfl⟩
  intro hempty
  have hzero : queued sent s = 0 := by rw [queued, hempty]; rfl
  have := h.alive_le hsent
  omega

theorem run_joined {trace : List (Pool × Label)} (run : (machine n).Run (create n) trace s) : Joined s :=
  run.invariant (P := Joined) (r := fun _ _ => True) nofun (fun _ _ _ h _ hs => joined_step h hs)
    (fun _ _ => trivial)

/-! ### After the last stop task -/

/-- No client calls `Async`. -/
def NoAsync (_ : Pool) : Label → Prop
  | .async _ _ => False
  | _ => True

def isDequeue : Label → Bool
  | .dequeue _ => true
  | _ => false

/-- What is left to do: two steps for each queued task, one for each that runs, and one
for each turn of `ShutDown`'s loops. -/
def leftToDo (s : Pool) : ℕ :=
  2 * s.tasks.length + s.threads.countP (fun worker => (running worker).isSome) +
    match s.shutDown with
    | .joining i => s.threads.length - i
    | _ => s.threads.length + 1

/-- Each step goes on without `ShutDown` sending anything, and there is less to do. -/
theorem allSent_step {l : Label} (hsent : AllSent s) (hl : NoAsync s l) (hs : s.step l = some s') :
    AllSent s' ∧ leftToDo s' < leftToDo s ∧
      s'.tasks.length + (if isDequeue l then 1 else 0) = s.tasks.length := by
  cases l with
  | async result address => exact absurd hl id
  | shutDown =>
    obtain ⟨hcall, -⟩ := shutDown_cases hs
    rcases hsent with hstop | ⟨i, hjoin⟩
    · rw [hcall] at hstop
      cases hstop
    · rw [hcall] at hjoin
      cases hjoin
  | stop address =>
    obtain ⟨i, hi, -⟩ := stop_cases hs
    rcases hsent with hstop | ⟨j, hjoin⟩
    · simp only [step, hstop, Nat.lt_irrefl, if_false] at hs
      obtain rfl := Option.some.inj hs
      refine ⟨Or.inr ⟨0, rfl⟩, ?_, rfl⟩
      simp only [leftToDo, hstop]
      omega
    · rw [hi] at hjoin
      cases hjoin
  | join =>
    obtain ⟨i, hi, hdone, rfl⟩ := join_cases hs
    obtain ⟨hlt, -⟩ := List.getElem?_eq_some_iff.mp hdone
    refine ⟨Or.inr ⟨i + 1, rfl⟩, ?_, rfl⟩
    simp only [leftToDo, hi]
    omega
  | dequeue w =>
    have hlength := step_threads hs
    obtain ⟨task, hw, ht, rfl⟩ := dequeue_cases hs
    have hcount : (s.threads.set w (.run task)).countP (fun worker => (running worker).isSome) =
        s.threads.countP (fun worker => (running worker).isSome) + 1 := Bag.countP_set_enter hw rfl rfl
    have herase := List.length_erase_of_mem (top_mem ht)
    have hpos := List.length_pos_of_mem (top_mem ht)
    refine ⟨?_, ?_, ?_⟩
    · rw [AllSent, hlength]
      exact hsent
    · simp only [leftToDo, herase, List.length_set]
      omega
    · simp only [isDequeue, if_true, herase]
      omega
  | run w =>
    have hlength := step_threads hs
    obtain ⟨task, hw, rfl⟩ := run_cases hs
    have hcount := Bag.countP_set_leave (p := fun worker => (running worker).isSome) hw rfl
      (congrArg Option.isSome (running_next task))
    refine ⟨?_, ?_, rfl⟩
    · rw [AllSent, hlength]
      exact hsent
    · simp only [leftToDo, List.length_set]
      omega

/-- What a continuation has done so far. -/
theorem run_allSent {rest : List (Pool × Label)} {t : Pool} (run : (machine n).Run s rest t)
    (hsent : AllSent s) (hrest : Machine.Meets NoAsync rest) :
    AllSent t ∧ leftToDo t + rest.length ≤ leftToDo s ∧
      t.tasks.length + rest.countP (fun e => isDequeue e.2) = s.tasks.length := by
  induction run with
  | nil => exact ⟨hsent, Nat.le_refl _, rfl⟩
  | @snoc t u rest l _ hu ih =>
    obtain ⟨hbefore, hlast⟩ := Machine.meets_snoc.mp hrest
    obtain ⟨hsent', hlength, hcount⟩ := ih hbefore
    obtain ⟨hnext, hless, htasks⟩ := allSent_step hsent' hlast hu
    refine ⟨hnext, ?_, ?_⟩
    · rw [List.length_append, List.length_singleton]
      omega
    · rw [List.countP_append, List.countP_singleton]
      dsimp only
      omega

/-- A worker that has not left can go on. -/
theorem worker_progress {w : ℕ} {worker : Worker} (h : Counted n sent s) (hsent : AllSent s)
    (hw : s.threads[w]? = some worker) (hne : worker ≠ .done) :
    (∃ s', s.step (.dequeue w) = some s') ∨ ∃ s', s.step (.run w) = some s' := by
  cases worker with
  | dequeue =>
    apply Or.inl
    have htop : ∃ task, s.top = some task := by
      cases ht : s.top with
      | none => exact absurd (List.argmax_eq_none.mp ht) (tasks_ne_nil h hsent hw)
      | some task => exact ⟨task, rfl⟩
    obtain ⟨task, ht⟩ := htop
    simp only [step, hw, ht]
    exact ⟨_, rfl⟩
  | run task =>
    apply Or.inr
    simp only [step, hw]
    exact ⟨_, rfl⟩
  | done => exact absurd rfl hne

/-- Until `ShutDown` has returned, it or a worker can go on. -/
theorem shutDown_progress (h : Counted n sent s) (hjoined : Joined s) (hsent : AllSent s)
    (hret : ¬s.Returned) : ∃ l s', NoAsync s l ∧ s.step l = some s' := by
  by_cases hleft : AllLeft s
  · rcases hsent with hstop | ⟨i, hjoin⟩
    · exact ⟨.stop 0, {s with shutDown := .joining 0}, trivial, by simp [step, hstop]⟩
    · -- The next thread to be joined is there, and out of the loop like all.
      have hle : i ≤ s.threads.length := by
        by_contra hlt
        have hnone := hjoined i hjoin s.threads.length (by omega)
        rw [List.getElem?_eq_none (Nat.le_refl _)] at hnone
        cases hnone
      have hne : i ≠ s.threads.length := fun he => hret (by rw [Returned, hjoin, he])
      have hi : i < s.threads.length := by omega
      have hdone : s.threads[i]? = some .done := by
        rw [List.getElem?_eq_getElem hi, hleft _ (List.getElem_mem hi)]
      exact ⟨.join, {s with shutDown := .joining (i + 1)}, trivial, by simp [step, hjoin, hdone]⟩
  · unfold AllLeft at hleft
    push Not at hleft
    obtain ⟨worker, hworker, hne⟩ := hleft
    obtain ⟨w, hw⟩ := List.mem_iff_getElem?.mp hworker
    rcases worker_progress h hsent hw hne with ⟨s', hs'⟩ | ⟨s', hs'⟩
    · exact ⟨.dequeue w, s', trivial, hs'⟩
    · exact ⟨.run w, s', trivial, hs'⟩

/-- The state `t` that the steps of `rest` have led to from `s`. -/
structure GoesOn (n : ℕ) (s : Pool) (rest : List (Pool × Label)) (t : Pool) : Prop where
  /-- Every `Dequeue` takes a task that was queued in `s`. -/
  dequeues : t.tasks.length + rest.countP (fun e => isDequeue e.2) = s.tasks.length
  length : rest.length ≤ 2 * s.tasks.length + 2 * n + 1
  worker : ∀ w worker, t.threads[w]? = some worker → worker ≠ .done →
    (∃ t', t.step (.dequeue w) = some t') ∨ ∃ t', t.step (.run w) = some t'
  progress : ¬t.Returned → ∃ l t', NoAsync t l ∧ t.step l = some t'

/-- **`ShutDown` returns.** Once it has made its last `Async`, each worker that can still
take a stop task has one in the queue, and no worker is left at an empty one, whatever
is submitted meanwhile. If nothing is, the pool goes on until all workers have left and
`ShutDown` has returned, in no more `Dequeue` steps than tasks were queued; and it
returns in no other state. -/
theorem shutDown_returns (n : ℕ) {trace : List (Pool × Label)} {s : Pool}
    (run : (machine n).Run (create n) trace s) :
    (AllSent s → s.alive ≤ queued (stopTasks trace) s ∧
      ∀ w : ℕ, s.threads[w]? = some .dequeue → s.tasks ≠ []) ∧
    (s.Returned → AllLeft s) ∧
    ∀ rest t, AllSent s → (machine n).Run s rest t → Machine.Meets NoAsync rest → GoesOn n s rest t := by
  have hcounted := run_counted run
  refine ⟨fun hsent => ⟨hcounted.alive_le hsent, fun w hw => tasks_ne_nil hcounted hsent hw⟩,
    returned_left (run_joined run), fun rest t hsent run' hrest => ?_⟩
  obtain ⟨hsent', hlength, htasks⟩ := run_allSent run' hsent hrest
  have hcounted' := run_counted (run.append run')
  have hjoined' := run_joined (run.append run')
  refine ⟨htasks, ?_, fun w worker hw hne => worker_progress hcounted' hsent' hw hne,
    fun hret => shutDown_progress hcounted' hjoined' hsent' hret⟩
  have hrunning : s.threads.countP (fun worker => (running worker).isSome) ≤ n :=
    hcounted.threads ▸ List.countP_le_length
  have hphase : leftToDo s ≤ 2 * s.tasks.length + n + (n + 1) := by
    unfold leftToDo
    have hthreads := hcounted.threads
    split
    case h_1 => omega
    case h_2 => omega
  omega

instance (s : Pool) : Decidable s.AllSent :=
  match h : s.shutDown with
  | .notCalled => isFalse (by simp [AllSent, h])
  | .stopping i => decidable_of_iff (i = s.threads.length) (by simp [AllSent, h])
  | .joining i => isTrue (Or.inr ⟨i, h⟩)

instance (s : Pool) : (l : Label) → Decidable (NoAsync s l)
  | .async _ _ => isFalse id
  | .dequeue _ | .run _ | .shutDown | .stop _ | .join => isTrue trivial

/-- A task that returns -1 takes one of two workers out before the stop tasks come; the
other one has them, and `ShutDown` returns. -/
def takenOut : List Label :=
  [.async (-1) 64, .dequeue 1, .shutDown, .stop 32, .stop 16, .stop 0, .run 1, .dequeue 0, .run 0,
    .join, .join]

theorem shutDown_returns_early :
    (∃ trace s rest t, (machine 2).Run (create 2) trace s ∧ s.alive = 1 ∧
      s.alive ≤ queued (stopTasks trace) s ∧ (machine 2).Run s rest t ∧ rest.length = 6 ∧
        t.Returned ∧ GoesOn 2 s rest t) ∧
    ∃ trace s, (machine 2).Run (create 2) trace s ∧ s.Returned ∧ AllLeft s := by
  constructor
  · obtain ⟨trace, s, run, h⟩ := Machine.run_of_replay (machine 2) (create 2) (takenOut.take 5)
      (fun e => decide (e.2.AllSent ∧ e.2.alive = 1) &&
        ((machine 2).replay e.2 (takenOut.drop 5)).any fun (later : List (Pool × Label) × Pool) =>
          decide (Machine.Meets NoAsync later.1 ∧ later.1.length = 6 ∧ later.2.Returned))
      (by decide)
    rw [Bool.and_eq_true] at h
    obtain ⟨hsent, halive⟩ := of_decide_eq_true h.1
    obtain ⟨rest, t, run', hlater⟩ := Machine.run_of_replay (machine 2) s (takenOut.drop 5) _ h.2
    obtain ⟨hnone, hlength, hret⟩ := of_decide_eq_true hlater
    obtain ⟨hstops, -, hgo⟩ := shutDown_returns 2 run
    exact ⟨trace, s, rest, t, run, halive, (hstops hsent).1, run', hlength, hret,
      hgo rest t hsent run' hnone⟩
  · obtain ⟨trace, s, run, h⟩ := Machine.run_of_replay (machine 2) (create 2) takenOut
      (fun e => decide e.2.Returned) (by decide)
    have hret : s.Returned := of_decide_eq_true h
    exact ⟨trace, s, run, hret, (shutDown_returns 2 run).2.1 hret⟩

end PrivateCloud.ThreadPool.Pool
