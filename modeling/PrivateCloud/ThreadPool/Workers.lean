import PrivateCloud.ThreadPool.Pool

/-! Who is still working.

A worker leaves `TaskDespacher` when the function it ran returned `BADAPPLE`,
whoever submitted it. So before `ShutDown` the workers left are the threads less the
functions that have returned that number (`left_eq`), and the pool keeps all of them
exactly as long as none has (`keeps_workers_iff`). -/
namespace PrivateCloud.ThreadPool.Pool

def inLoop : Worker → Bool
  | .done => false
  | _ => true

/-- The workers still in the `TaskDespacher` loop. -/
def workers (s : Pool) : ℕ := s.threads.countP inLoop

/-- The function stopped the worker that ran it. -/
def stops (task : Task) : Bool := BADAPPLE = task.result

/-- Every thread is in the loop or was stopped by a task that ran. -/
def Accounted (s : Pool) : Prop := s.workers + s.ran.countP stops = s.threads.length

theorem accounted_create (n : ℕ) : Accounted (create n) := by
  simp [Accounted, workers, create, List.countP_replicate, inLoop]

theorem accounted_step {s s' : Pool} {l : Label} (h : Accounted s) (hs : s.step l = some s') :
    Accounted s' := by
  have hlen := step_threads hs
  unfold Accounted at h ⊢
  rw [hlen]
  cases l with
  | async result address =>
    rw [async_cases hs]
    exact h
  | shutDown =>
    rw [(shutDown_cases hs).2]
    exact h
  | stop address =>
    obtain ⟨i, _, ⟨u, hu, rfl⟩ | rfl⟩ := stop_cases hs
    · rw [async_cases hu]
      exact h
    · exact h
  | join =>
    obtain ⟨i, _, _, rfl⟩ := join_cases hs
    exact h
  | dequeue w =>
    obtain ⟨task, hw, _, rfl⟩ := dequeue_cases hs
    have hcount : (s.threads.set w (.run task)).countP inLoop = s.threads.countP inLoop :=
      Bag.countP_set_same hw rfl
    simp only [workers] at h ⊢
    omega
  | run w =>
    obtain ⟨task, hw, rfl⟩ := run_cases hs
    simp only [workers, List.countP_cons] at h ⊢
    -- The worker that ran the task is out of the loop exactly when the task stops.
    by_cases hbad : BADAPPLE = task.result
    · have hcount : (s.threads.set w .done).countP inLoop + 1 = s.threads.countP inLoop :=
        Bag.countP_set_leave hw rfl rfl
      simp only [stops, hbad, decide_true, if_true]
      omega
    · have hcount : (s.threads.set w .dequeue).countP inLoop = s.threads.countP inLoop :=
        Bag.countP_set_same hw rfl
      simp only [stops, hbad, decide_false, Bool.false_eq_true, if_false]
      omega

theorem run_accounted {n : ℕ} {trace : List (Pool × Label)} {s : Pool}
    (run : (machine n).Run (create n) trace s) : Accounted s ∧ s.threads.length = n :=
  run.invariant (P := fun s => Accounted s ∧ s.threads.length = n) (r := fun _ _ => True)
    ⟨accounted_create n, List.length_replicate⟩
    (fun _ _ _ h _ hs => ⟨accounted_step h.1 hs, (step_threads hs).trans h.2⟩)
    (fun _ _ => trivial)

theorem left_eq {n : ℕ} {trace : List (Pool × Label)} {s : Pool}
    (run : (machine n).Run (create n) trace s) : s.workers + s.ran.countP stops = n := by
  obtain ⟨h, hn⟩ := run_accounted run
  rw [← hn]
  exact h

/-- No worker was lost, and no task waits with nobody left to run it. -/
def KeepsWorkers (n : ℕ) (s : Pool) : Prop :=
  s.workers = n ∧ ¬(s.tasks ≠ [] ∧ s.workers = 0)

/-- **The pool keeps its workers exactly as long as no function returned
`BADAPPLE`**, and has one for every queued task exactly if it had a thread to begin
with. -/
theorem keeps_workers_iff (n : ℕ) (trace : List (Pool × Label)) (s : Pool)
    (run : (machine n).Run (create n) trace s) :
    KeepsWorkers n s ↔
      (∀ task ∈ s.ran, task.result ≠ BADAPPLE) ∧ (0 < n ∨ s.tasks = []) := by
  have hleft := left_eq run
  have hnone : s.workers = n ↔ ∀ task ∈ s.ran, task.result ≠ BADAPPLE := by
    have hzero : s.workers = n ↔ s.ran.countP stops = 0 := by omega
    rw [hzero, List.countP_eq_zero]
    refine forall₂_congr fun task _ => ?_
    simp only [stops, decide_eq_true_eq]
    exact ne_comm
  constructor
  · rintro ⟨hn, hidle⟩
    refine ⟨hnone.mp hn, ?_⟩
    by_cases htasks : s.tasks = []
    · exact Or.inr htasks
    · exact Or.inl (by rw [← hn]; exact Nat.pos_of_ne_zero fun h0 => hidle ⟨htasks, h0⟩)
  · rintro ⟨hres, hthreads⟩
    refine ⟨hnone.mpr hres, fun ⟨htasks, h0⟩ => ?_⟩
    rcases hthreads with hpos | hnil
    · rw [hnone.mpr hres] at h0
      omega
    · exact htasks hnil

instance (n : ℕ) (s : Pool) : Decidable (KeepsWorkers n s) :=
  inferInstanceAs (Decidable (s.workers = n ∧ ¬(s.tasks ≠ [] ∧ s.workers = 0)))

/-- A task that returns zero leaves its worker in the loop. -/
theorem keeps_workers_zero : ∃ trace s, (machine 4).Run (create 4) trace s ∧ s.ran ≠ [] ∧
    KeepsWorkers 4 s := by
  obtain ⟨trace, s, run, h⟩ := Machine.run_of_replay (machine 4) (create 4)
    [.async 0 16, .dequeue 0, .run 0]
    (fun e => decide (e.2.ran ≠ [] ∧ ∀ task ∈ e.2.ran, task.result ≠ BADAPPLE)) (by decide)
  obtain ⟨hran, hres⟩ := of_decide_eq_true h
  exact ⟨trace, s, run, hran, (keeps_workers_iff 4 trace s run).mpr ⟨hres, Or.inl (by decide)⟩⟩

/-- Four sends that fail, as the default pool of four threads sees them: each worker
takes the failing function's `-1` for its stop signal, and the fifth task waits with
nobody to run it. -/
def failedSends : List Label :=
  [.async (-1) 16, .dequeue 0, .run 0, .async (-1) 16, .dequeue 1, .run 1,
    .async (-1) 16, .dequeue 2, .run 2, .async (-1) 16, .dequeue 3, .run 3, .async 24 16]

theorem failedSends_strand : ∃ trace s, (machine 4).Run (create 4) trace s ∧
    s.shutDown = .notCalled ∧ ¬KeepsWorkers 4 s ∧ s.workers = 0 ∧ s.tasks ≠ [] := by
  obtain ⟨trace, s, run, h⟩ := Machine.run_of_replay (machine 4) (create 4)
    failedSends (fun e => decide (e.2.shutDown = .notCalled ∧ ¬KeepsWorkers 4 e.2 ∧
      e.2.workers = 0 ∧ e.2.tasks ≠ [])) (by decide)
  exact ⟨trace, s, run, of_decide_eq_true h⟩

end PrivateCloud.ThreadPool.Pool
