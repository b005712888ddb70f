import PrivateCloud.ThreadPool.Pool

/-! Whether `ShutDown` drains the queue.

Its comment says that it finishes what is in the queue. But the stop tasks go through
the same queue, which hands out the greatest address first, so a stop task overtakes
every accepted task at a smaller address. Nothing is lost while a worker that can
still take tasks remains; the run is decided when the last such worker takes a stop
task, by whether an accepted task at a smaller address is still queued then
(`shutDown_drains_iff`). -/
namespace PrivateCloud.ThreadPool.Pool

/-- The worker can still take a task: it is not out of the loop, nor about to be. -/
def live : Worker → Bool
  | .dequeue => true
  | .run task => task.result != BADAPPLE
  | .done => false

def alive (s : Pool) : ℕ := s.threads.countP live

/-- Every task not yet forgotten: queued, being run, or on record as run. -/
def held (s : Pool) : Multiset Task :=
  (s.tasks : Multiset Task) + (s.threads : Multiset Worker).filterMap running + (s.ran : Multiset Task)

/-- An accepted task that no worker is left to run. -/
def Stranded (s : Pool) : Prop := s.alive = 0 ∧ ∃ task ∈ s.tasks, task ∈ s.accepted

/-- The assumption on what is submitted: no task accepted before `ShutDown` returns
`BADAPPLE`. -/
def SubmitsNoStop (s : Pool) : Label → Prop
  | .async result _ => s.shutDown = .notCalled → result ≠ BADAPPLE
  | _ => True

/-- The last worker that can take tasks takes one that stops it only from below
every accepted task in the queue. -/
def LastStopBelow (s : Pool) : Label → Prop
  | .dequeue _ => ∀ stop, s.top = some stop → stop.result = BADAPPLE → s.alive = 1 →
      ∀ task ∈ s.tasks, task ∈ s.accepted → stop.address < task.address
  | _ => True

/-- Each accepted task has been run, once. -/
def Drained (s : Pool) : Prop := ∀ task ∈ s.accepted, s.ran.count task = 1

/-! ### Tasks are neither lost nor doubled -/

theorem held_async {s s' : Pool} {result : Int} {address : ℕ}
    (h : s.async result address = some s') : s'.held = ⟨address, result, s.serial⟩ ::ₘ s.held := by
  rw [async_cases h]
  simp only [held, ← Multiset.cons_coe, Multiset.cons_add]

theorem running_run (task : Task) : running (.run task) = some task := rfl

theorem running_dequeue : running .dequeue = none := rfl

/-- A worker that has run its task runs nothing. -/
theorem running_next (task : Task) :
    running (if BADAPPLE = task.result then .done else .dequeue) = none := by
  split <;> rfl

theorem held_dequeue {s s' : Pool} {w : ℕ} (h : s.step (.dequeue w) = some s') : s'.held = s.held := by
  obtain ⟨task, hw, ht, rfl⟩ := dequeue_cases h
  simp only [held, Bag.coe_set hw, Bag.coe_eq_cons hw, Bag.coe_erase (top_mem ht)]
  rw [Multiset.filterMap_cons_some _ _ _ (running_run task), Multiset.filterMap_cons_none _ _ running_dequeue]
  simp only [Multiset.cons_add, Multiset.add_cons]

theorem held_run {s s' : Pool} {w : ℕ} (h : s.step (.run w) = some s') : s'.held = s.held := by
  obtain ⟨task, hw, rfl⟩ := run_cases h
  simp only [held, Bag.coe_set hw, Bag.coe_eq_cons hw, ← Multiset.cons_coe]
  rw [Multiset.filterMap_cons_none _ _ (running_next task),
    Multiset.filterMap_cons_some _ _ _ (running_run task)]
  simp only [Multiset.cons_add, Multiset.add_cons]

theorem held_create (n : ℕ) : (create n).held = 0 := by
  simp only [held, create, Multiset.filterMap_coe, List.filterMap_replicate_of_none running_dequeue]
  rfl

/-! ### The joined threads -/

/-- The threads that `ShutDown` has joined are out of the loop. -/
def Joined (s : Pool) : Prop := ∀ i, s.shutDown = .joining i → ∀ j < i, s.threads[j]? = some .done

/-- A worker moves on without touching a thread that is out of the loop. -/
theorem joined_set {s : Pool} {w : ℕ} {old new : Worker} (hw : s.threads[w]? = some old)
    (hold : old ≠ .done) {i : ℕ} (h : ∀ j < i, s.threads[j]? = some .done) :
    ∀ j < i, (s.threads.set w new)[j]? = some .done := by
  intro j hj
  have hne : w ≠ j := by
    rintro rfl
    rw [h w hj] at hw
    exact hold (Option.some.inj hw).symm
  rw [List.getElem?_set_ne hne]
  exact h j hj

theorem joined_step {s s' : Pool} {l : Label} (h : Joined s) (hs : s.step l = some s') : Joined s' := by
  cases l with
  | async result address =>
    rw [async_cases hs]
    exact h
  | shutDown =>
    rw [(shutDown_cases hs).2]
    nofun
  | stop address =>
    obtain ⟨i, -, ⟨u, -, rfl⟩ | rfl⟩ := stop_cases hs
    · nofun
    · intro j hj k hk
      obtain rfl := ShutDown.joining.inj hj
      exact absurd hk (Nat.not_lt_zero k)
  | join =>
    obtain ⟨i, hi, hdone, rfl⟩ := join_cases hs
    intro j hj k hk
    obtain rfl := ShutDown.joining.inj hj
    rcases Nat.lt_succ_iff_lt_or_eq.mp hk with hk | rfl
    · exact h i hi k hk
    · exact hdone
  | dequeue w =>
    obtain ⟨task, hw, -, rfl⟩ := dequeue_cases hs
    exact fun i hi => joined_set hw (by simp) (h i hi)
  | run w =>
    obtain ⟨task, hw, rfl⟩ := run_cases hs
    exact fun i hi => joined_set hw (by simp) (h i hi)

/-- Every worker has left `TaskDespacher`. -/
def AllLeft (s : Pool) : Prop := ∀ worker ∈ s.threads, worker = .done

theorem returned_left {s : Pool} (h : Joined s) (hret : s.Returned) : AllLeft s := by
  intro worker hworker
  obtain ⟨i, hi, rfl⟩ := List.mem_iff_getElem.mp hworker
  have hdone := h _ hret i hi
  rw [List.getElem?_eq_getElem hi] at hdone
  exact Option.some.inj hdone

/-! ### The invariant -/

/-- What holds of every pool whose clients submit no stop task before `ShutDown`. -/
structure Inv (n : ℕ) (s : Pool) : Prop where
  threads : s.threads.length = n
  nodup : s.held.Nodup
  serial : ∀ task ∈ s.held, task.serial < s.serial
  accepted : ∀ task ∈ s.accepted, task ∈ s.held
  result : ∀ task ∈ s.accepted, task.result ≠ BADAPPLE
  /-- Until `ShutDown` is called there is nothing else, and every worker goes on. -/
  before : s.shutDown = .notCalled → (∀ task ∈ s.held, task ∈ s.accepted) ∧ s.alive = n
  /-- The joined threads are out of the loop. -/
  joined : ∀ i, s.shutDown = .joining i → ∀ j < i, s.threads[j]? = some .done

theorem inv_create (n : ℕ) : Inv n (create n) where
  threads := List.length_replicate
  nodup := by
    rw [held_create]
    exact Multiset.nodup_zero
  serial := by simp [held_create]
  accepted := fun _ h => nomatch h
  result := fun _ h => nomatch h
  before := fun _ => ⟨by simp [held_create], by simp [alive, create, List.countP_replicate, live]⟩
  joined := fun _ h => nomatch h

theorem inv_async {n : ℕ} {s s' : Pool} {result : Int} {address : ℕ} (h : Inv n s)
    (hres : s.shutDown = .notCalled → result ≠ BADAPPLE) (hs : s.async result address = some s') :
    Inv n s' := by
  have hheld := held_async hs
  have hnew : (⟨address, result, s.serial⟩ : Task) ∉ s.held := fun hmem =>
    absurd (h.serial _ hmem) (Nat.lt_irrefl _)
  have hs' := async_cases hs
  refine ⟨?_, ?_, ?_, ?_, ?_, ?_, ?_⟩
  · rw [hs']
    exact h.threads
  · rw [hheld]
    exact Multiset.nodup_cons.mpr ⟨hnew, h.nodup⟩
  · rw [hheld, hs']
    intro task htask
    rcases Multiset.mem_cons.mp htask with rfl | htask
    · exact Nat.lt_succ_self _
    · exact Nat.lt_succ_of_lt (h.serial task htask)
  · rw [hheld, hs']
    intro task htask
    dsimp only at htask
    split at htask
    · rcases List.mem_cons.mp htask with rfl | htask
      · exact Multiset.mem_cons_self _ _
      · exact Multiset.mem_cons_of_mem (h.accepted task htask)
    · exact Multiset.mem_cons_of_mem (h.accepted task htask)
  · rw [hs']
    intro task htask
    dsimp only at htask
    split at htask
    case isTrue hcall =>
      rcases List.mem_cons.mp htask with rfl | htask
      · exact hres hcall
      · exact h.result task htask
    case isFalse => exact h.result task htask
  · intro hcall
    have hcall' : s.shutDown = .notCalled := by
      rw [hs'] at hcall
      exact hcall
    obtain ⟨hall, halive⟩ := h.before hcall'
    rw [hheld, hs']
    refine ⟨fun task htask => ?_, halive⟩
    dsimp only
    rw [if_pos hcall']
    rcases Multiset.mem_cons.mp htask with rfl | htask
    · exact List.mem_cons_self
    · exact List.mem_cons_of_mem _ (hall task htask)
  · rw [hs']
    exact h.joined

/-- `ShutDown` moves on: nothing else changes. -/
theorem inv_phase {n : ℕ} {s : Pool} {phase : ShutDown} (h : Inv n s) (hphase : phase ≠ .notCalled)
    (hjoin : Joined {s with shutDown := phase}) : Inv n {s with shutDown := phase} where
  threads := h.threads
  nodup := h.nodup
  serial := h.serial
  accepted := h.accepted
  result := h.result
  before := fun hcall => absurd hcall hphase
  joined := hjoin

theorem alive_dequeue {s s' : Pool} {w : ℕ} {task : Task} (ht : s.top = some task)
    (hs : s.step (.dequeue w) = some s') :
    s'.alive + 1 = s.alive + if task.result = BADAPPLE then 0 else 1 := by
  obtain ⟨task', hw, ht', rfl⟩ := dequeue_cases hs
  obtain rfl : task' = task := Option.some.inj (ht'.symm.trans ht)
  by_cases hbad : task'.result = BADAPPLE
  · rw [if_pos hbad]
    exact Bag.countP_set_leave hw rfl (by simp [live, hbad])
  · rw [if_neg hbad]
    exact congrArg (· + 1) (Bag.countP_set_same hw (by simp [live, hbad]))

theorem alive_run {s s' : Pool} {w : ℕ} (hs : s.step (.run w) = some s') : s'.alive = s.alive := by
  obtain ⟨task, hw, rfl⟩ := run_cases hs
  by_cases hbad : task.result = BADAPPLE
  · rw [if_pos hbad.symm]
    exact Bag.countP_set_same hw (by simp [live, hbad])
  · rw [if_neg (Ne.symm hbad)]
    exact Bag.countP_set_same hw (by simp [live, hbad])

theorem top_mem_held {s : Pool} {task : Task} (h : s.top = some task) : task ∈ s.held :=
  Multiset.mem_add.mpr (Or.inl (Multiset.mem_add.mpr (Or.inl (Multiset.mem_coe.mpr (top_mem h)))))

theorem inv_step {n : ℕ} {s s' : Pool} {l : Label} (h : Inv n s) (hrule : SubmitsNoStop s l)
    (hs : s.step l = some s') : Inv n s' := by
  have hjoined := joined_step h.joined hs
  cases l with
  | async result address => exact inv_async h hrule hs
  | shutDown =>
    obtain ⟨-, rfl⟩ := shutDown_cases hs
    exact inv_phase h (by decide) hjoined
  | stop address =>
    obtain ⟨i, hi, ⟨u, hu, rfl⟩ | rfl⟩ := stop_cases hs
    · have hu' := inv_async h (fun hcall => by rw [hi] at hcall; cases hcall) hu
      exact inv_phase hu' (by simp) hjoined
    · exact inv_phase h (by simp) hjoined
  | join =>
    obtain ⟨i, -, -, rfl⟩ := join_cases hs
    exact inv_phase h (by simp) hjoined
  | dequeue w =>
    have hheld := held_dequeue hs
    obtain ⟨task, hw, ht, rfl⟩ := dequeue_cases hs
    refine ⟨(List.length_set).trans h.threads, hheld ▸ h.nodup, ?_, ?_, h.result, ?_, hjoined⟩
    · rw [hheld]
      exact h.serial
    · rw [hheld]
      exact h.accepted
    · intro hcall
      obtain ⟨hall, halive⟩ := h.before hcall
      rw [hheld]
      refine ⟨hall, ?_⟩
      have hstep := alive_dequeue ht hs
      rw [if_neg (h.result task (hall task (top_mem_held ht)))] at hstep
      exact (Nat.add_right_cancel hstep).trans halive
  | run w =>
    have hheld := held_run hs
    have halive := alive_run hs
    obtain ⟨task, hw, rfl⟩ := run_cases hs
    refine ⟨(List.length_set).trans h.threads, hheld ▸ h.nodup, ?_, ?_, h.result, ?_, hjoined⟩
    · rw [hheld]
      exact h.serial
    · rw [hheld]
      exact h.accepted
    · intro hcall
      rw [hheld, halive]
      exact h.before hcall

/-! ### The decisive step -/

/-- A stranded task stays stranded. -/
theorem stranded_step {s s' : Pool} {l : Label} (hst : Stranded s)
    (hs : s.step l = some s') : Stranded s' := by
  obtain ⟨halive, task, hqueued, hacc⟩ := hst
  cases l with
  | async result address =>
    rw [async_cases hs]
    refine ⟨halive, task, List.mem_cons_of_mem _ hqueued, ?_⟩
    dsimp only
    split
    · exact List.mem_cons_of_mem _ hacc
    · exact hacc
  | shutDown =>
    rw [(shutDown_cases hs).2]
    exact ⟨halive, task, hqueued, hacc⟩
  | stop address =>
    obtain ⟨i, hi, ⟨u, hu, rfl⟩ | rfl⟩ := stop_cases hs
    · rw [async_cases hu]
      refine ⟨halive, task, List.mem_cons_of_mem _ hqueued, ?_⟩
      dsimp only
      rw [if_neg (by rw [hi]; simp)]
      exact hacc
    · exact ⟨halive, task, hqueued, hacc⟩
  | join =>
    obtain ⟨i, _, _, rfl⟩ := join_cases hs
    exact ⟨halive, task, hqueued, hacc⟩
  | dequeue w =>
    obtain ⟨top, hw, _, _⟩ := dequeue_cases hs
    have hnone := List.countP_eq_zero.mp halive .dequeue (List.mem_of_getElem? hw)
    exact absurd rfl hnone
  | run w =>
    have halive' := alive_run hs
    obtain ⟨ran, hw, rfl⟩ := run_cases hs
    exact ⟨halive'.trans halive, task, hqueued, hacc⟩

/-- A task that `Async` adds is not stranded by that: before `ShutDown` every worker
is there to take it, afterwards it is not one of the accepted. -/
theorem stranded_async {n : ℕ} {s s' : Pool} {result : Int} {address : ℕ} (hn : 0 < n) (h : Inv n s)
    (hs : s.async result address = some s') (hst : Stranded s') : Stranded s := by
  obtain ⟨halive, task, hqueued, hacc⟩ := hst
  rw [async_cases hs] at halive hqueued hacc
  have hcall : s.shutDown ≠ .notCalled := by
    intro hcall
    have hall : s.alive = 0 := halive
    rw [(h.before hcall).2] at hall
    omega
  dsimp only at hacc
  rw [if_neg hcall] at hacc
  refine ⟨halive, task, ?_, hacc⟩
  rcases List.mem_cons.mp hqueued with rfl | hqueued
  · exact absurd (h.serial _ (h.accepted _ hacc)) (Nat.lt_irrefl _)
  · exact hqueued

/-- The step that breaks the rule strands a task, and no other step does. -/
theorem stranded_iff_step {n : ℕ} {s s' : Pool} {l : Label} (hn : 0 < n) (h : Inv n s)
    (hst : ¬Stranded s) (hs : s.step l = some s') : Stranded s' ↔ ¬LastStopBelow s l := by
  cases l with
  | async result address =>
    exact ⟨fun hst' => absurd (stranded_async hn h hs hst') hst, fun hrule => absurd trivial hrule⟩
  | shutDown =>
    rw [(shutDown_cases hs).2]
    exact ⟨fun hst' => absurd hst' hst, fun hrule => absurd trivial hrule⟩
  | stop address =>
    refine ⟨fun hst' => ?_, fun hrule => absurd trivial hrule⟩
    obtain ⟨i, _, ⟨u, hu, rfl⟩ | rfl⟩ := stop_cases hs
    · exact absurd (stranded_async hn h hu hst') hst
    · exact absurd hst' hst
  | join =>
    obtain ⟨i, _, _, rfl⟩ := join_cases hs
    exact ⟨fun hst' => absurd hst' hst, fun hrule => absurd trivial hrule⟩
  | dequeue w =>
    obtain ⟨stop, hw, htop, hs'⟩ := dequeue_cases hs
    have halive := alive_dequeue htop hs
    subst hs'
    constructor
    · rintro ⟨hzero, task, hqueued, hacc⟩ hrule
      have hmem : task ∈ s.tasks := List.mem_of_mem_erase hqueued
      have hbad : stop.result = BADAPPLE := by
        by_contra hgo
        rw [if_neg hgo, hzero] at halive
        exact hst ⟨by omega, task, hmem, hacc⟩
      rw [if_pos hbad, hzero] at halive
      -- Below every accepted task, and yet the greatest address in the queue.
      have hbelow := hrule stop htop hbad (by omega) task hmem hacc
      exact absurd (le_top htop hmem) (Nat.not_le_of_lt hbelow)
    · intro hrule
      have hbad : stop.result = BADAPPLE ∧ s.alive = 1 ∧ ∃ task ∈ s.tasks, task ∈ s.accepted := by
        by_contra hcon
        apply hrule
        intro stop' htop' hbad hone task hqueued hacc
        obtain rfl : stop' = stop := Option.some.inj (htop'.symm.trans htop)
        exact absurd ⟨hbad, hone, task, hqueued, hacc⟩ hcon
      obtain ⟨hstop, hone, task, hqueued, hacc⟩ := hbad
      rw [if_pos hstop] at halive
      refine ⟨by omega, task, ?_, hacc⟩
      have hne : task ≠ stop := fun he => h.result task hacc (he ▸ hstop)
      exact (List.mem_erase_of_ne hne).mpr hqueued
  | run w =>
    have halive := alive_run hs
    obtain ⟨ran, _, rfl⟩ := run_cases hs
    refine ⟨fun ⟨hzero, task, hqueued, hacc⟩ => ?_, fun hrule => absurd trivial hrule⟩
    exact absurd ⟨halive ▸ hzero, task, hqueued, hacc⟩ hst

/-- A run has stranded a task exactly if one of its steps broke the rule. -/
theorem run_stranded_iff {n : ℕ} {trace : List (Pool × Label)} {s : Pool} (hn : 0 < n)
    (run : (machine n).Run (create n) trace s) (hrule : Machine.Meets SubmitsNoStop trace) :
    Inv n s ∧ (Stranded s ↔ ¬Machine.Meets LastStopBelow trace) := by
  induction run with
  | nil =>
    refine ⟨inv_create n, ?_, ?_⟩
    · rintro ⟨_, task, hqueued, _⟩
      cases hqueued
    · exact fun h => absurd Machine.meets_nil h
  | @snoc t u trace l run hu ih =>
    obtain ⟨htrace, hlast⟩ := Machine.meets_snoc.mp hrule
    obtain ⟨hinv, hiff⟩ := ih htrace
    refine ⟨inv_step hinv hlast hu, ?_⟩
    rw [Machine.meets_snoc]
    by_cases hst : Stranded t
    · exact ⟨fun _ hmeets => hiff.mp hst hmeets.1, fun _ => stranded_step hst hu⟩
    · have hmeets : Machine.Meets LastStopBelow trace := by
        by_contra h
        exact hst (hiff.mpr h)
      rw [stranded_iff_step hn hinv hst hu]
      exact ⟨fun h hcon => h hcon.2, fun h hcon => h ⟨hmeets, hcon⟩⟩

/-- With every thread out of the loop, nobody is alive and nothing is being run. -/
theorem returned_idle {n : ℕ} {s : Pool} (h : Inv n s) (hret : s.Returned) :
    s.alive = 0 ∧ (s.threads : Multiset Worker).filterMap running = 0 := by
  have hdone : AllLeft s := returned_left h.joined hret
  constructor
  · rw [alive, List.countP_eq_zero]
    intro worker hworker
    rw [hdone worker hworker]
    exact Bool.false_ne_true
  · refine Multiset.eq_zero_of_forall_notMem fun task htask => ?_
    obtain ⟨worker, hworker, hrun⟩ := (Multiset.mem_filterMap running _).mp htask
    rw [hdone worker (Multiset.mem_coe.mp hworker)] at hrun
    exact nomatch hrun

/-- When `ShutDown` returns, an accepted task is queued or was run once. -/
theorem returned_drained_iff {n : ℕ} {s : Pool} (h : Inv n s) (hret : s.Returned) :
    s.Drained ↔ ¬∃ task ∈ s.tasks, task ∈ s.accepted := by
  have hheld : s.held = (s.tasks : Multiset Task) + (s.ran : Multiset Task) := by
    rw [held, (returned_idle h hret).2, add_zero]
  have hnodup := h.nodup
  rw [hheld] at hnodup
  constructor
  · rintro hdrained ⟨task, hqueued, hacc⟩
    have hran : task ∈ s.ran := List.count_pos_iff.mp (by rw [hdrained task hacc]; decide)
    exact Multiset.disjoint_left.mp (Multiset.nodup_add.mp hnodup).2.2 hqueued hran
  · intro hnone task hacc
    have hmem := h.accepted task hacc
    rw [hheld] at hmem
    rcases Multiset.mem_add.mp hmem with hqueued | hran
    · exact absurd ⟨task, hqueued, hacc⟩ hnone
    · exact List.count_eq_one_of_mem (Multiset.coe_nodup.mp (Multiset.nodup_add.mp hnodup).2.1) hran

/-- Without threads nothing is ever taken, and nothing run. -/
theorem no_threads {trace : List (Pool × Label)} {s : Pool} (run : (machine 0).Run (create 0) trace s) :
    s.threads = [] ∧ s.ran = [] ∧ Machine.Meets LastStopBelow trace := by
  induction run with
  | nil => exact ⟨rfl, rfl, Machine.meets_nil⟩
  | @snoc t u trace l run hu ih =>
    obtain ⟨hthreads, hran, hmeets⟩ := ih
    have hlen := step_threads hu
    rw [hthreads, List.length_nil] at hlen
    refine ⟨List.length_eq_zero_iff.mp hlen, ?_, ?_⟩
    · cases l with
      | async result address =>
        rw [async_cases hu]
        exact hran
      | shutDown =>
        rw [(shutDown_cases hu).2]
        exact hran
      | stop address =>
        obtain ⟨i, _, ⟨v, hv, rfl⟩ | rfl⟩ := stop_cases hu
        · rw [async_cases hv]
          exact hran
        · exact hran
      | join =>
        obtain ⟨i, _, _, rfl⟩ := join_cases hu
        exact hran
      | dequeue w =>
        obtain ⟨task, _, _, rfl⟩ := dequeue_cases hu
        exact hran
      | run w =>
        obtain ⟨task, hw, _⟩ := run_cases hu
        simp [hthreads] at hw
    · refine Machine.meets_snoc.mpr ⟨hmeets, ?_⟩
      cases l with
      | dequeue w =>
        obtain ⟨task, hw, _⟩ := dequeue_cases hu
        simp [hthreads] at hw
      | _ => trivial

/-- **What `ShutDown` finishes.** For any threads, tasks, addresses and
interleaving: when `ShutDown` returns, every task accepted before it was called has
been run once, exactly if the last worker that could take tasks took its stop task
from below every accepted task in the queue. A pool without threads runs nothing. -/
theorem shutDown_drains_iff (n : ℕ) (trace : List (Pool × Label)) (s : Pool)
    (run : (machine n).Run (create n) trace s) (hrule : Machine.Meets SubmitsNoStop trace)
    (hret : s.Returned) :
    s.Drained ↔ (n = 0 → s.accepted = []) ∧ Machine.Meets LastStopBelow trace := by
  rcases Nat.eq_zero_or_pos n with rfl | hn
  · obtain ⟨_, hran, hmeets⟩ := no_threads run
    refine ⟨fun hdrained => ⟨fun _ => ?_, hmeets⟩, fun ⟨hnone, _⟩ task hacc => ?_⟩
    · refine List.eq_nil_iff_forall_not_mem.mpr fun task hacc => ?_
      have := hdrained task hacc
      simp [hran] at this
    · rw [hnone rfl] at hacc
      cases hacc
  · obtain ⟨hinv, hiff⟩ := run_stranded_iff hn run hrule
    rw [returned_drained_iff hinv hret]
    have hzero := (returned_idle hinv hret).1
    constructor
    · intro hnone
      refine ⟨fun h0 => absurd h0 (Nat.pos_iff_ne_zero.mp hn), ?_⟩
      by_contra hbroken
      exact hnone (hiff.mpr hbroken).2
    · rintro ⟨_, hmeets⟩ hstuck
      exact hiff.mp ⟨hzero, hstuck⟩ hmeets

instance (s : Pool) : (l : Label) → Decidable (SubmitsNoStop s l)
  | .async result _ => inferInstanceAs (Decidable (s.shutDown = .notCalled → result ≠ BADAPPLE))
  | .shutDown | .stop _ | .join | .dequeue _ | .run _ => .isTrue trivial

instance (s : Pool) : Decidable s.Drained :=
  inferInstanceAs (Decidable (∀ task ∈ s.accepted, s.ran.count task = 1))

instance (s : Pool) : Decidable s.Returned :=
  inferInstanceAs (Decidable (s.shutDown = .joining s.threads.length))

/-- A task above the stop task that one thread gets: run first, whatever else. -/
theorem shutDown_drains_above : ∃ trace s, (machine 1).Run (create 1) trace s ∧ s.Returned ∧
    s.accepted ≠ [] ∧ s.Drained ∧ Machine.Meets LastStopBelow trace := by
  obtain ⟨trace, s, run, h⟩ := Machine.run_of_replay (machine 1) (create 1)
    [.async 0 64, .shutDown, .stop 32, .stop 0, .dequeue 0, .run 0, .dequeue 0, .run 0, .join]
    (fun e => decide (Machine.Meets SubmitsNoStop e.1 ∧ e.2.Returned ∧ e.2.accepted ≠ [] ∧ e.2.Drained))
    (by decide)
  obtain ⟨hrule, hret, hacc, hdrained⟩ := of_decide_eq_true h
  exact ⟨trace, s, run, hret, hacc, hdrained,
    ((shutDown_drains_iff 1 trace s run hrule hret).mp hdrained).2⟩

/-- One task at a small address, then `ShutDown` before a worker wakes up: the four
stop tasks are taken first, and the task is never run. -/
def overtaking : List Label :=
  [.async 0 16, .shutDown, .stop 32, .stop 48, .stop 64, .stop 80, .stop 0,
    .dequeue 0, .dequeue 1, .dequeue 2, .dequeue 3, .run 0, .run 1, .run 2, .run 3,
    .join, .join, .join, .join]

theorem overtaking_loses : ∃ trace s, (machine 4).Run (create 4) trace s ∧
    Machine.Meets SubmitsNoStop trace ∧ s.Returned ∧ ¬s.Drained := by
  obtain ⟨trace, s, run, h⟩ := Machine.run_of_replay (machine 4) (create 4) overtaking
    (fun e => decide (Machine.Meets SubmitsNoStop e.1 ∧ e.2.Returned ∧ ¬e.2.Drained)) (by decide)
  exact ⟨trace, s, run, of_decide_eq_true h⟩

end PrivateCloud.ThreadPool.Pool
