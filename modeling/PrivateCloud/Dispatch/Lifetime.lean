import PrivateCloud.Dispatch.Completion

/-! Requests against the tasks that point to them.

Nothing keeps a request alive for its tasks: the last reply frees it, and a task that has
sent its last fragment has one more evaluation of its loop condition to go, which reads
the request's length. `no_stale_read_iff` says that this is a matter of order and of
nothing else. Freed only when no task of it is left, a request is never read again,
whatever nodes and sockets do; freed while one is left, that task's next step reads
freed memory, and the loop condition is all that is left of it. -/
namespace PrivateCloud.Dispatch.System
open Nbd Host

variable {s s' : System}

/-- The step reads request `c` through a task's pointer: the loop condition its length,
the body, of a WRITE, its buffer. -/
def Reads (s : System) (l : Label) (c : ℕ) : Prop :=
  match l with
  | .test k _ => ∃ task ∈ s.tasks[k]?, task.pc = .test ∧ task.owner = c
  | .send k _ => ∃ task ∈ s.tasks[k]?, task.pc = .body ∧ task.owner = c ∧
      task.info.atlasHeader.type = NBD_CMD_WRITE
  | _ => False

/-- No step of the run reads a request that was completed before it. -/
def NoStaleRead (trace : List (System × Label)) : Prop :=
  ∀ e ∈ trace, ∀ c, Reads e.1 e.2 c → e.1.disp.freed c = false

/-- The reply at the front of the socket is the last one of request `c`. -/
def Frees (s : System) (sockfd : ℕ) (cuts : ℕ → ℕ) (c : ℕ) : Prop :=
  ∃ u socket, RequestHost.peek ⟨s.stream sockfd, cuts⟩ = .ok (u, socket) ∧
    s.disp.activeRequests u = some c ∧
    (s.host c).fragmentationSet.erase (front (s.stream sockfd)).fragmentUid.toNat = ∅

/-- A request's last reply is handled when no task of the request is left. -/
def FreesLast (s : System) : Label → Prop
  | .iot sockfd cuts => ∀ c, Frees s sockfd cuts c → ∀ task ∈ s.tasks, task.owner ≠ c
  | _ => True

/-! ### Freed last, never read again -/

/-- A freed request has no task, and no entry. -/
structure Apart (s : System) : Prop where
  created : ∀ u c, s.disp.activeRequests u = some c → c < s.disp.created
  freed : ∀ c, s.disp.freed c = true →
    c < s.disp.created ∧ ∀ task, task ∈ s.queueing ∨ task ∈ s.tasks → task.owner ≠ c

theorem apart_init : Apart init where
  created := fun _ _ h => nomatch h
  freed := fun _ h => nomatch h

/-- Steps that free nothing and make no task for an older request. -/
theorem Apart.quiet (h : Apart s) (hdisp : s'.disp = s.disp)
    (htask : ∀ task, task ∈ s'.queueing ∨ task ∈ s'.tasks →
      ∃ task', (task' ∈ s.queueing ∨ task' ∈ s.tasks) ∧ task'.owner = task.owner) : Apart s' where
  created := by rw [hdisp]; exact h.created
  freed := by
    rw [hdisp]
    intro c hc
    obtain ⟨hlt, hnone⟩ := h.freed c hc
    refine ⟨hlt, fun task ht => ?_⟩
    obtain ⟨task', ht', howner⟩ := htask task ht
    rw [← howner]
    exact hnone task' ht'

theorem apart_set {k : ℕ} {task task' : Task} (hk : s.tasks[k]? = some task)
    (howner : task'.owner = task.owner) :
    ∀ t, t ∈ s.queueing ∨ t ∈ s.tasks.set k task' →
      ∃ t', (t' ∈ s.queueing ∨ t' ∈ s.tasks) ∧ t'.owner = t.owner := by
  rintro t (ht | ht)
  · exact ⟨t, Or.inl ht, rfl⟩
  · rcases Bag.mem_set ht with rfl | ht
    · exact ⟨task, Or.inr (List.mem_of_getElem? hk), howner.symm⟩
    · exact ⟨t, Or.inr ht, rfl⟩

theorem apart_step {l : Label} (h : Apart s) (hrule : FreesLast s l) (hs : s.step l = some s') :
    Apart s' := by
  cases l with
  | nbd message =>
    obtain ⟨-, rfl⟩ := nbd_cases hs
    refine ⟨fun u c hu => ?_, fun c hc => ?_⟩
    · simp only [Dispatcher.nbdRequestsHandle, Function.update_apply] at hu
      split at hu
      case isTrue =>
        obtain rfl := Option.some.inj hu
        exact Nat.lt_succ_self _
      case isFalse => exact Nat.lt_succ_of_lt (h.created u c hu)
    · obtain ⟨hlt, hnone⟩ := h.freed c hc
      refine ⟨Nat.lt_succ_of_lt hlt, ?_⟩
      rintro task (ht | ht)
      · obtain ⟨j, -, rfl⟩ := mem_tasksOf ht
        exact (Nat.ne_of_lt hlt).symm
      · exact hnone task (Or.inr ht)
  | async =>
    obtain ⟨task, rest, hq, rfl⟩ := async_cases hs
    refine h.quiet rfl fun t ht => ⟨t, ?_, rfl⟩
    simp only [List.mem_cons] at ht
    rw [hq, List.mem_cons]
    tauto
  | test k seen =>
    obtain ⟨task, hk, -, ⟨-, rfl⟩ | ⟨-, rfl⟩⟩ := test_cases hs
    · exact h.quiet rfl (apart_set hk rfl)
    · exact h.quiet rfl fun t ht => ⟨t, ht.imp id List.mem_of_mem_eraseIdx, rfl⟩
  | send k junk =>
    obtain ⟨task, command, hk, -, -, rfl⟩ := send_cases hs
    exact h.quiet rfl (apart_set hk rfl)
  | answer k header data =>
    obtain ⟨m, -, rfl⟩ := answer_cases hs
    exact h.quiet rfl fun t ht => ⟨t, ht, rfl⟩
  | iot sockfd cuts =>
    obtain ⟨hq, -, disp, socket, hiot, rfl⟩ := System.iot_cases hs
    obtain ⟨u, t, c, req, hpeek, hc, -, -, hset, rfl⟩ := Dispatcher.iotHandle_cases hiot
    refine ⟨fun v b hv => ?_, fun b hb => ?_⟩
    · dsimp only at hv
      split at hv
      case isTrue =>
        rw [Function.update_apply] at hv
        split at hv
        case isTrue => cases hv
        case isFalse => exact h.created v b hv
      case isFalse => exact h.created v b hv
    · -- Freed before, or freed now, and then the rule says that no task is left.
      have hcase := (Dispatcher.freed_iff rfl b).mp hb
      rcases hcase with hb | ⟨rfl, hempty⟩
      · exact h.freed b hb
      · refine ⟨h.created u b hc, ?_⟩
        rintro task (ht | ht)
        · rw [hq] at ht
          cases ht
        · exact hrule b ⟨u, t, hpeek, hc, hset ▸ hempty⟩ task ht

/-- What a step reads is a request of a task there is. -/
theorem reads_owner {l : Label} {c : ℕ} (h : Reads s l c) : ∃ task ∈ s.tasks, task.owner = c := by
  cases l with
  | test k seen =>
    obtain ⟨task, hk, -, howner⟩ := h
    exact ⟨task, List.mem_of_getElem? hk, howner⟩
  | send k junk =>
    obtain ⟨task, hk, -, howner, -⟩ := h
    exact ⟨task, List.mem_of_getElem? hk, howner⟩
  | _ => cases h

theorem run_apart {trace : List (System × Label)} (run : machine.Run init trace s)
    (hrule : Machine.Meets FreesLast trace) : Apart s :=
  run.invariant apart_init (fun _ _ _ h hrule hs => apart_step h hrule hs) hrule

/-- The run lemma, for any nodes, sockets and clients. -/
theorem run_noStaleRead {trace : List (System × Label)} (run : machine.Run init trace s)
    (hrule : Machine.Meets FreesLast trace) : NoStaleRead trace := by
  intro e he c hreads
  obtain ⟨before, after, rfl, hbefore, -⟩ := run.split he
  have hapart := run_apart hbefore fun x hx => hrule x (List.mem_append_left _ hx)
  obtain ⟨task, htask, rfl⟩ := reads_owner hreads
  rw [← Bool.not_eq_true]
  exact fun hfreed => (hapart.freed _ hfreed).2 task (Or.inr htask) rfl

/-! ### Freed with a task left -/

/-- What the necessity of the order takes of nodes, sockets and clients. -/
structure Environment (s : System) (l : Label) : Prop where
  honest : Honest s l
  few : FewActive s l
  peeks : PeeksWhole s l

/-- Some task points to a freed request. -/
def Stale (s : System) : Prop := ∃ task ∈ s.tasks, s.disp.freed task.owner = true

/-- Where nothing freed is read, no freed length is. -/
theorem run_inv_of_noStaleRead {trace : List (System × Label)} (run : machine.Run init trace s)
    (henv : Machine.Meets Environment trace) (hno : NoStaleRead trace) : Inv s := by
  refine run.invariant (P := Inv)
    (r := fun s l => Environment s l ∧ ∀ c, Reads s l c → s.disp.freed c = false) inv_init ?_
    fun e he => ⟨henv e he, hno e he⟩
  rintro t l u h ⟨he, hreads⟩ hs
  refine inv_step h he.honest he.few he.peeks ?_ hs
  cases l with
  | test k seen =>
    intro task hk hfreed
    obtain ⟨task', hk', hpc, -⟩ := test_cases hs
    obtain rfl := Option.some.inj (hk'.symm.trans hk)
    have hnot := hreads task'.owner ⟨task', hk', hpc, rfl⟩
    rw [hfreed] at hnot
    cases hnot
  | _ => trivial

/-- **The loop condition is what is left**: a task of a freed request is at its last one,
and whatever that sees, it looks. -/
theorem Inv.stale_test (h : Inv s) {task : Task} {k : ℕ} (hk : s.tasks[k]? = some task)
    (hfreed : s.disp.freed task.owner = true) :
    s.count task.owner ≤ task.i.toNat ∧ task.pc = .test ∧
      ∀ seen, (∃ t, s.step (.test k seen) = some t) ∧ Reads s (.test k seen) task.owner := by
  have hmem := List.mem_of_getElem? hk
  have hdone := h.stale_done (Or.inr hmem) hfreed
  have hpc : task.pc = .test := by
    cases hpc : task.pc with
    | test => rfl
    | body => exact absurd ((h.task task (Or.inr hmem)).body hpc) (Nat.not_lt.mpr hdone)
  refine ⟨hdone, hpc, fun seen => ⟨?_, task, hk, hpc, rfl⟩⟩
  obtain ⟨owner, info, i, pc⟩ := task
  obtain rfl : pc = .test := hpc
  simp only [step, test, hk]
  split <;> exact ⟨_, rfl⟩

/-- A task other than the one at `k` stays when that one goes. -/
theorem mem_eraseIdx {k : ℕ} {task other : Task} (hk : s.tasks[k]? = some task) (ht : other ∈ s.tasks)
    (hne : other ≠ task) : other ∈ s.tasks.eraseIdx k := by
  have hmem : other ∈ (s.tasks : Multiset Task) := Multiset.mem_coe.mpr ht
  rw [Bag.coe_eq_cons hk, Multiset.mem_cons] at hmem
  exact Multiset.mem_coe.mp (hmem.resolve_left hne)

theorem mem_set {k : ℕ} {task other : Task} (hk : s.tasks[k]? = some task) (ht : other ∈ s.tasks)
    (hne : other ≠ task) (task' : Task) : other ∈ s.tasks.set k task' := by
  have hmem := Multiset.mem_cons_of_mem (b := task') (Multiset.mem_coe.mpr (mem_eraseIdx hk ht hne))
  rw [← Bag.coe_set hk] at hmem
  exact Multiset.mem_coe.mp hmem

/-- A stale task stays until its request is read. -/
theorem Inv.stale_step (h : Inv s) {l : Label} (hs : s.step l = some s') (hstale : Stale s)
    (hreads : ∀ c, Reads s l c → s.disp.freed c = false) : Stale s' := by
  obtain ⟨task, ht, hfreed⟩ := hstale
  cases l with
  | nbd message =>
    obtain ⟨-, rfl⟩ := nbd_cases hs
    exact ⟨task, ht, hfreed⟩
  | async =>
    obtain ⟨other, rest, -, rfl⟩ := async_cases hs
    exact ⟨task, List.mem_cons_of_mem _ ht, hfreed⟩
  | test k seen =>
    obtain ⟨other, hk, hpc, hcase⟩ := test_cases hs
    have hne : task ≠ other := by
      rintro rfl
      have hnot := hreads task.owner ⟨task, hk, hpc, rfl⟩
      rw [hfreed] at hnot
      cases hnot
    rcases hcase with ⟨-, rfl⟩ | ⟨-, rfl⟩
    · exact ⟨task, mem_set hk ht hne _, hfreed⟩
    · exact ⟨task, mem_eraseIdx hk ht hne, hfreed⟩
  | send k junk =>
    obtain ⟨other, command, hk, hpc, -, rfl⟩ := send_cases hs
    have hne : task ≠ other := by
      rintro rfl
      rw [(h.stale_test hk hfreed).2.1] at hpc
      cases hpc
    exact ⟨task, mem_set hk ht hne _, hfreed⟩
  | answer k header data =>
    obtain ⟨m, -, rfl⟩ := answer_cases hs
    exact ⟨task, ht, hfreed⟩
  | iot sockfd cuts =>
    obtain ⟨-, -, disp, socket, hiot, rfl⟩ := System.iot_cases hs
    obtain ⟨u, t, c, req, -, -, -, -, -, rfl⟩ := Dispatcher.iotHandle_cases hiot
    exact ⟨task, ht, (Dispatcher.freed_iff rfl _).mpr (Or.inl hfreed)⟩

/-- The step that breaks the rule leaves a stale task. -/
theorem stale_of_frees {sockfd : ℕ} {cuts : ℕ → ℕ} {c : ℕ} (hs : s.step (.iot sockfd cuts) = some s')
    (hfrees : Frees s sockfd cuts c) {task : Task} (ht : task ∈ s.tasks) (howner : task.owner = c) :
    Stale s' := by
  obtain ⟨-, -, disp, socket, hiot, rfl⟩ := System.iot_cases hs
  obtain ⟨u, t, b, req, hpeek, hb, -, -, hset, rfl⟩ := Dispatcher.iotHandle_cases hiot
  obtain ⟨v, t', hpeek', hc, hlast⟩ := hfrees
  obtain ⟨rfl, -⟩ := Prod.mk.inj (Except.ok.inj (hpeek.symm.trans hpeek'))
  obtain rfl := Option.some.inj (hb.symm.trans hc)
  exact ⟨task, ht, (Dispatcher.freed_iff rfl _).mpr (Or.inr ⟨howner, hset.trans hlast⟩)⟩

/-- No step that may come next reads a completed request. -/
def NextSafe (trace : List (System × Label)) (s : System) : Prop :=
  ∀ l t, s.step l = some t → NoStaleRead (trace ++ [(s, l)])

theorem noStaleRead_snoc {trace : List (System × Label)} {l : Label} :
    NoStaleRead (trace ++ [(s, l)]) ↔ NoStaleRead trace ∧ ∀ c, Reads s l c → s.disp.freed c = false := by
  simp only [NoStaleRead, List.forall_mem_append, List.forall_mem_singleton]

theorem Inv.not_stale_of_nextSafe {trace : List (System × Label)} (h : Inv s)
    (hnext : NextSafe trace s) : ¬Stale s := by
  rintro ⟨task, ht, hfreed⟩
  obtain ⟨k, hk⟩ := List.getElem?_of_mem ht
  obtain ⟨-, -, htest⟩ := h.stale_test hk hfreed
  obtain ⟨⟨t, hs⟩, hreads⟩ := htest 0
  have hnot := (noStaleRead_snoc.mp (hnext _ t hs)).2 _ hreads
  rw [hfreed] at hnot
  cases hnot

/-- The converse run lemma. -/
theorem run_freesLast {trace : List (System × Label)} (run : machine.Run init trace s)
    (henv : Machine.Meets Environment trace) (hno : NoStaleRead trace) (hstale : ¬Stale s) :
    Machine.Meets FreesLast trace := by
  induction run with
  | nil => exact Machine.meets_nil
  | @snoc t u trace l run hu ih =>
    obtain ⟨henv, -⟩ := Machine.meets_snoc.mp henv
    obtain ⟨hno, hreads⟩ := noStaleRead_snoc.mp hno
    have h := run_inv_of_noStaleRead run henv hno
    refine Machine.meets_snoc.mpr ⟨ih henv hno fun hst => hstale (h.stale_step hu hst hreads), ?_⟩
    cases l with
    | iot sockfd cuts =>
      intro c hfrees task ht howner
      exact hstale (stale_of_frees hu hfrees ht howner)
    | _ => trivial

/-- **Requests and their tasks.** In every run whatsoever in which each request is freed
when no task of it is left, no step reads a request that was completed. Nothing less
will do: where nodes and sockets behave, the runs that are safe, up to now and in every
next step, are exactly these. -/
theorem no_stale_read_iff {trace : List (System × Label)} (run : machine.Run init trace s) :
    (Machine.Meets FreesLast trace → NoStaleRead trace) ∧
      (Machine.Meets Environment trace →
        (NoStaleRead trace ∧ NextSafe trace s ↔ Machine.Meets FreesLast trace)) := by
  refine ⟨run_noStaleRead run, fun henv => ⟨fun ⟨hno, hnext⟩ => ?_, fun hrule => ?_⟩⟩
  · exact run_freesLast run henv hno ((run_inv_of_noStaleRead run henv hno).not_stale_of_nextSafe hnext)
  · refine ⟨run_noStaleRead run hrule, fun l t _ => ?_⟩
    refine noStaleRead_snoc.mpr ⟨run_noStaleRead run hrule, fun c hreads => ?_⟩
    obtain ⟨task, ht, rfl⟩ := reads_owner hreads
    rw [← Bool.not_eq_true]
    exact fun hfreed => ((run_apart run hrule).freed _ hfreed).2 task (Or.inr ht) rfl

theorem environment_of_routine {trace : List (System × Label)} (h : ∀ e ∈ trace, Routine e) :
    Machine.Meets Environment trace :=
  fun e he => ⟨(h e he).2.1, fewActive_of_lt (h e he).2.2.1, (h e he).2.2.2⟩

/-- Replies are handled while the pool is idle. -/
def HandlesIdle : System × Label → Prop
  | (s, .iot _ _) => s.tasks.isEmpty = true
  | _ => True

instance : (e : System × Label) → Decidable (HandlesIdle e)
  | (s, .iot _ _) => inferInstanceAs (Decidable (s.tasks.isEmpty = true))
  | (_, .nbd _) | (_, .async) | (_, .test _ _) | (_, .send _ _) | (_, .answer _ _ _) => isTrue trivial

theorem freesLast_of_handlesIdle {trace : List (System × Label)} (h : ∀ e ∈ trace, HandlesIdle e) :
    Machine.Meets FreesLast trace := by
  rintro ⟨t, l⟩ he
  cases l with
  | iot sockfd cuts =>
    intro c _ task ht
    rw [List.isEmpty_iff.mp (h _ he)] at ht
    cases ht
  | _ => trivial

/-- The WRITE whose task ends before its reply is handled. -/
theorem write_freed_last : ∃ trace s, machine.Run init trace s ∧ s.disp.freed 0 = true ∧
    NoStaleRead trace ∧ NextSafe trace s := by
  obtain ⟨trace, s, run, h⟩ := Machine.run_of_replay machine init
    (writeSent ++ [.test 0 0, .iot 1 fun _ => 24])
    (fun e => decide ((∀ x ∈ e.1, Routine x ∧ HandlesIdle x) ∧ e.2.disp.freed 0 = true))
    (by decide +kernel)
  obtain ⟨hall, hfreed⟩ := of_decide_eq_true h
  have hrule := freesLast_of_handlesIdle fun e he => (hall e he).2
  have henv := environment_of_routine fun e he => (hall e he).1
  exact ⟨trace, s, run, hfreed, (no_stale_read_iff run).1 hrule,
    (((no_stale_read_iff run).2 henv).mpr hrule).2⟩

/-- Handled first, the reply frees the request under its task. -/
theorem write_freed_first : ∃ trace s, machine.Run init trace s ∧ Machine.Meets Assumed trace ∧
    Machine.Meets PeeksWhole trace ∧ ¬NoStaleRead trace := by
  obtain ⟨trace, s, run, h⟩ := Machine.run_of_replay machine init (writeSent ++ [.iot 1 fun _ => 24])
    (fun e => decide ((∀ x ∈ e.1, Routine x) ∧ Routine (e.2, .test 0 1024) ∧
      e.2.disp.freed 0 = true ∧ e.2.tasks[0]?.map Task.owner = some 0 ∧
      (e.2.step (.test 0 1024)).isSome = true)) (by decide +kernel)
  obtain ⟨hall, hlast, hfreed, howner, hstep⟩ := of_decide_eq_true h
  obtain ⟨t, hs⟩ := Option.isSome_iff_exists.mp hstep
  have hs : machine.step s (.test 0 1024) = some t := hs
  obtain ⟨task, hk, hpc, -⟩ := test_cases hs
  have hall' : ∀ x ∈ trace ++ [(s, .test 0 1024)], Routine x := by
    simp only [List.forall_mem_append, List.forall_mem_singleton]
    exact ⟨hall, hlast⟩
  refine ⟨_, t, run.snoc hs, assumed_of_routine hall', fun e he => (hall' e he).2.2.2, fun hno => ?_⟩
  have hzero : task.owner = 0 := by
    rw [hk] at howner
    exact Option.some.inj howner
  have hnot := hno _ (List.mem_append_right _ (List.mem_singleton_self _)) 0 ⟨task, hk, hpc, hzero⟩
  rw [hfreed] at hnot
  cases hnot

end PrivateCloud.Dispatch.System
