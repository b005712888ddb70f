import PrivateCloud.Library.Bag
import PrivateCloud.Library.Machine

/-! What a `Future` waits for: `ThreadPool.cpp` and `semaphore.cpp`.

A worker runs a task once: the function's result goes to `m_status`, then the task's
semaphore is posted. `Future::Wait` waits for the semaphore and reads `m_status`, and
any thread may call it on the future or on a copy of it. What a semaphore does under
its mutex is one step; a thread in `m_cv.wait` is woken by `notify_one`, or by nothing.

The semaphore counts: it is posted once, and each `Wait` that returns takes that away.
So what a `Wait` returns is the function's result, and only one of them returns
(`wait_once_iff`). -/
namespace PrivateCloud.ThreadPool.Future

/-- A call of `Future::Wait`. -/
inductive Waiter where
  /-- About to lock the semaphore's mutex and look at `m_count`. -/
  | enter
  /-- In `m_cv.wait`. -/
  | asleep
  /-- Out of `Semaphore::Wait`, about to read `m_status`. -/
  | through
  | returned (status : Int)
  deriving DecidableEq

/-- Where the worker is in `Task::Run`. -/
inductive Runner where
  | function
  | post
  | finished
  deriving DecidableEq

/-- One task. `result` is a history: what its function has returned. -/
structure Task where
  status : Int
  count : ℕ
  runner : Runner
  waiters : List Waiter
  result : Option Int

inductive Label where
  /-- Somebody calls `Wait`. -/
  | call
  /-- Waiter `k` holds the mutex and tests `m_count`. -/
  | test (k : ℕ)
  /-- Waiter `k` comes out of `m_cv.wait` without having been notified. -/
  | wakeUp (k : ℕ)
  | getStatus (k : ℕ)
  /-- `m_status = m_function()` -/
  | function (result : Int)
  /-- `m_sem.Post()`, which wakes up this waiter if any is asleep. -/
  | post (notified : Option ℕ)

/-- A task accepted by `Async`; nobody has written `m_status`. -/
def create (garbage : Int) : Task := ⟨garbage, 0, .function, [], none⟩

def step (s : Task) : Label → Option Task
  | .call => some {s with waiters := s.waiters ++ [.enter]}
  | .test k =>
    if s.waiters[k]? = some .enter then
      if s.count = 0 then some {s with waiters := s.waiters.set k .asleep}
      else some {s with count := s.count - 1, waiters := s.waiters.set k .through}
    else none
  | .wakeUp k =>
    if s.waiters[k]? = some .asleep then some {s with waiters := s.waiters.set k .enter} else none
  | .getStatus k =>
    if s.waiters[k]? = some .through then some {s with waiters := s.waiters.set k (.returned s.status)}
    else none
  | .function result =>
    if s.runner = .function then some {s with status := result, runner := .post, result := some result}
    else none
  | .post notified =>
    if s.runner = .post then
      match notified with
      | some k =>
        if s.waiters[k]? = some .asleep then
          some {s with count := s.count + 1, runner := .finished, waiters := s.waiters.set k .enter}
        else none
      | none =>
        if Waiter.asleep ∈ s.waiters then none
        else some {s with count := s.count + 1, runner := .finished}
    else none

def machine (garbage : Int) : Machine Task Label := ⟨create garbage, step⟩

/-- The waiter has been let through by the semaphore. -/
def passed : Waiter → Bool
  | .through | .returned _ => true
  | .enter | .asleep => false

/-- A call of `Wait` is in `Semaphore::Wait`, with nothing to be let through by. -/
def Blocked (s : Task) : Prop := s.count = 0 ∧ ∃ waiter ∈ s.waiters, passed waiter = false

/-- No further call of `Wait`. -/
def NoCall (_ : Task) : Label → Prop
  | .call => False
  | _ => True

/-! ### What one step can do -/

variable {s s' : Task}

theorem test_cases {k : ℕ} (h : step s (.test k) = some s') : s.waiters[k]? = some .enter ∧
    ((s.count = 0 ∧ s' = {s with waiters := s.waiters.set k .asleep}) ∨
      (s.count ≠ 0 ∧ s' = {s with count := s.count - 1, waiters := s.waiters.set k .through})) := by
  simp only [step] at h
  split at h
  case isTrue hk =>
    refine ⟨hk, ?_⟩
    split at h
    case isTrue hzero => exact Or.inl ⟨hzero, (Option.some.inj h).symm⟩
    case isFalse hpos => exact Or.inr ⟨hpos, (Option.some.inj h).symm⟩
  case isFalse => cases h

theorem wakeUp_cases {k : ℕ} (h : step s (.wakeUp k) = some s') :
    s.waiters[k]? = some .asleep ∧ s' = {s with waiters := s.waiters.set k .enter} := by
  simp only [step] at h
  split at h
  case isTrue hk => exact ⟨hk, (Option.some.inj h).symm⟩
  case isFalse => cases h

theorem getStatus_cases {k : ℕ} (h : step s (.getStatus k) = some s') :
    s.waiters[k]? = some .through ∧ s' = {s with waiters := s.waiters.set k (.returned s.status)} := by
  simp only [step] at h
  split at h
  case isTrue hk => exact ⟨hk, (Option.some.inj h).symm⟩
  case isFalse => cases h

theorem function_cases {result : Int} (h : step s (.function result) = some s') :
    s.runner = .function ∧ s' = {s with status := result, runner := .post, result := some result} := by
  simp only [step] at h
  split at h
  case isTrue hr => exact ⟨hr, (Option.some.inj h).symm⟩
  case isFalse => cases h

/-- The waiter that `notify_one` wakes up goes back to its test. -/
theorem post_cases {notified : Option ℕ} (h : step s (.post notified) = some s') :
    s.runner = .post ∧ ∃ waiters,
      s' = {s with count := s.count + 1, runner := .finished, waiters := waiters} ∧
      (waiters = s.waiters ∨ ∃ k, s.waiters[k]? = some .asleep ∧ waiters = s.waiters.set k .enter) := by
  simp only [step] at h
  split at h
  case isTrue hr =>
    refine ⟨hr, ?_⟩
    split at h
    case h_1 k =>
      split at h
      case isTrue hk => exact ⟨_, (Option.some.inj h).symm, Or.inr ⟨k, hk, rfl⟩⟩
      case isFalse => cases h
    case h_2 =>
      split at h
      case isTrue => cases h
      case isFalse => exact ⟨s.waiters, (Option.some.inj h).symm, Or.inl rfl⟩
  case isFalse => cases h

/-! ### One post, one waiter -/

structure Inv (s : Task) : Prop where
  /-- What was posted is in the semaphore, or a waiter has it. -/
  posts : s.count + s.waiters.countP passed = if s.runner = .finished then 1 else 0
  status : s.runner ≠ .function → s.result = some s.status
  returned : ∀ v, .returned v ∈ s.waiters → s.result = some v

theorem inv_create (garbage : Int) : Inv (create garbage) where
  posts := rfl
  status := fun h => absurd rfl h
  returned := nofun

/-- Nobody passes before the task has run. -/
theorem Inv.finished (h : Inv s) {waiter : Waiter} (hw : waiter ∈ s.waiters) (hp : passed waiter = true) :
    s.runner = .finished := by
  have hpos : 0 < s.waiters.countP passed := List.countP_pos_iff.mpr ⟨waiter, hw, hp⟩
  have hposts := h.posts
  by_contra hrun
  rw [if_neg hrun] at hposts
  omega

/-- A waiter goes on without being let through. -/
theorem inv_set (h : Inv s) {k : ℕ} {old : Waiter} (new : Waiter) (hk : s.waiters[k]? = some old)
    (hsame : passed new = passed old) (hret : ∀ v, new = .returned v → s.result = some v) :
    Inv {s with waiters := s.waiters.set k new} := by
  have hcount : (s.waiters.set k new).countP passed = s.waiters.countP passed :=
    Bag.countP_set_same hk hsame
  refine ⟨?_, h.status, fun v hv => ?_⟩
  · show s.count + (s.waiters.set k new).countP passed = _
    rw [hcount]
    exact h.posts
  · rcases Bag.mem_set hv with hv | hv
    · exact hret v hv.symm
    · exact h.returned v hv

theorem inv_step {l : Label} (h : Inv s) (hs : step s l = some s') : Inv s' := by
  have hposts := h.posts
  cases l with
  | call =>
    obtain rfl := Option.some.inj hs
    refine ⟨?_, h.status, fun v hv => ?_⟩
    · rw [List.countP_append]
      exact hposts
    · rcases List.mem_append.mp hv with hv | hv
      · exact h.returned v hv
      · cases List.mem_singleton.mp hv
  | test k =>
    obtain ⟨hk, ⟨hzero, rfl⟩ | ⟨hpos, rfl⟩⟩ := test_cases hs
    · exact inv_set h .asleep hk rfl nofun
    · have hcount : (s.waiters.set k .through).countP passed = s.waiters.countP passed + 1 :=
        Bag.countP_set_enter hk rfl rfl
      refine ⟨?_, h.status, fun v hv => ?_⟩
      · dsimp only
        omega
      · rcases Bag.mem_set hv with hv | hv
        · cases hv
        · exact h.returned v hv
  | wakeUp k =>
    obtain ⟨hk, rfl⟩ := wakeUp_cases hs
    exact inv_set h .enter hk rfl nofun
  | getStatus k =>
    obtain ⟨hk, rfl⟩ := getStatus_cases hs
    refine inv_set h (.returned s.status) hk rfl fun v hv => ?_
    -- The status was written before the post that let the waiter through.
    have hfinished := h.finished (List.mem_of_getElem? hk) rfl
    obtain rfl := Waiter.returned.inj hv
    exact h.status (by rw [hfinished]; decide)
  | function result =>
    obtain ⟨hrun, rfl⟩ := function_cases hs
    rw [hrun] at hposts
    refine ⟨hposts, fun _ => rfl, fun v hv => ?_⟩
    have hfinished := h.finished hv rfl
    rw [hrun] at hfinished
    cases hfinished
  | post notified =>
    obtain ⟨hrun, waiters, rfl, hwaiters⟩ := post_cases hs
    have hstatus := h.status (by rw [hrun]; decide)
    have hposted : Inv {s with count := s.count + 1, runner := .finished} := by
      refine ⟨?_, fun _ => hstatus, h.returned⟩
      rw [hrun, if_neg (by decide)] at hposts
      dsimp only
      rw [if_pos rfl]
      omega
    rcases hwaiters with rfl | ⟨k, hk, rfl⟩
    · exact hposted
    · exact inv_set hposted .enter hk rfl nofun

theorem run_inv {garbage : Int} {trace : List (Task × Label)}
    (run : (machine garbage).Run (create garbage) trace s) : Inv s :=
  run.invariant (P := Inv) (r := fun _ _ => True) (inv_create garbage) (fun _ _ _ h _ hs => inv_step h hs)
    (fun _ _ => trivial)

/-! ### Who is left waiting -/

theorem step_length {l : Label} (hl : NoCall s l) (hs : step s l = some s') :
    s'.waiters.length = s.waiters.length := by
  cases l with
  | call => exact absurd hl id
  | test k =>
    obtain ⟨-, ⟨-, rfl⟩ | ⟨-, rfl⟩⟩ := test_cases hs
    · exact List.length_set
    · exact List.length_set
  | wakeUp k =>
    rw [(wakeUp_cases hs).2]
    exact List.length_set
  | getStatus k =>
    rw [(getStatus_cases hs).2]
    exact List.length_set
  | function result => rw [(function_cases hs).2]
  | post notified =>
    obtain ⟨-, waiters, rfl, rfl | ⟨k, -, rfl⟩⟩ := post_cases hs
    · rfl
    · exact List.length_set

/-- After the task has run, somebody is blocked exactly if the post is taken and not all
have it. -/
theorem blocked_iff (h : Inv s) (hrun : s.runner = .finished) :
    Blocked s ↔ s.count = 0 ∧ 2 ≤ s.waiters.length := by
  have hposts := h.posts
  rw [if_pos hrun] at hposts
  refine and_congr_right fun hzero => ?_
  have hone : s.waiters.countP passed = 1 := by omega
  have hlength := List.length_eq_countP_add_countP passed (l := s.waiters)
  have hnone : (∃ waiter ∈ s.waiters, passed waiter = false) ↔
      0 < s.waiters.countP fun waiter => decide ¬passed waiter = true := by
    rw [List.countP_pos_iff]
    simp
  rw [hnone]
  omega

/-- A run leads from one state to the other without further calls. -/
def Leads (garbage : Int) (s t : Task) : Prop :=
  ∃ rest, (machine garbage).Run s rest t ∧ Machine.Meets NoCall rest

theorem leads_refl (garbage : Int) (s : Task) : Leads garbage s s :=
  ⟨[], Machine.Run.nil, Machine.meets_nil⟩

theorem leads_step {garbage : Int} {t u : Task} {l : Label} (hs : step s l = some t) (hl : NoCall s l)
    (htu : Leads garbage t u) : Leads garbage s u := by
  obtain ⟨rest, run, hrest⟩ := htu
  exact ⟨(s, l) :: rest, Machine.Run.cons hs run, List.forall_mem_cons.mpr ⟨hl, hrest⟩⟩

theorem leads_trans {garbage : Int} {t u : Task} (hst : Leads garbage s t) (htu : Leads garbage t u) :
    Leads garbage s u := by
  obtain ⟨first, run, hfirst⟩ := hst
  obtain ⟨second, run', hsecond⟩ := htu
  exact ⟨first ++ second, run.append run', List.forall_mem_append.mpr ⟨hfirst, hsecond⟩⟩

theorem leads_kept {garbage : Int} {t : Task} (h : Inv s) (hst : Leads garbage s t) :
    Inv t ∧ t.waiters.length = s.waiters.length := by
  obtain ⟨rest, run, hrest⟩ := hst
  exact run.invariant (P := fun u => Inv u ∧ u.waiters.length = s.waiters.length) (r := NoCall) ⟨h, rfl⟩
    (fun _ _ _ hu hl hs => ⟨inv_step hu.1 hs, (step_length hl hs).trans hu.2⟩) hrest

/-- `Post` has somebody to wake up or nobody. -/
theorem post_possible (hrun : s.runner = .post) :
    ∃ notified t, step s (.post notified) = some t ∧ t.runner = .finished := by
  by_cases hasleep : Waiter.asleep ∈ s.waiters
  · obtain ⟨k, hk⟩ := List.mem_iff_getElem?.mp hasleep
    refine ⟨some k, ?_⟩
    simp only [step, hrun, hk, if_true]
    exact ⟨_, rfl, rfl⟩
  · refine ⟨none, ?_⟩
    simp only [step, hrun, hasleep, if_true, if_false]
    exact ⟨_, rfl, rfl⟩

/-- The worker can finish, whatever the waiters do. -/
theorem can_finish (garbage : Int) (s : Task) : ∃ t, Leads garbage s t ∧ t.runner = .finished := by
  have hpost (s : Task) (hrun : s.runner = .post) : ∃ t, Leads garbage s t ∧ t.runner = .finished := by
    obtain ⟨notified, t, ht, hfinished⟩ := post_possible hrun
    exact ⟨t, leads_step ht trivial (leads_refl garbage t), hfinished⟩
  cases hrun : s.runner with
  | function =>
    obtain ⟨t, hlead, hfinished⟩ := hpost {s with status := 0, runner := .post, result := some 0} rfl
    have hstep : step s (.function 0) = some {s with status := 0, runner := .post, result := some 0} := by
      simp only [step, hrun, if_true]
    exact ⟨t, leads_step hstep trivial hlead, hfinished⟩
  | post => exact hpost s hrun
  | finished => exact ⟨s, leads_refl garbage s, hrun⟩

/-- A waiter can take the post. -/
theorem can_take (garbage : Int) (h : Inv s) (hrun : s.runner = .finished) (hone : s.waiters ≠ []) :
    ∃ t, Leads garbage s t ∧ t.runner = .finished ∧ t.count = 0 := by
  have hposts := h.posts
  rw [if_pos hrun] at hposts
  rcases Nat.eq_zero_or_pos s.count with hzero | hpos
  · exact ⟨s, leads_refl garbage s, hrun, hzero⟩
  · have htake (s : Task) (hrun : s.runner = .finished) (hcount : s.count = 1)
        (hk : s.waiters[0]? = some .enter) :
        ∃ t, Leads garbage s t ∧ t.runner = .finished ∧ t.count = 0 := by
      have hstep : step s (.test 0) =
          some {s with count := s.count - 1, waiters := s.waiters.set 0 .through} := by
        simp only [step, hk, hcount, if_true, Nat.one_ne_zero, if_false]
      exact ⟨_, leads_step hstep trivial (leads_refl garbage _), hrun, by dsimp only; omega⟩
    obtain ⟨waiter, waiters, hwaiters⟩ := List.exists_cons_of_ne_nil hone
    have hfirst : s.waiters[0]? = some waiter := by rw [hwaiters]; rfl
    have hnone : passed waiter = false := by
      have hzero : s.waiters.countP passed = 0 := by omega
      simpa using List.countP_eq_zero.mp hzero waiter (List.mem_of_getElem? hfirst)
    cases waiter with
    | enter => exact htake s hrun (by omega) hfirst
    | asleep =>
      have hstep : step s (.wakeUp 0) = some {s with waiters := s.waiters.set 0 .enter} := by
        simp only [step, hfirst, if_true]
      obtain ⟨t, hlead, ht⟩ := htake {s with waiters := s.waiters.set 0 .enter} hrun
        (show s.count = 1 by omega) (List.getElem?_set_self (List.getElem?_eq_some_iff.mp hfirst).1)
      exact ⟨t, leads_step hstep trivial hlead, ht⟩
    | through => cases hnone
    | returned v => cases hnone

/-- **What `Wait` returns, and to whom.** Every value returned is what the task's
function returned. Without further calls nobody can come to be blocked on a task that
has run exactly if there was at most one call. -/
theorem wait_once_iff (garbage : Int) {trace : List (Task × Label)} {s : Task}
    (run : (machine garbage).Run (create garbage) trace s) :
    (∀ v, .returned v ∈ s.waiters → s.result = some v) ∧
      ((∀ t, Leads garbage s t → t.runner = .finished → ¬Blocked t) ↔ s.waiters.length ≤ 1) := by
  have hinv := run_inv run
  refine ⟨hinv.returned, fun hnever => ?_, fun hone t hlead hfinished hblocked => ?_⟩
  · by_contra hmany
    obtain ⟨t, hlead, hfinished⟩ := can_finish garbage s
    obtain ⟨hinvt, hlength⟩ := leads_kept hinv hlead
    have hne : t.waiters ≠ [] := fun hnil => by
      rw [hnil, List.length_nil] at hlength
      omega
    obtain ⟨u, hlead', hfinished', hzero⟩ := can_take garbage hinvt hfinished hne
    obtain ⟨hinvu, hlength'⟩ := leads_kept hinvt hlead'
    exact hnever u (leads_trans hlead hlead') hfinished'
      ((blocked_iff hinvu hfinished').mpr ⟨hzero, by omega⟩)
  · obtain ⟨hinvt, hlength⟩ := leads_kept hinv hlead
    have := (blocked_iff hinvt hfinished).mp hblocked
    omega

/-- One call, made while the task runs. -/
theorem wait_once_first : ∃ trace s, (machine 99).Run (create 99) trace s ∧ .returned 7 ∈ s.waiters ∧
    s.result = some 7 ∧ ∀ t, Leads 99 s t → t.runner = .finished → ¬Blocked t := by
  obtain ⟨trace, s, run, h⟩ := Machine.run_of_replay (machine 99) (create 99)
    [.call, .test 0, .function 7, .post (some 0), .test 0, .getStatus 0]
    (fun e => decide (Waiter.returned 7 ∈ e.2.waiters ∧ e.2.waiters.length ≤ 1)) (by decide)
  obtain ⟨hret, hone⟩ : Waiter.returned 7 ∈ s.waiters ∧ s.waiters.length ≤ 1 := of_decide_eq_true h
  obtain ⟨htrue, hnever⟩ := wait_once_iff 99 run
  exact ⟨trace, s, run, hret, htrue 7 hret, hnever.mpr hone⟩

/-- Nothing is posted to a task that has run, so who is blocked then stays blocked. -/
theorem blocked_step {l : Label} (hinv : Inv s) (hrun : s.runner = .finished) (hblocked : Blocked s)
    (hs : step s l = some s') : s'.runner = .finished ∧ Blocked s' := by
  obtain ⟨hzero, hmany⟩ := (blocked_iff hinv hrun).mp hblocked
  have hkept : s'.runner = .finished ∧ s'.count = 0 ∧ s.waiters.length ≤ s'.waiters.length := by
    cases l with
    | call =>
      obtain rfl := Option.some.inj hs
      exact ⟨hrun, hzero, by simp⟩
    | test k =>
      obtain ⟨-, ⟨-, rfl⟩ | ⟨hpos, -⟩⟩ := test_cases hs
      · exact ⟨hrun, hzero, by simp⟩
      · exact absurd hzero hpos
    | wakeUp k =>
      rw [(wakeUp_cases hs).2]
      exact ⟨hrun, hzero, by simp⟩
    | getStatus k =>
      rw [(getStatus_cases hs).2]
      exact ⟨hrun, hzero, by simp⟩
    | function result =>
      have hearly := (function_cases hs).1
      rw [hrun] at hearly
      cases hearly
    | post notified =>
      have hearly := (post_cases hs).1
      rw [hrun] at hearly
      cases hearly
  obtain ⟨hrun', hzero', hlength⟩ := hkept
  exact ⟨hrun', (blocked_iff (inv_step hinv hs) hrun').mpr ⟨hzero', by omega⟩⟩

/-- A thread waits while the task runs, and another comes when it is through. -/
def twoCalls : List Label :=
  [.call, .test 0, .function 7, .post (some 0), .test 0, .call, .test 1, .getStatus 0]

/-- The second call waits for ever. -/
theorem second_call_blocked : ∃ trace s, (machine 99).Run (create 99) trace s ∧ s.runner = .finished ∧
    Blocked s ∧ ∀ rest t, (machine 99).Run s rest t → Blocked t := by
  obtain ⟨trace, s, run, h⟩ := Machine.run_of_replay (machine 99) (create 99) twoCalls
    (fun e => decide (e.2.runner = .finished ∧ e.2.count = 0) &&
      e.2.waiters.any fun waiter => !passed waiter)
    (by decide)
  simp only [Bool.and_eq_true, decide_eq_true_eq, List.any_eq_true, Bool.not_eq_true'] at h
  obtain ⟨⟨hrun, hzero⟩, hwaiting⟩ := h
  refine ⟨trace, s, run, hrun, ⟨hzero, hwaiting⟩, fun rest t run' => ?_⟩
  have hlater := run'.invariant (P := fun u => Inv u ∧ u.runner = .finished ∧ Blocked u) (r := fun _ _ => True)
    ⟨run_inv run, hrun, hzero, hwaiting⟩
    (fun _ _ _ hu _ hs => ⟨inv_step hu.1 hs, blocked_step hu.1 hu.2.1 hu.2.2 hs⟩) (fun _ _ => trivial)
  exact hlater.2.2

end PrivateCloud.ThreadPool.Future
