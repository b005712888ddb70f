import PrivateCloud.Sync.Semaphore
import PrivateCloud.ThreadPool.Future

/-! The semaphore of a task.

A task's `m_sem` is the semaphore of `semaphore.cpp`, created with no permit and posted
once: what a run of the task does to it is a run of the semaphore (`run_semaphore`). So
what is known of the semaphore is known of the calls of `Future::Wait`: none of them
sleeps beside the permit unless another one is on its way to it (`permit_taken`). -/
namespace PrivateCloud.ThreadPool.Future
open Sync (Semaphore)

/-- Where a call of `Future::Wait` is in `Semaphore::Wait`. -/
def inSemaphore : Waiter → Sync.Waiter
  | .enter => .entering
  | .asleep => .asleep
  | .through | .returned _ => .through

/-- A waiter woken up does what one that enters does. -/
def awake : Sync.Waiter → Sync.Waiter
  | .woken => .entering
  | waiter => waiter

/-- The semaphore of the task. -/
structure Uses (s : Task) (t : Semaphore) : Prop where
  count : t.count = s.count
  posts : t.posts = if s.runner = .finished then 1 else 0
  waiters : t.waiters.map awake = s.waiters.map inSemaphore

variable {s s' : Task} {t : Semaphore}

theorem uses_create (garbage : Int) : Uses (create garbage) (Semaphore.create 0) := ⟨rfl, rfl, rfl⟩

/-- The semaphore's waiter is where the task's is. -/
theorem Uses.waiter (h : Uses s t) {k : ℕ} {waiter : Waiter} (hk : s.waiters[k]? = some waiter) :
    ∃ other, t.waiters[k]? = some other ∧ awake other = inSemaphore waiter := by
  have hmap := congrArg (·[k]?) h.waiters
  simp only [List.getElem?_map, hk, Option.map_some] at hmap
  exact Option.map_eq_some_iff.mp hmap

theorem Uses.set (h : Uses s t) {k : ℕ} {waiter : Waiter} {other : Sync.Waiter}
    (hsame : awake other = inSemaphore waiter) :
    (t.waiters.set k other).map awake = (s.waiters.set k waiter).map inSemaphore := by
  rw [List.map_set, List.map_set, h.waiters, hsame]

theorem wants_of_entering {other : Sync.Waiter} (h : awake other = .entering) :
    Semaphore.wants other = true := by
  cases other with
  | entering | woken => rfl
  | asleep | through => cases h

theorem asleep_of_asleep {other : Sync.Waiter} (h : awake other = .asleep) : other = .asleep := by
  cases other with
  | asleep => rfl
  | entering | woken | through => cases h

theorem uses_call (h : Uses s t) : ∃ t', Semaphore.step t .call = some t' ∧
    Uses {s with waiters := s.waiters ++ [.enter]} t' :=
  ⟨_, rfl, h.count, h.posts, by rw [List.map_append, List.map_append, h.waiters]; rfl⟩

theorem uses_test (hinv : Inv s) (h : Uses s t) {k : ℕ} (hs : step s (.test k) = some s') :
    ∃ t', Semaphore.step t (.test k) = some t' ∧ Uses s' t' := by
  obtain ⟨hk, hcase⟩ := test_cases hs
  obtain ⟨other, hother, hsame⟩ := h.waiter hk
  have hwants : (t.waiters[k]?).any Semaphore.wants = true := by
    rw [hother]
    exact wants_of_entering hsame
  have hcount := h.count
  rcases hcase with ⟨hzero, rfl⟩ | ⟨hpos, rfl⟩
  · have ht : t.count = 0 := by omega
    refine ⟨{t with waiters := t.waiters.set k .asleep}, ?_, hcount, h.posts, h.set rfl⟩
    rw [Semaphore.step, if_pos hwants, if_pos ht]
  · have ht : t.count ≠ 0 := by omega
    have hle : s.count ≤ 1 := by
      have hposts := hinv.posts
      split at hposts <;> omega
    refine ⟨{t with count := Semaphore.toInt (t.count - 1), waiters := t.waiters.set k .through},
      ?_, ?_, h.posts, h.set rfl⟩
    · rw [Semaphore.step, if_pos hwants, if_neg ht]
    · show Semaphore.toInt (t.count - 1) = ((s.count - 1 : ℕ) : Int)
      rw [Semaphore.toInt_eq (by omega) (by omega)]
      omega

theorem Uses.asleep_iff (h : Uses s t) : Sync.Waiter.asleep ∈ t.waiters ↔ Waiter.asleep ∈ s.waiters := by
  constructor
  · intro hmem
    have hmap : Sync.Waiter.asleep ∈ s.waiters.map inSemaphore := h.waiters ▸ List.mem_map_of_mem hmem
    obtain ⟨waiter, hwaiter, hsame⟩ := List.mem_map.mp hmap
    cases waiter with
    | asleep => exact hwaiter
    | _ => cases hsame
  · intro hmem
    have hmap : Sync.Waiter.asleep ∈ t.waiters.map awake := h.waiters ▸ List.mem_map_of_mem hmem
    obtain ⟨other, hother, hsame⟩ := List.mem_map.mp hmap
    exact asleep_of_asleep hsame ▸ hother

/-- Who comes out of its wait, notified or not, is woken up. -/
theorem Uses.wake (h : Uses s t) {k : ℕ} (hk : s.waiters[k]? = some .asleep) :
    Condition.wake Semaphore.asleep .woken t.waiters k = some (t.waiters.set k .woken) ∧
      (t.waiters.set k .woken).map awake = (s.waiters.set k .enter).map inSemaphore := by
  obtain ⟨other, hother, hsame⟩ := h.waiter hk
  obtain rfl := asleep_of_asleep hsame
  refine ⟨?_, h.set rfl⟩
  rw [Condition.wake, hother]
  rfl

theorem uses_wakeUp (h : Uses s t) {k : ℕ} (hs : step s (.wakeUp k) = some s') :
    ∃ t', Semaphore.step t (.wakeUp k) = some t' ∧ Uses s' t' := by
  obtain ⟨hk, rfl⟩ := wakeUp_cases hs
  obtain ⟨hwake, hwaiters⟩ := h.wake hk
  refine ⟨{t with waiters := t.waiters.set k .woken}, ?_, h.count, h.posts, hwaiters⟩
  rw [Semaphore.step, hwake]
  rfl

/-- Reading `m_status` is nothing to the semaphore. -/
theorem uses_getStatus (h : Uses s t) {k : ℕ} (hs : step s (.getStatus k) = some s') : Uses s' t := by
  obtain ⟨hk, rfl⟩ := getStatus_cases hs
  refine ⟨h.count, h.posts, ?_⟩
  obtain ⟨hlt, hget⟩ := List.getElem?_eq_some_iff.mp hk
  have hset : (s.waiters.set k (.returned s.status)).map inSemaphore =
      (s.waiters.set k .through).map inSemaphore := by
    rw [List.map_set, List.map_set]
    rfl
  rw [hset, ← hget, List.set_getElem_self hlt]
  exact h.waiters

theorem uses_post (hinv : Inv s) (h : Uses s t) {notified : Option ℕ}
    (hs : step s (.post notified) = some s') :
    ∃ t', Semaphore.step t (.post notified) = some t' ∧ Uses s' t' := by
  have hrun := (post_cases hs).1
  have hcount := h.count
  have hposts := hinv.posts
  have htposts := h.posts
  rw [hrun, if_neg (by decide)] at hposts htposts
  have hposted : Semaphore.toInt (t.count + 1) = ((s.count + 1 : ℕ) : Int) := by
    rw [Semaphore.toInt_eq (by omega) (by omega)]
    omega
  cases notified with
  | some k =>
    simp only [step, if_pos hrun] at hs
    split at hs
    case isTrue hk =>
      obtain rfl := Option.some.inj hs
      obtain ⟨hwake, hwaiters⟩ := h.wake hk
      refine ⟨⟨Semaphore.toInt (t.count + 1), t.posts + 1, t.waiters.set k .woken⟩, ?_, hposted,
        congrArg (· + 1) htposts, hwaiters⟩
      rw [Semaphore.step, Condition.notifyOne, hwake]
      rfl
    case isFalse => cases hs
  | none =>
    simp only [step, if_pos hrun] at hs
    split at hs
    case isTrue => cases hs
    case isFalse hnobody =>
      obtain rfl := Option.some.inj hs
      refine ⟨⟨Semaphore.toInt (t.count + 1), t.posts + 1, t.waiters⟩, ?_, hposted,
        congrArg (· + 1) htposts, h.waiters⟩
      have hnone : ¬t.waiters.any Semaphore.asleep = true := by
        intro hany
        obtain ⟨other, hother, hasleep⟩ := List.any_eq_true.mp hany
        cases other with
        | asleep => exact hnobody (h.asleep_iff.mp hother)
        | _ => cases hasleep
      rw [Semaphore.step, Condition.notifyOne, if_neg hnone]
      rfl

/-- What a step of the task is to its semaphore. -/
def toSemaphore (_ : Task) : Label → Option Semaphore.Label
  | .call => some .call
  | .test k => some (.test k)
  | .wakeUp k => some (.wakeUp k)
  | .post notified => some (.post notified)
  | .getStatus _ | .function _ => none

/-- **A task's semaphore is a semaphore.** What a run of the task does to it, the semaphore
does in a run of its own, and nothing else. -/
theorem run_semaphore {garbage : Int} {trace : List (Task × Label)}
    (run : (machine garbage).Run (create garbage) trace s) :
    ∃ rest t, (Semaphore.machine 0).Run (Semaphore.create 0) rest t ∧
      rest.map Prod.snd = Machine.roles toSemaphore trace ∧ Inv s ∧ Uses s t := by
  refine run.refines toSemaphore (R := fun _ s t => Inv s ∧ Uses s t) (r := fun _ _ => True)
    ⟨inv_create garbage, uses_create garbage⟩ ?_ fun _ _ => trivial
  intro _ u l v t hut _ hs
  obtain ⟨hinv, h⟩ := hut
  have hinv' := inv_step hinv hs
  cases l with
  | call =>
    obtain rfl := Option.some.inj hs
    obtain ⟨t', ht, hv⟩ := uses_call h
    exact ⟨t', ht, hinv', hv⟩
  | test k =>
    obtain ⟨t', ht, hv⟩ := uses_test hinv h hs
    exact ⟨t', ht, hinv', hv⟩
  | wakeUp k =>
    obtain ⟨t', ht, hv⟩ := uses_wakeUp h hs
    exact ⟨t', ht, hinv', hv⟩
  | getStatus k => exact ⟨t, rfl, hinv', uses_getStatus h hs⟩
  | function result =>
    obtain ⟨hrun, rfl⟩ := function_cases hs
    refine ⟨t, rfl, hinv', h.count, ?_, h.waiters⟩
    rw [h.posts, hrun]
    rfl
  | post notified =>
    obtain ⟨t', ht, hv⟩ := uses_post hinv h hs
    exact ⟨t', ht, hinv', hv⟩

/-- A call of `Wait` that sleeps beside the permit has left it to another one, which is about
to look. -/
theorem permit_taken {garbage : Int} {trace : List (Task × Label)}
    (run : (machine garbage).Run (create garbage) trace s) (hasleep : .asleep ∈ s.waiters)
    (hcount : 0 < s.count) : .enter ∈ s.waiters := by
  obtain ⟨rest, t, run', -, -, h⟩ := run_semaphore run
  have hposts : 0 + t.posts < 2 ^ 31 := by
    rw [h.posts]
    split <;> decide
  have hcovered := (Semaphore.run_counts run' hposts).covered
    (List.countP_pos_iff.mpr ⟨.asleep, h.asleep_iff.mpr hasleep, rfl⟩)
  have hwoken : 0 < t.wokenUp := by
    have := h.count
    omega
  obtain ⟨other, hother, hwoken⟩ := List.countP_pos_iff.mp hwoken
  have hmap : awake other ∈ s.waiters.map inSemaphore := h.waiters ▸ List.mem_map_of_mem hother
  obtain ⟨waiter, hwaiter, hsame⟩ := List.mem_map.mp hmap
  cases other with
  | woken =>
    cases waiter with
    | enter => exact hwaiter
    | _ => cases hsame
  | _ => cases hwoken

end PrivateCloud.ThreadPool.Future
