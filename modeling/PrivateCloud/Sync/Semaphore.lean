import PrivateCloud.Library.Condition
import PrivateCloud.Library.Machine

/-! The semaphore: `semaphore.cpp`.

What `Wait` and `Post` do under the mutex is one step, `notify_one` included. Threads are
known by their calls of `Wait`: a thread that calls again is another entry, and a `Post`
is over in its step. `m_count` is an `int`.

The permits are the initial ones and those posted, less those taken. A permit that lies
there while somebody sleeps was posted when another one was asleep, who was woken up for
it and has not looked yet (`counts_permits`). -/
namespace PrivateCloud.Sync

/-- A call of `Wait`. -/
inductive Waiter where
  /-- About to lock the mutex for the first time. -/
  | entering
  /-- In `m_cv.wait`, not notified. -/
  | asleep
  /-- In `m_cv.wait`, about to lock the mutex again. -/
  | woken
  /-- Returned. -/
  | through
  deriving DecidableEq

/-- `posts` is a history: how often `Post` was called. -/
structure Semaphore where
  count : Int
  posts : ℕ
  waiters : List Waiter

namespace Semaphore

inductive Label where
  /-- Somebody calls `Wait`. -/
  | call
  /-- Waiter `k` has the mutex and looks at `m_count`. -/
  | test (k : ℕ)
  /-- Waiter `k` is woken up by nobody. -/
  | wakeUp (k : ℕ)
  /-- `Post`, which wakes up this waiter if any is asleep. -/
  | post (notified : Option ℕ)

/-- What is left of a number in an `int`. -/
def toInt (x : Int) : Int := x.bmod (2 ^ 32)

def asleep : Waiter → Bool
  | .asleep => true
  | _ => false

def woken : Waiter → Bool
  | .woken => true
  | _ => false

def through : Waiter → Bool
  | .through => true
  | _ => false

/-- The waiter wants the mutex. -/
def wants : Waiter → Bool
  | .entering | .woken => true
  | _ => false

def create (count : ℕ) : Semaphore := ⟨toInt count, 0, []⟩

def step (s : Semaphore) : Label → Option Semaphore
  | .call => some {s with waiters := s.waiters ++ [.entering]}
  | .test k =>
    if (s.waiters[k]?).any wants then
      if s.count = 0 then some {s with waiters := s.waiters.set k .asleep}
      else some {s with count := toInt (s.count - 1), waiters := s.waiters.set k .through}
    else none
  | .wakeUp k => (Condition.wake asleep .woken s.waiters k).map fun waiters => {s with waiters := waiters}
  | .post notified => (Condition.notifyOne asleep .woken s.waiters notified).map fun waiters =>
      {s with count := toInt (s.count + 1), posts := s.posts + 1, waiters := waiters}

def machine (count : ℕ) : Machine Semaphore Label := ⟨create count, step⟩

/-- The calls of `Wait` that have returned. -/
def waits (s : Semaphore) : ℕ := s.waiters.countP through

def sleepers (s : Semaphore) : ℕ := s.waiters.countP asleep

/-- The waiters woken up that have not locked the mutex again. -/
def wokenUp (s : Semaphore) : ℕ := s.waiters.countP woken

/-! ### What one step can do -/

variable {s s' : Semaphore}

theorem test_cases {k : ℕ} (h : step s (.test k) = some s') :
    ∃ waiter, s.waiters[k]? = some waiter ∧ wants waiter = true ∧
      ((s.count = 0 ∧ s' = {s with waiters := s.waiters.set k .asleep}) ∨
        (s.count ≠ 0 ∧
          s' = {s with count := toInt (s.count - 1), waiters := s.waiters.set k .through})) := by
  simp only [step] at h
  split at h
  case isTrue hany =>
    obtain ⟨waiter, hk, hwants⟩ := (Option.any_eq_true _ _).mp hany
    refine ⟨waiter, hk, hwants, ?_⟩
    split at h
    case isTrue hzero => exact Or.inl ⟨hzero, (Option.some.inj h).symm⟩
    case isFalse hpos => exact Or.inr ⟨hpos, (Option.some.inj h).symm⟩
  case isFalse => cases h

theorem wakeUp_cases {k : ℕ} (h : step s (.wakeUp k) = some s') : ∃ waiters,
    Condition.wake asleep .woken s.waiters k = some waiters ∧ s' = {s with waiters := waiters} := by
  obtain ⟨waiters, hwake, hs⟩ := Option.map_eq_some_iff.mp h
  exact ⟨waiters, hwake, hs.symm⟩

theorem post_cases {notified : Option ℕ} (h : step s (.post notified) = some s') : ∃ waiters,
    Condition.notifyOne asleep .woken s.waiters notified = some waiters ∧
      s' = {s with count := toInt (s.count + 1), posts := s.posts + 1, waiters := waiters} := by
  obtain ⟨waiters, hnotify, hs⟩ := Option.map_eq_some_iff.mp h
  exact ⟨waiters, hnotify, hs.symm⟩

/-! ### The permits -/

theorem toInt_eq {x : Int} (hlo : 0 ≤ x) (hhi : x < 2 ^ 31) : toInt x = x :=
  Int.bmod_eq_of_le (by omega) (by omega)

theorem through_wake (waiter : Waiter) (h : asleep waiter = true) : through waiter = through .woken := by
  cases waiter with
  | asleep => rfl
  | _ => cases h

theorem woken_wake (waiter : Waiter) (h : asleep waiter = true) : woken waiter = false := by
  cases waiter with
  | asleep => rfl
  | _ => cases h

/-- What holds of a semaphore that was posted less than `2^31 - c` times. -/
structure Counts (c : ℕ) (s : Semaphore) : Prop where
  count : s.count = c + s.posts - s.waits
  nonneg : 0 ≤ s.count
  /-- Beside somebody asleep there is a permit only for who is on the way to it. -/
  covered : 0 < s.sleepers → s.count ≤ s.wokenUp

theorem counts_create {c : ℕ} (hc : c < 2 ^ 31) : Counts c (create c) := by
  have hcount : (create c).count = c := by rw [create, toInt_eq (by omega) (by omega)]
  refine ⟨?_, ?_, fun h => absurd h (Nat.lt_irrefl 0)⟩
  · rw [hcount]
    simp [create, waits]
  · rw [hcount]
    exact Int.natCast_nonneg c

theorem counts_call {c : ℕ} (h : Counts c s) :
    Counts c {s with waiters := s.waiters ++ [.entering]} := by
  obtain ⟨hcount, hnonneg, hcovered⟩ := h
  refine ⟨?_, hnonneg, ?_⟩
  · simpa [waits, through] using hcount
  · simpa [sleepers, wokenUp, asleep, woken] using hcovered

/-- A waiter finds no permit and goes to sleep, or takes one. -/
theorem counts_test {c k : ℕ} (h : Counts c s) (hbound : s.count < 2 ^ 31)
    (hs : step s (.test k) = some s') : Counts c s' := by
  obtain ⟨waiter, hk, hwants, hcase⟩ := test_cases hs
  obtain ⟨hcount, hnonneg, hcovered⟩ := h
  have hnot : through waiter = false ∧ asleep waiter = false := by
    cases waiter <;> simp_all [wants, through, asleep]
  rcases hcase with ⟨hzero, rfl⟩ | ⟨hpos, rfl⟩
  · have hthrough : (s.waiters.set k .asleep).countP through = s.waits :=
      Bag.countP_set_same hk hnot.1.symm
    refine ⟨?_, hnonneg, fun _ => ?_⟩
    · rw [waits, hthrough]
      exact hcount
    · rw [hzero]
      exact Int.natCast_nonneg _
  · have hthrough : (s.waiters.set k .through).countP through = s.waits + 1 :=
      Bag.countP_set_enter hk hnot.1 rfl
    have hasleep : (s.waiters.set k .through).countP asleep = s.sleepers :=
      Bag.countP_set_same hk hnot.2.symm
    have hwoken : s.wokenUp ≤ (s.waiters.set k .through).countP woken + 1 := Bag.countP_set_le hk
    have htaken : toInt (s.count - 1) = s.count - 1 := toInt_eq (by omega) (by omega)
    refine ⟨?_, ?_, fun hsleep => ?_⟩
    · rw [waits, hthrough, htaken]
      dsimp only
      omega
    · rw [htaken]
      dsimp only
      omega
    · -- The permit was for a waiter woken up, who may be this one.
      rw [sleepers, hasleep] at hsleep
      have := hcovered hsleep
      rw [htaken, wokenUp]
      dsimp only
      omega

theorem counts_wakeUp {c k : ℕ} (h : Counts c s) (hs : step s (.wakeUp k) = some s') : Counts c s' := by
  obtain ⟨waiters, hwake, rfl⟩ := wakeUp_cases hs
  obtain ⟨hcount, hnonneg, hcovered⟩ := h
  have hthrough : waiters.countP through = s.waits := Condition.countP_wake hwake through_wake
  have hasleep : waiters.countP asleep + 1 = s.sleepers := Condition.countP_asleep_wake hwake rfl
  have hwoken : waiters.countP woken = s.wokenUp + 1 := Condition.countP_woken_wake hwake rfl woken_wake
  refine ⟨?_, hnonneg, fun _ => ?_⟩
  · rw [waits, hthrough]
    exact hcount
  · have := hcovered (by omega)
    rw [wokenUp, hwoken]
    dsimp only
    omega

/-- A permit posted beside somebody asleep wakes a waiter up for it. -/
theorem counts_post {c : ℕ} {notified : Option ℕ} (h : Counts c s) (hbound : s.count + 1 < 2 ^ 31)
    (hs : step s (.post notified) = some s') : Counts c s' := by
  obtain ⟨waiters, hnotify, rfl⟩ := post_cases hs
  obtain ⟨hcount, hnonneg, hcovered⟩ := h
  have hthrough : waiters.countP through = s.waits := Condition.countP_notifyOne hnotify through_wake
  have hposted : toInt (s.count + 1) = s.count + 1 := toInt_eq (by omega) hbound
  refine ⟨?_, ?_, fun hsleep => ?_⟩
  · rw [waits, hthrough, hposted]
    dsimp only
    omega
  · rw [hposted]
    dsimp only
    omega
  · rw [hposted]
    rcases Condition.notifyOne_cases hnotify with ⟨rfl, hnobody⟩ | ⟨k, hwake⟩
    · exact absurd hnobody (Nat.ne_of_gt hsleep)
    · have hasleep : waiters.countP asleep + 1 = s.sleepers := Condition.countP_asleep_wake hwake rfl
      have hwoken : waiters.countP woken = s.wokenUp + 1 :=
        Condition.countP_woken_wake hwake rfl woken_wake
      have := hcovered (by omega)
      rw [wokenUp, hwoken]
      dsimp only
      omega

theorem posts_le {l : Label} (hs : step s l = some s') : s.posts ≤ s'.posts := by
  cases l with
  | call =>
    obtain rfl := Option.some.inj hs
    exact Nat.le_refl _
  | test k =>
    obtain ⟨_, _, _, ⟨_, rfl⟩ | ⟨_, rfl⟩⟩ := test_cases hs
    · exact Nat.le_refl _
    · exact Nat.le_refl _
  | wakeUp k =>
    obtain ⟨_, _, rfl⟩ := wakeUp_cases hs
    exact Nat.le_refl _
  | post notified =>
    obtain ⟨_, _, rfl⟩ := post_cases hs
    exact Nat.le_succ _

/-- No step counts past the end of an `int`. -/
theorem counts_step {c : ℕ} {l : Label} (h : Counts c s) (hposts : c + s'.posts < 2 ^ 31)
    (hs : step s l = some s') : Counts c s' := by
  have hle := posts_le hs
  have hcount := h.count
  cases l with
  | call =>
    obtain rfl := Option.some.inj hs
    exact counts_call h
  | test k => exact counts_test h (by omega) hs
  | wakeUp k => exact counts_wakeUp h hs
  | post notified =>
    have hmore : s'.posts = s.posts + 1 := by
      obtain ⟨_, _, rfl⟩ := post_cases hs
      rfl
    exact counts_post h (by omega) hs

theorem run_counts {c : ℕ} {trace : List (Semaphore × Label)} {s : Semaphore}
    (run : (machine c).Run (create c) trace s) (hposts : c + s.posts < 2 ^ 31) : Counts c s := by
  induction run with
  | nil => exact counts_create hposts
  | snoc _ hs ih =>
    have hle := posts_le hs
    exact counts_step (ih (by omega)) hposts hs

/-- **The semaphore counts.** As long as the permits fit an `int`, `m_count` is the number
of those given and not taken, no more are taken than were given, and no permit lies beside
a sleeper but for a waiter that was woken up for it. -/
theorem counts_permits (c : ℕ) {trace : List (Semaphore × Label)} {s : Semaphore}
    (run : (machine c).Run (create c) trace s) (hposts : c + s.posts < 2 ^ 31) :
    Counts c s ∧ s.waits ≤ c + s.posts := by
  have hcounts := run_counts run hposts
  have hcount := hcounts.count
  have hnonneg := hcounts.nonneg
  exact ⟨hcounts, by omega⟩

/-- Two threads sleep and one is woken up: its permit is there until it looks. -/
theorem counts_permits_woken : ∃ trace s, (machine 0).Run (create 0) trace s ∧ s.count = 1 ∧
    s.sleepers = 1 ∧ Counts 0 s ∧ s.waits ≤ 0 + s.posts := by
  obtain ⟨trace, s, run, h⟩ := Machine.run_of_replay (machine 0) (create 0)
    [.call, .test 0, .call, .test 1, .post (some 0)]
    (fun e => decide (e.2.count = 1 ∧ e.2.sleepers = 1 ∧ 0 + e.2.posts < 2 ^ 31)) (by decide +kernel)
  obtain ⟨hcount, hsleepers, hposts⟩ := of_decide_eq_true h
  exact ⟨trace, s, run, hcount, hsleepers, counts_permits 0 run hposts⟩

end Semaphore
end PrivateCloud.Sync
