import PrivateCloud.Sync.BtsQueue
import PrivateCloud.Sync.Semaphore

/-! That a queue and a semaphore do not get stuck.

Left alone, with no more calls and with nobody woken up for no reason, the calls that are
there come to an end: each step of one of them leaves less to do, and as long as one has not
returned and is not asleep, one of them can take a step. When none can, whoever is left
sleeps with nothing to have: no element is in the queue (`never_stuck`), no permit is in the
semaphore, and as many waiters are through as there were permits (`settles`). -/
namespace PrivateCloud.Sync
namespace BtsQueue
variable {T : Type*} {lt : T → T → Prop} {s s' : BtsQueue T}

/-- A step of a call that was made. -/
def own : Label T → Bool
  | .lock _ | .push _ | .notify _ _ | .test _ _ | .pops _ => true
  | .enqueue _ | .dequeue | .clear | .wakeUp _ => false

/-- The steps a call has left, its notification's among them. -/
def left : Call T → ℕ
  | .enqueue _ => 5
  | .push _ => 4
  | .notify => 3
  | .dequeue | .woken | .clear => 2
  | .test _ | .pops => 1
  | .asleep | .returned => 0

def work (s : BtsQueue T) : ℕ := (s.calls.map left).sum

theorem left_lock {old call : Call T} (h : old.lock = some call) : left call < left old := by
  cases old with
  | enqueue | dequeue | woken | clear =>
    obtain rfl := Option.some.inj h
    simp [left]
  | _ => cases h

/-- Nobody can go on: the mutex is free, and whoever has not returned sleeps beside an empty
queue. -/
structure Quiet (s : BtsQueue T) : Prop where
  unlocked : s.locked = false
  calls : ∀ call ∈ s.calls, call = .returned ∨ call = .asleep
  empty : 0 < s.sleepers → s.priqueue = []

section
variable [DecidableRel lt]

theorem work_step {l : Label T} (hown : own l = true) (hs : step lt s l = some s') :
    s'.work < s.work := by
  cases l with
  | lock k =>
    obtain ⟨-, old, call, hk, hlock, rfl⟩ := lock_cases hs
    have hsum := Bag.sum_map_set left hk call
    have hless := left_lock hlock
    simp only [work]
    omega
  | push k =>
    obtain ⟨task, hk, rfl⟩ := push_cases hs
    have hsum := Bag.sum_map_set left hk .notify
    simp only [left] at hsum
    simp only [work]
    omega
  | notify k notified =>
    obtain ⟨hk, calls, hnotify, rfl⟩ := notify_cases hs
    have hsum := Bag.sum_map_set left hk .returned
    have hwoken := Condition.sum_map_notifyOne (f := left) hnotify
    simp only [left] at hsum hwoken
    simp only [work]
    omega
  | test k top =>
    obtain ⟨again, hk, ⟨-, rfl⟩ | ⟨task, -, -, rfl⟩⟩ := test_cases hs
    · have hsum := Bag.sum_map_set left hk .asleep
      simp only [left] at hsum
      simp only [work]
      omega
    · have hsum := Bag.sum_map_set left hk .returned
      simp only [left] at hsum
      simp only [work]
      omega
  | pops k =>
    obtain ⟨hk, rfl⟩ := pops_cases hs
    have hsum := Bag.sum_map_set left hk .returned
    simp only [left] at hsum
    simp only [work]
    omega
  | enqueue task => cases hown
  | dequeue => cases hown
  | clear => cases hown
  | wakeUp k => cases hown

/-- A call can take its next step. -/
def Moves (lt : T → T → Prop) [DecidableRel lt] (s : BtsQueue T) : Prop :=
  ∃ l s', own l = true ∧ step lt s l = some s'

theorem moves_of {l : Label T} (hown : own l = true) (h : (step lt s l).isSome = true) : Moves lt s := by
  obtain ⟨s', hs⟩ := Option.isSome_iff_exists.mp h
  exact ⟨l, s', hown, hs⟩

/-- Who has the mutex goes on. -/
theorem holder_moves (hirrefl : ∀ a, ¬lt a a) (htrans : ∀ a b c, lt a b → lt b c → lt a c)
    {call : Call T} (hmem : call ∈ s.calls) (hholds : call.holds = true) : Moves lt s := by
  obtain ⟨k, hk⟩ := List.mem_iff_getElem?.mp hmem
  cases call with
  | push task => exact moves_of (l := .push k) rfl (by simp [step, hk])
  | pops => exact moves_of (l := .pops k) rfl (by simp [step, hk])
  | test again =>
    obtain ⟨top, hsome⟩ := test_enabled hirrefl htrans hk
    exact moves_of (l := .test k top) rfl hsome
  | _ => cases hholds

/-- With the mutex free, everybody who is not asleep goes on. -/
theorem unlocked_moves (hfree : s.locked = false) {call : Call T} (hmem : call ∈ s.calls)
    (hholds : call.holds = false) (hreturned : call ≠ .returned) (hasleep : call ≠ .asleep) :
    Moves lt s := by
  obtain ⟨k, hk⟩ := List.mem_iff_getElem?.mp hmem
  have hlock {old : Call T} (hold : s.calls[k]? = some old) (hsome : old.lock.isSome = true) : Moves lt s := by
    obtain ⟨locked, hlocked⟩ := Option.isSome_iff_exists.mp hsome
    exact moves_of (l := .lock k) rfl (by simp [step, hfree, hold, hlocked])
  cases call with
  | enqueue task => exact hlock hk rfl
  | dequeue => exact hlock hk rfl
  | woken => exact hlock hk rfl
  | clear => exact hlock hk rfl
  | notify =>
    obtain ⟨notified, calls, hnotify⟩ :=
      Condition.exists_notifyOne Call.isAsleep .woken (s.calls.set k .returned)
    exact moves_of (l := .notify k notified) rfl (by simp [step, hk, hnotify])
  | push task => cases hholds
  | test again => cases hholds
  | pops => cases hholds
  | asleep => exact absurd rfl hasleep
  | returned => exact absurd rfl hreturned

theorem Inv.progress (h : Inv lt s) (hirrefl : ∀ a, ¬lt a a)
    (htrans : ∀ a b c, lt a b → lt b c → lt a c) : Moves lt s ∨ Quiet s := by
  by_cases hholder : ∃ call ∈ s.calls, call.holds = true
  · obtain ⟨call, hmem, hholds⟩ := hholder
    exact Or.inl (holder_moves hirrefl htrans hmem hholds)
  · have hnone : ∀ call ∈ s.calls, call.holds = false := fun call hmem =>
      Bool.eq_false_of_not_eq_true fun hholds => hholder ⟨call, hmem, hholds⟩
    have hfree : s.locked = false := by
      have hmutex := h.mutex
      rw [List.countP_eq_zero.mpr fun call hmem => by simp [hnone call hmem]] at hmutex
      cases hlocked : s.locked with
      | false => rfl
      | true =>
        rw [hlocked] at hmutex
        cases hmutex
    by_cases hbusy : ∃ call ∈ s.calls, call ≠ .returned ∧ call ≠ .asleep
    · obtain ⟨call, hmem, hreturned, hasleep⟩ := hbusy
      exact Or.inl (unlocked_moves hfree hmem (hnone call hmem) hreturned hasleep)
    · have hcalls : ∀ call ∈ s.calls, call = .returned ∨ call = .asleep := by
        intro call hmem
        by_contra hneither
        exact hbusy ⟨call, hmem, not_or.mp hneither⟩
      refine Or.inr ⟨hfree, hcalls, fun hsleep => ?_⟩
      -- Nobody is on the way, so nothing lies there for anybody.
      have hcoming : s.calls.countP Call.isComing = 0 := by
        refine List.countP_eq_zero.mpr fun call hmem => ?_
        rcases hcalls call hmem with rfl | rfl
        · exact Bool.false_ne_true
        · exact Bool.false_ne_true
      have hcovered := h.covered hsleep
      rw [hcoming] at hcovered
      exact List.length_eq_zero_iff.mp (Nat.le_zero.mp hcovered)

/-- A queue that is left alone comes to rest. -/
structure Live (lt : T → T → Prop) [DecidableRel lt] (s : BtsQueue T) : Prop where
  ends : ∀ trace t, (machine lt).Run s trace t → Machine.Meets (fun _ l => own l = true) trace →
    trace.length ≤ s.work
  progress : Moves lt s ∨ Quiet s

end

/-- **The queue does not get stuck.** In every run, with whoever calling what, the calls that
are there can go on until all have returned but those of `Dequeue` that sleep beside an empty
queue, and they cannot go on for ever. -/
theorem never_stuck (lt : T → T → Prop) [DecidableRel lt] (hirrefl : ∀ a, ¬lt a a)
    (htrans : ∀ a b c, lt a b → lt b c → lt a c) {trace : List (BtsQueue T × Label T)}
    (run : (machine lt).Run create trace s) : Live lt s := by
  refine ⟨fun rest t run' hown => ?_, (run_inv run).progress hirrefl htrans⟩
  have hbound := run'.bounded (P := fun _ => True) (m := work) trivial
    (fun _ _ _ _ hl hs => ⟨trivial, work_step hl hs⟩) hown
  exact Nat.le_trans (Nat.le_add_left _ _) hbound.2

/-- An element is on its way to one of two that sleep. -/
theorem never_stuck_retaken : ∃ trace s, (machine (· < ·)).Run (create : BtsQueue ℕ) trace s ∧
    s.work = 1 ∧ Live (· < ·) s := by
  obtain ⟨trace, s, run, h⟩ := Machine.run_of_replay (machine (· < ·)) create retaken
    (fun e => decide (e.2.work = 1)) (by decide +kernel)
  exact ⟨trace, s, run, of_decide_eq_true h,
    never_stuck (· < ·) (fun a => Nat.lt_irrefl a) (fun _ _ _ => Nat.lt_trans) run⟩

end BtsQueue

namespace Semaphore
variable {s s' : Semaphore} {c : ℕ}

/-- A waiter looks. -/
def own : Label → Bool
  | .test _ => true
  | .call | .wakeUp _ | .post _ => false

/-- The waiters that have still to look. -/
def looking (s : Semaphore) : ℕ := s.waiters.countP wants

/-- Nobody has to look, and as many are through as the permits were enough for. -/
structure Settled (c : ℕ) (s : Semaphore) : Prop where
  waiters : ∀ waiter ∈ s.waiters, waiter = .through ∨ waiter = .asleep
  waits : s.waits = min s.waiters.length (c + s.posts)

theorem looking_test {k : ℕ} (hs : step s (.test k) = some s') :
    s'.looking < s.looking ∧ s'.posts = s.posts := by
  obtain ⟨waiter, hk, hwants, ⟨-, rfl⟩ | ⟨-, rfl⟩⟩ := test_cases hs
  · have hleave : (s.waiters.set k .asleep).countP wants + 1 = s.looking :=
      Bag.countP_set_leave hk hwants rfl
    exact ⟨Nat.lt_of_succ_le hleave.le, rfl⟩
  · have hleave : (s.waiters.set k .through).countP wants + 1 = s.looking :=
      Bag.countP_set_leave hk hwants rfl
    exact ⟨Nat.lt_of_succ_le hleave.le, rfl⟩

theorem length_waiters (h : ∀ waiter ∈ s.waiters, waiter = .through ∨ waiter = .asleep) :
    s.waiters.length = s.waits + s.sleepers := by
  rw [waits, sleepers, List.length_eq_countP_add_countP through]
  refine congrArg _ (List.countP_congr fun waiter hmem => ?_)
  rcases h waiter hmem with rfl | rfl
  · decide
  · decide

theorem Counts.progress (h : Counts c s) : (∃ l s', own l = true ∧ step s l = some s') ∨ Settled c s := by
  by_cases hlooking : ∃ waiter ∈ s.waiters, wants waiter = true
  · obtain ⟨waiter, hmem, hwants⟩ := hlooking
    obtain ⟨k, hk⟩ := List.mem_iff_getElem?.mp hmem
    have hsome : (step s (.test k)).isSome = true := by
      simp only [step, hk, Option.any_some, hwants, if_true]
      split <;> rfl
    obtain ⟨s', hs⟩ := Option.isSome_iff_exists.mp hsome
    exact Or.inl ⟨.test k, s', rfl, hs⟩
  · have hwaiters : ∀ waiter ∈ s.waiters, waiter = .through ∨ waiter = .asleep := by
      intro waiter hmem
      cases waiter with
      | through => exact Or.inl rfl
      | asleep => exact Or.inr rfl
      | entering => exact absurd ⟨_, hmem, rfl⟩ hlooking
      | woken => exact absurd ⟨_, hmem, rfl⟩ hlooking
    have hlength := length_waiters hwaiters
    have hcount := h.count
    have hnonneg := h.nonneg
    refine Or.inr ⟨hwaiters, ?_⟩
    rcases Nat.eq_zero_or_pos s.sleepers with hnobody | hsleep
    · omega
    · have hwoken : s.wokenUp = 0 := by
        refine List.countP_eq_zero.mpr fun waiter hmem => ?_
        rcases hwaiters waiter hmem with rfl | rfl
        · exact Bool.false_ne_true
        · exact Bool.false_ne_true
      have hcovered := h.covered hsleep
      omega

/-- **The semaphore settles.** Left alone, its waiters look at most once each, and then as
many are through as there were permits for, all of them or as many as were given. -/
theorem settles (c : ℕ) {trace : List (Semaphore × Label)} (run : (machine c).Run (create c) trace s)
    (hposts : c + s.posts < 2 ^ 31) :
    ((∃ l s', own l = true ∧ step s l = some s') ∨ Settled c s) ∧
      ∀ rest t, (machine c).Run s rest t → Machine.Meets (fun _ l => own l = true) rest →
        rest.length ≤ s.looking ∧ t.posts = s.posts := by
  refine ⟨(run_counts run hposts).progress, fun rest t run' hown => ?_⟩
  have hbound := run'.bounded (P := fun u => u.posts = s.posts) (m := looking) rfl ?_ hown
  · exact ⟨Nat.le_trans (Nat.le_add_left _ _) hbound.2, hbound.1⟩
  · intro u l u' hu hl hs
    cases l with
    | test k =>
      obtain ⟨hless, hsame⟩ := looking_test hs
      exact ⟨hsame.trans hu, hless⟩
    | call => cases hl
    | wakeUp k => cases hl
    | post notified => cases hl

/-- Three wait for two permits. -/
theorem settles_two : ∃ trace s, (machine 1).Run (create 1) trace s ∧ s.waits = 2 ∧
    s.waiters.length = 3 ∧
      (((∃ l s', own l = true ∧ step s l = some s') ∨ Settled 1 s) ∧
        ∀ rest t, (machine 1).Run s rest t → Machine.Meets (fun _ l => own l = true) rest →
          rest.length ≤ s.looking ∧ t.posts = s.posts) := by
  obtain ⟨trace, s, run, h⟩ := Machine.run_of_replay (machine 1) (create 1)
    [.call, .call, .call, .test 0, .test 1, .test 2, .post (some 1), .test 1]
    (fun e => decide (e.2.waits = 2 ∧ e.2.waiters.length = 3 ∧ 1 + e.2.posts < 2 ^ 31)) (by decide +kernel)
  obtain ⟨hwaits, hlength, hposts⟩ := of_decide_eq_true h
  exact ⟨trace, s, run, hwaits, hlength, settles 1 run hposts⟩

end Semaphore
end PrivateCloud.Sync
