import PrivateCloud.Library.Condition
import PrivateCloud.Library.Machine

/-! The blocking queue: `BTreadSafeQ.hpp`.

Locking the mutex is a step, and so is what is done while it is locked, up to unlocking it
or waiting; `Enqueue` notifies in a step of its own. `std::priority_queue` is a list in no
order, of which `top` is any element that no other is above.

Nothing is lost, and nobody sleeps beside an element that no wake-up is on its way to. On
its way is also a `Dequeue` that was woken up and has locked the mutex again but has still
to look (`accounts`): until then its element is in the queue and nobody is left to be
woken up for it (`retaken_lock`). -/
namespace PrivateCloud.Sync

/-- A call, at the point it has reached. -/
inductive Call (T : Type*) where
  /-- `Enqueue`, about to lock the mutex; `push` has locked it. -/
  | enqueue (task : T)
  | push (task : T)
  /-- `Enqueue` has unlocked the mutex and is about to notify. -/
  | notify
  /-- `Dequeue`, about to lock the mutex for the first time. -/
  | dequeue
  /-- `Dequeue` has locked the mutex, after a wait or for the first time, and looks. -/
  | test (again : Bool)
  /-- `Dequeue` in `m_cond.wait`, not notified. -/
  | asleep
  /-- `Dequeue` in `m_cond.wait`, about to lock the mutex again. -/
  | woken
  /-- `Clear`, about to lock the mutex; `pops` has locked it. -/
  | clear
  | pops
  | returned

/-- Three histories: what was pushed; what each `Dequeue` returned and what it left in the
queue; what was cleared. -/
structure BtsQueue (T : Type*) where
  locked : Bool
  priqueue : List T
  calls : List (Call T)
  enqueued : List T
  dequeued : List (T × List T)
  cleared : List T

namespace Call
variable {T : Type*}

/-- How the call goes on when it has locked the mutex. -/
def lock : Call T → Option (Call T)
  | .enqueue task => some (.push task)
  | .dequeue => some (.test false)
  | .woken => some (.test true)
  | .clear => some .pops
  | _ => none

def isAsleep : Call T → Bool
  | .asleep => true
  | _ => false

def isNotify : Call T → Bool
  | .notify => true
  | _ => false

def isWoken : Call T → Bool
  | .woken => true
  | _ => false

/-- `Dequeue` has waited, has locked the mutex again, and has still to look. -/
def isAgain : Call T → Bool
  | .test again => again
  | _ => false

/-- The call has the mutex. -/
def holds : Call T → Bool
  | .push _ | .test _ | .pops => true
  | _ => false

/-- A wake-up is on its way, or somebody that was woken up. -/
def isComing (call : Call T) : Bool := call.isNotify || call.isWoken || call.isAgain

theorem lock_same {old call : Call T} (h : old.lock = some call) : old.holds = false ∧
    call.holds = true ∧ call.isAsleep = old.isAsleep ∧ call.isComing = old.isComing := by
  cases old with
  | enqueue | dequeue | woken | clear =>
    obtain rfl := Option.some.inj h
    exact ⟨rfl, rfl, rfl, rfl⟩
  | _ => cases h

end Call

namespace BtsQueue
variable {T : Type*}

inductive Label (T : Type*) where
  /-- Somebody calls `Enqueue`, `Dequeue` or `Clear`. -/
  | enqueue (task : T)
  | dequeue
  | clear
  /-- Call `k` locks the mutex. -/
  | lock (k : ℕ)
  | push (k : ℕ)
  /-- `m_cond.notify_one()` of call `k`, which wakes up this call if any is asleep. -/
  | notify (k : ℕ) (notified : Option ℕ)
  /-- `Dequeue` waits, or takes the element at `top`. -/
  | test (k top : ℕ)
  /-- Call `k` is woken up by nobody. -/
  | wakeUp (k : ℕ)
  /-- The loop of `Clear`. -/
  | pops (k : ℕ)

def create : BtsQueue T := ⟨false, [], [], [], [], []⟩

variable (lt : T → T → Prop)

/-- `COMPARE` puts no element above this one. -/
def IsTop (task : T) (others : List T) : Prop := ∀ other ∈ others, ¬lt task other

section
variable [DecidableRel lt]

instance (task : T) (others : List T) : Decidable (IsTop lt task others) :=
  inferInstanceAs (Decidable (∀ other ∈ others, ¬lt task other))

def step (s : BtsQueue T) : Label T → Option (BtsQueue T)
  | .enqueue task => some {s with calls := s.calls ++ [.enqueue task]}
  | .dequeue => some {s with calls := s.calls ++ [.dequeue]}
  | .clear => some {s with calls := s.calls ++ [.clear]}
  | .lock k =>
    if s.locked then none
    else match (s.calls[k]?).bind Call.lock with
      | some call => some {s with locked := true, calls := s.calls.set k call}
      | none => none
  | .push k =>
    match s.calls[k]? with
    | some (.push task) => some { s with
        locked := false
        priqueue := task :: s.priqueue
        calls := s.calls.set k .notify
        enqueued := task :: s.enqueued }
    | _ => none
  | .notify k notified =>
    match s.calls[k]? with
    | some .notify => (Condition.notifyOne Call.isAsleep .woken (s.calls.set k .returned) notified).map
        fun calls => {s with calls := calls}
    | _ => none
  | .test k top =>
    match s.calls[k]? with
    | some (.test _) =>
      if s.priqueue = [] then some {s with locked := false, calls := s.calls.set k .asleep}
      else match s.priqueue[top]? with
        | some task =>
          if IsTop lt task (s.priqueue.eraseIdx top) then some { s with
            locked := false
            priqueue := s.priqueue.eraseIdx top
            calls := s.calls.set k .returned
            dequeued := (task, s.priqueue.eraseIdx top) :: s.dequeued }
          else none
        | none => none
    | _ => none
  | .wakeUp k => (Condition.wake Call.isAsleep .woken s.calls k).map fun calls => {s with calls := calls}
  | .pops k =>
    match s.calls[k]? with
    | some .pops => some { s with
        locked := false
        priqueue := []
        calls := s.calls.set k .returned
        cleared := s.priqueue ++ s.cleared }
    | _ => none

def machine : Machine (BtsQueue T) (Label T) := ⟨create, step lt⟩

/-! ### What one step can do -/

variable {lt} {s s' : BtsQueue T}

theorem lock_cases {k : ℕ} (h : step lt s (.lock k) = some s') :
    s.locked = false ∧ ∃ old call, s.calls[k]? = some old ∧ old.lock = some call ∧
      s' = {s with locked := true, calls := s.calls.set k call} := by
  simp only [step] at h
  split at h
  case isTrue => cases h
  case isFalse hfree =>
    split at h
    case h_1 call hlock =>
      obtain ⟨old, hk, hold⟩ := Option.bind_eq_some_iff.mp hlock
      exact ⟨Bool.eq_false_of_not_eq_true hfree, old, call, hk, hold, (Option.some.inj h).symm⟩
    case h_2 => cases h

theorem push_cases {k : ℕ} (h : step lt s (.push k) = some s') :
    ∃ task, s.calls[k]? = some (.push task) ∧ s' = { s with
      locked := false
      priqueue := task :: s.priqueue
      calls := s.calls.set k .notify
      enqueued := task :: s.enqueued } := by
  simp only [step] at h
  split at h
  case h_1 task hk => exact ⟨task, hk, (Option.some.inj h).symm⟩
  case h_2 => cases h

theorem notify_cases {k : ℕ} {notified : Option ℕ} (h : step lt s (.notify k notified) = some s') :
    s.calls[k]? = some .notify ∧ ∃ calls,
      Condition.notifyOne Call.isAsleep .woken (s.calls.set k .returned) notified = some calls ∧
        s' = {s with calls := calls} := by
  simp only [step] at h
  split at h
  case h_1 hk =>
    obtain ⟨calls, hnotify, hs⟩ := Option.map_eq_some_iff.mp h
    exact ⟨hk, calls, hnotify, hs.symm⟩
  case h_2 => cases h

theorem test_cases {k top : ℕ} (h : step lt s (.test k top) = some s') :
    ∃ again, s.calls[k]? = some (.test again) ∧
      ((s.priqueue = [] ∧ s' = {s with locked := false, calls := s.calls.set k .asleep}) ∨
        ∃ task, s.priqueue[top]? = some task ∧ IsTop lt task (s.priqueue.eraseIdx top) ∧ s' = { s with
          locked := false
          priqueue := s.priqueue.eraseIdx top
          calls := s.calls.set k .returned
          dequeued := (task, s.priqueue.eraseIdx top) :: s.dequeued }) := by
  simp only [step] at h
  split at h
  case h_1 again hk =>
    refine ⟨again, hk, ?_⟩
    split at h
    case isTrue hempty => exact Or.inl ⟨hempty, (Option.some.inj h).symm⟩
    case isFalse =>
      split at h
      case h_1 task htask =>
        split at h
        case isTrue htop => exact Or.inr ⟨task, htask, htop, (Option.some.inj h).symm⟩
        case isFalse => cases h
      case h_2 => cases h
  case h_2 => cases h

theorem wakeUp_cases {k : ℕ} (h : step lt s (.wakeUp k) = some s') : ∃ calls,
    Condition.wake Call.isAsleep .woken s.calls k = some calls ∧ s' = {s with calls := calls} := by
  obtain ⟨calls, hwake, hs⟩ := Option.map_eq_some_iff.mp h
  exact ⟨calls, hwake, hs.symm⟩

theorem pops_cases {k : ℕ} (h : step lt s (.pops k) = some s') :
    s.calls[k]? = some .pops ∧ s' = { s with
      locked := false
      priqueue := []
      calls := s.calls.set k .returned
      cleared := s.priqueue ++ s.cleared } := by
  simp only [step] at h
  split at h
  case h_1 hk => exact ⟨hk, (Option.some.inj h).symm⟩
  case h_2 => cases h

end

/-! ### The invariant -/

variable {lt : T → T → Prop} {s s' : BtsQueue T}

theorem holds_wake (call : Call T) (h : call.isAsleep = true) :
    call.holds = (Call.woken : Call T).holds := by
  cases call with
  | asleep => rfl
  | _ => cases h

theorem coming_wake (call : Call T) (h : call.isAsleep = true) : call.isComing = false := by
  cases call with
  | asleep => rfl
  | _ => cases h

structure Inv (lt : T → T → Prop) (s : BtsQueue T) : Prop where
  balance : (s.enqueued : Multiset T) = (s.dequeued.map Prod.fst : Multiset T) + s.cleared + s.priqueue
  tops : ∀ taken ∈ s.dequeued, IsTop lt taken.1 taken.2
  mutex : s.calls.countP Call.holds = if s.locked then 1 else 0
  /-- Beside somebody asleep there is an element only for what is on its way. -/
  covered : 0 < s.calls.countP Call.isAsleep → s.priqueue.length ≤ s.calls.countP Call.isComing

theorem inv_create : Inv lt (create : BtsQueue T) where
  balance := rfl
  tops := nofun
  mutex := rfl
  covered := fun h => absurd h (Nat.lt_irrefl 0)

/-- A call is made. -/
theorem inv_call {call : Call T} (h : Inv lt s) (hholds : call.holds = false)
    (hasleep : call.isAsleep = false) : Inv lt {s with calls := s.calls ++ [call]} := by
  refine ⟨h.balance, h.tops, ?_, fun hsleep => ?_⟩
  · simpa [hholds] using h.mutex
  · have hcovered := h.covered
    simp only [List.countP_append, List.countP_singleton, hasleep, Bool.false_eq_true, if_false,
      Nat.add_zero] at hsleep ⊢
    exact (hcovered hsleep).trans (Nat.le_add_right _ _)

/-- A call unlocks the mutex. -/
theorem mutex_unlock {k : ℕ} {old call : Call T} (h : Inv lt s) (hk : s.calls[k]? = some old)
    (hold : old.holds = true) (hcall : call.holds = false) :
    (s.calls.set k call).countP Call.holds = 0 := by
  have hleave := Bag.countP_set_leave hk hold hcall
  have hmutex := h.mutex
  split at hmutex
  case isTrue => omega
  case isFalse => omega

section
variable [DecidableRel lt]

/-- Locking the mutex takes nobody off the way. -/
theorem inv_lock {k : ℕ} (h : Inv lt s) (hs : step lt s (.lock k) = some s') : Inv lt s' := by
  obtain ⟨hfree, old, call, hk, hlock, rfl⟩ := lock_cases hs
  obtain ⟨hold, hcall, hasleep, hcoming⟩ := Call.lock_same hlock
  refine ⟨h.balance, h.tops, ?_, ?_⟩
  · have hmutex := h.mutex
    rw [hfree] at hmutex
    rw [Bag.countP_set_enter hk hold hcall, hmutex]
    rfl
  · rw [Bag.countP_set_same hk hasleep, Bag.countP_set_same hk hcoming]
    exact h.covered

/-- Something pushed comes with a notification. -/
theorem inv_push {k : ℕ} (h : Inv lt s) (hs : step lt s (.push k) = some s') : Inv lt s' := by
  obtain ⟨task, hk, rfl⟩ := push_cases hs
  refine ⟨?_, h.tops, mutex_unlock h hk rfl rfl, fun hsleep => ?_⟩
  · show (↑(task :: s.enqueued) : Multiset T) = _ + ↑(task :: s.priqueue)
    rw [← Multiset.cons_coe, ← Multiset.cons_coe, h.balance, Multiset.add_cons]
  · have hasleep : (s.calls.set k .notify).countP Call.isAsleep = s.calls.countP Call.isAsleep :=
      Bag.countP_set_same hk rfl
    have hcoming : (s.calls.set k .notify).countP Call.isComing = s.calls.countP Call.isComing + 1 :=
      Bag.countP_set_enter hk rfl rfl
    have := h.covered (hasleep ▸ hsleep)
    simp only [hcoming, List.length_cons]
    omega

/-- A notification wakes somebody up, who is then on its way; or nobody is asleep. -/
theorem inv_notify {k : ℕ} {notified : Option ℕ} (h : Inv lt s)
    (hs : step lt s (.notify k notified) = some s') : Inv lt s' := by
  obtain ⟨hk, calls, hnotify, rfl⟩ := notify_cases hs
  have hholds : calls.countP Call.holds = s.calls.countP Call.holds := by
    rw [Condition.countP_notifyOne hnotify holds_wake]
    exact Bag.countP_set_same hk rfl
  refine ⟨h.balance, h.tops, hholds.trans h.mutex, fun hsleep => ?_⟩
  rcases Condition.notifyOne_cases hnotify with ⟨rfl, hnobody⟩ | ⟨j, hwake⟩
  · exact absurd hnobody (Nat.ne_of_gt hsleep)
  · have hasleep := Condition.countP_asleep_wake hwake rfl
    have hcoming := Condition.countP_woken_wake hwake rfl coming_wake
    have hsame : (s.calls.set k .returned).countP Call.isAsleep = s.calls.countP Call.isAsleep :=
      Bag.countP_set_same hk rfl
    have hleave : (s.calls.set k .returned).countP Call.isComing + 1 = s.calls.countP Call.isComing :=
      Bag.countP_set_leave hk rfl rfl
    have := h.covered (by omega)
    dsimp only
    omega

/-- Who waits has found nothing; who takes something takes it from those on the way, of
whom it may be one. -/
theorem inv_test {k top : ℕ} (h : Inv lt s) (hs : step lt s (.test k top) = some s') : Inv lt s' := by
  obtain ⟨again, hk, ⟨hempty, rfl⟩ | ⟨task, htask, htop, rfl⟩⟩ := test_cases hs
  · refine ⟨h.balance, h.tops, mutex_unlock h hk rfl rfl, fun _ => ?_⟩
    dsimp only
    rw [hempty]
    exact Nat.zero_le _
  · refine ⟨?_, ?_, mutex_unlock h hk rfl rfl, fun hsleep => ?_⟩
    · rw [h.balance, Bag.coe_eq_cons htask, List.map_cons, ← Multiset.cons_coe, Multiset.add_cons,
        Multiset.cons_add, Multiset.cons_add]
    · exact List.forall_mem_cons.mpr ⟨htop, h.tops⟩
    · have hasleep : (s.calls.set k .returned).countP Call.isAsleep = s.calls.countP Call.isAsleep :=
        Bag.countP_set_same hk rfl
      have hcoming : s.calls.countP Call.isComing ≤ (s.calls.set k .returned).countP Call.isComing + 1 :=
        Bag.countP_set_le hk
      obtain ⟨hlt, -⟩ := List.getElem?_eq_some_iff.mp htask
      have hlength := List.length_eraseIdx_of_lt hlt
      have := h.covered (hasleep ▸ hsleep)
      dsimp only
      omega

theorem inv_wakeUp {k : ℕ} (h : Inv lt s) (hs : step lt s (.wakeUp k) = some s') : Inv lt s' := by
  obtain ⟨calls, hwake, rfl⟩ := wakeUp_cases hs
  have hholds : calls.countP Call.holds = s.calls.countP Call.holds :=
    Condition.countP_wake hwake holds_wake
  refine ⟨h.balance, h.tops, hholds.trans h.mutex, fun _ => ?_⟩
  have hasleep := Condition.countP_asleep_wake hwake rfl
  have hcoming := Condition.countP_woken_wake hwake rfl coming_wake
  have := h.covered (by omega)
  dsimp only
  omega

theorem inv_pops {k : ℕ} (h : Inv lt s) (hs : step lt s (.pops k) = some s') : Inv lt s' := by
  obtain ⟨hk, rfl⟩ := pops_cases hs
  refine ⟨?_, h.tops, mutex_unlock h hk rfl rfl, fun _ => Nat.zero_le _⟩
  dsimp only
  rw [h.balance, ← Multiset.coe_add, Multiset.coe_nil, add_zero, add_assoc,
    add_comm (s.cleared : Multiset T)]

theorem inv_step {l : Label T} (h : Inv lt s) (hs : step lt s l = some s') : Inv lt s' := by
  cases l with
  | enqueue task =>
    obtain rfl := Option.some.inj hs
    exact inv_call h rfl rfl
  | dequeue =>
    obtain rfl := Option.some.inj hs
    exact inv_call h rfl rfl
  | clear =>
    obtain rfl := Option.some.inj hs
    exact inv_call h rfl rfl
  | lock k => exact inv_lock h hs
  | push k => exact inv_push h hs
  | notify k notified => exact inv_notify h hs
  | test k top => exact inv_test h hs
  | wakeUp k => exact inv_wakeUp h hs
  | pops k => exact inv_pops h hs

theorem run_inv {trace : List (BtsQueue T × Label T)} (run : (machine lt).Run create trace s) :
    Inv lt s :=
  run.invariant (r := fun _ _ => True) inv_create (fun _ _ _ h _ hs => inv_step h hs)
    fun _ _ => trivial

end

/-! ### `top` finds something -/

/-- A `COMPARE` that is an order has somebody on top of every queue. -/
theorem exists_top (hirrefl : ∀ a, ¬lt a a) (htrans : ∀ a b c, lt a b → lt b c → lt a c)
    {tasks : List T} (h : tasks ≠ []) : ∃ task ∈ tasks, IsTop lt task tasks := by
  induction tasks with
  | nil => exact absurd rfl h
  | cons a rest ih =>
    by_cases hrest : rest = []
    · subst hrest
      exact ⟨a, List.mem_singleton_self a, fun b hb => List.mem_singleton.mp hb ▸ hirrefl a⟩
    · obtain ⟨m, hm, htop⟩ := ih hrest
      by_cases hlt : lt m a
      · -- What is above `a` would be above `m`.
        refine ⟨a, List.mem_cons_self, List.forall_mem_cons.mpr ⟨hirrefl a, fun b hb hab => ?_⟩⟩
        exact htop b hb (htrans m a b hlt hab)
      · exact ⟨m, List.mem_cons_of_mem a hm, List.forall_mem_cons.mpr ⟨hlt, htop⟩⟩

section
variable [DecidableRel lt]

/-- A `Dequeue` that has the mutex goes on, whatever is in the queue. -/
theorem test_enabled (hirrefl : ∀ a, ¬lt a a) (htrans : ∀ a b c, lt a b → lt b c → lt a c)
    {k : ℕ} {again : Bool} (hk : s.calls[k]? = some (.test again)) :
    ∃ top, (step lt s (.test k top)).isSome := by
  by_cases hempty : s.priqueue = []
  · exact ⟨0, by simp [step, hk, hempty]⟩
  · obtain ⟨task, hmem, htop⟩ := exists_top hirrefl htrans hempty
    obtain ⟨top, htask⟩ := List.getElem?_of_mem hmem
    have hothers : IsTop lt task (s.priqueue.eraseIdx top) :=
      fun other hother => htop other (List.mem_of_mem_eraseIdx hother)
    exact ⟨top, by simp [step, hk, hempty, htask, hothers]⟩

end

/-! ### What the queue keeps -/

/-- The notifications still to be issued. -/
def notifications (s : BtsQueue T) : ℕ := s.calls.countP Call.isNotify

/-- The calls of `Dequeue` that wait and are not notified. -/
def sleepers (s : BtsQueue T) : ℕ := s.calls.countP Call.isAsleep

/-- The calls of `Dequeue` woken up that have not locked the mutex again. -/
def wokenUp (s : BtsQueue T) : ℕ := s.calls.countP Call.isWoken

/-- Those that have, and have still to look. -/
def lookingAgain (s : BtsQueue T) : ℕ := s.calls.countP Call.isAgain

theorem coming_eq : s.calls.countP Call.isComing = s.notifications + s.wokenUp + s.lookingAgain := by
  unfold notifications wokenUp lookingAgain
  induction s.calls with
  | nil => rfl
  | cons call calls ih =>
    have hone : (if call.isComing = true then 1 else 0) = (if call.isNotify = true then 1 else 0) +
        (if call.isWoken = true then 1 else 0) + (if call.isAgain = true then 1 else 0) := by
      cases call with
      | test again => cases again <;> rfl
      | _ => rfl
    simp only [List.countP_cons, ih, hone]
    omega

theorem lookingAgain_le : s.lookingAgain ≤ s.calls.countP Call.holds :=
  List.countP_mono_left fun call _ h => by
    cases call with
    | test => rfl
    | _ => cases h

structure Accounts (lt : T → T → Prop) (s : BtsQueue T) : Prop where
  /-- What was enqueued was dequeued, cleared or is there. -/
  balance : (s.enqueued : Multiset T) = (s.dequeued.map Prod.fst : Multiset T) + s.cleared + s.priqueue
  /-- What was dequeued was no smaller than what was left. -/
  tops : ∀ taken ∈ s.dequeued, IsTop lt taken.1 taken.2
  covered : 0 < s.sleepers → s.priqueue.length ≤ s.notifications + s.wokenUp + s.lookingAgain
  lookingAgain : s.lookingAgain ≤ 1
  free : s.locked = false → s.lookingAgain = 0

/-- **Nothing is lost and no wake-up is missed.** Beside a `Dequeue` that sleeps lie no more
elements than notifications are still to come, callers were woken up and, while it has the
mutex, one that has not looked yet. -/
theorem accounts (lt : T → T → Prop) [DecidableRel lt] {trace : List (BtsQueue T × Label T)}
    {s : BtsQueue T} (run : (machine lt).Run create trace s) : Accounts lt s := by
  have hinv := run_inv run
  have hmutex := hinv.mutex
  have hle := lookingAgain_le (s := s)
  refine ⟨hinv.balance, hinv.tops, fun hsleep => coming_eq ▸ hinv.covered hsleep, ?_, fun hfree => ?_⟩
  · split at hmutex <;> omega
  · rw [hfree] at hmutex
    simp only [Bool.false_eq_true, if_false] at hmutex
    omega

/-- Two calls of `Dequeue` sleep, one is notified of the element and has locked the mutex:
no notification is left for that element, and nobody to wake up. -/
def retaken : List (Label ℕ) :=
  [.dequeue, .lock 0, .test 0 0, .dequeue, .lock 1, .test 1 0,
    .enqueue 7, .lock 2, .push 2, .notify 2 (some 0), .lock 0]

theorem accounts_retaken : ∃ trace s, (machine (· < ·)).Run (create : BtsQueue ℕ) trace s ∧
    s.priqueue = [7] ∧ Accounts (· < ·) s := by
  obtain ⟨trace, s, run, h⟩ := Machine.run_of_replay (machine (· < ·)) create retaken
    (fun e => decide (e.2.priqueue = [7])) (by decide +kernel)
  exact ⟨trace, s, run, of_decide_eq_true h, accounts (· < ·) run⟩

theorem retaken_lock : ∃ trace s, (machine (· < ·)).Run (create : BtsQueue ℕ) trace s ∧
    0 < s.sleepers ∧ ¬s.priqueue.length ≤ s.notifications + s.wokenUp := by
  obtain ⟨trace, s, run, h⟩ := Machine.run_of_replay (machine (· < ·)) create retaken
    (fun e => decide (0 < e.2.sleepers ∧ ¬e.2.priqueue.length ≤ e.2.notifications + e.2.wokenUp))
    (by decide +kernel)
  exact ⟨trace, s, run, of_decide_eq_true h⟩

end BtsQueue
end PrivateCloud.Sync
