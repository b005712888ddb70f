import PrivateCloud.Library.Linearizable
import PrivateCloud.Sync.BtsQueue

/-! The blocking queue as its callers see it.

It is a bag that gives out an element no other one in it is above, and makes its callers
wait where there is none. A `Dequeue` takes effect when it looks for the last time, an
`Enqueue` when it pushes: what comes after, the notification, nobody can tell. -/
namespace PrivateCloud.Sync.BtsQueue
open Object

variable {T : Type*}

inductive Op (T : Type*) where
  | enqueue (task : T)
  | dequeue
  | clear

/-- What a queue is for. A `dequeue` of an empty one does not happen. -/
def Does (lt : T → T → Prop) (s : Multiset T) : Op T → Option T → Multiset T → Prop
  | .enqueue task, none, t => t = task ::ₘ s
  | .dequeue, some task, t => s = task ::ₘ t ∧ ∀ other ∈ t, ¬lt task other
  | .clear, none, t => t = 0
  | _, _, _ => False

def bag (lt : T → T → Prop) : Object (Multiset T) (Op T) (Option T) := ⟨0, Does lt⟩

/-- A call that takes effect, or is made, or returns. -/
def marks (s : BtsQueue T) : Label T → List (Mark ℕ (Op T) (Option T))
  | .enqueue task => [.event (.invoke s.calls.length (.enqueue task))]
  | .dequeue => [.event (.invoke s.calls.length .dequeue)]
  | .clear => [.event (.invoke s.calls.length .clear)]
  | .push k =>
    match s.calls[k]? with
    | some (.push task) => [.commit ⟨k, .enqueue task, none⟩]
    | _ => []
  | .notify k _ => [.event (.respond k none)]
  | .test k top =>
    match s.priqueue[top]? with
    | some task => [.commit ⟨k, .dequeue, some task⟩, .event (.respond k (some task))]
    | none => []
  | .pops k => [.commit ⟨k, .clear, none⟩, .event (.respond k none)]
  | .lock _ | .wakeUp _ => []

def phase : Call T → Phase (Op T) (Option T)
  | .enqueue task | .push task => .invoked (.enqueue task)
  | .notify => .committed none
  | .dequeue | .test _ | .asleep | .woken => .invoked .dequeue
  | .clear | .pops => .invoked .clear
  | .returned => .returned

theorem phase_lock {old call : Call T} (h : old.lock = some call) : phase call = phase old := by
  cases old with
  | enqueue | dequeue | woken | clear =>
    obtain rfl := Option.some.inj h
    rfl
  | _ => cases h

theorem phase_wake (call : Call T) (h : call.isAsleep = true) : phase call = phase .woken := by
  cases call with
  | asleep => rfl
  | _ => cases h

/-- How far each call is. -/
def phases (s : BtsQueue T) : List (Phase (Op T) (Option T)) := s.calls.map phase

/-- The `Dequeue` that takes something in this step, and what. -/
def taken (s : BtsQueue T) : Label T → Option (ℕ × T)
  | .test k top => (s.priqueue[top]?).map fun task => (k, task)
  | _ => none

/-- The `Enqueue` that pushes something in this step, and what. -/
def pushed (s : BtsQueue T) : Label T → Option (ℕ × T)
  | .push k =>
    match s.calls[k]? with
    | some (.push task) => some (k, task)
    | _ => none
  | _ => none

/-- A step of an `Enqueue` or a `Dequeue` that was called. -/
def inner : Label T → Bool
  | .lock _ | .push _ | .notify _ _ | .test _ _ | .wakeUp _ => true
  | .enqueue _ | .dequeue | .clear | .pops _ => false

/-- What such a step is to those who only see the calls take effect and return. -/
inductive Effect (lt : T → T → Prop) (s : BtsQueue T) (l : Label T) (s' : BtsQueue T) : Prop where
  | quiet (hnopush : s.pushed l = none) (hnone : s.taken l = none) (hphases : s'.phases = s.phases)
      (hsame : s'.priqueue = s.priqueue)
  | push (k : ℕ) (task : T) (hpushed : s.pushed l = some (k, task)) (hnone : s.taken l = none)
      (hk : s.phases[k]? = some (.invoked (.enqueue task)))
      (hphases : s'.phases = s.phases.set k (.committed none)) (hpush : s'.priqueue = task :: s.priqueue)
  | returns (k : ℕ) (hnopush : s.pushed l = none) (hnone : s.taken l = none)
      (hk : s.phases[k]? = some (.committed none))
      (hphases : s'.phases = s.phases.set k .returned) (hsame : s'.priqueue = s.priqueue)
  | takes (k : ℕ) (task : T) (hnopush : s.pushed l = none) (hsome : s.taken l = some (k, task))
      (hk : s.phases[k]? = some (.invoked .dequeue)) (hphases : s'.phases = s.phases.set k .returned)
      (hpop : (s.priqueue : Multiset T) = task ::ₘ s'.priqueue) (htop : IsTop lt task s'.priqueue)

variable {lt : T → T → Prop} [DecidableRel lt] {s s' : BtsQueue T}

theorem phases_of_get {k : ℕ} {call : Call T} (hk : s.calls[k]? = some call) :
    s.phases[k]? = some (phase call) := by
  rw [phases, List.getElem?_map, hk]
  rfl

theorem effect_step {l : Label T} (hl : inner l = true) (hs : step lt s l = some s') :
    Effect lt s l s' := by
  cases l with
  | lock k =>
    obtain ⟨-, old, call, hk, hlock, rfl⟩ := lock_cases hs
    exact .quiet rfl rfl (map_set_same hk (phase_lock hlock)) rfl
  | push k =>
    obtain ⟨task, hk, rfl⟩ := push_cases hs
    exact .push k task (by simp only [pushed, hk]) rfl (phases_of_get hk) List.map_set rfl
  | notify k notified =>
    obtain ⟨hk, calls, hnotify, rfl⟩ := notify_cases hs
    refine .returns k rfl rfl (phases_of_get hk) ?_ rfl
    exact (Condition.map_notifyOne hnotify phase_wake).trans List.map_set
  | test k top =>
    obtain ⟨again, hk, ⟨hempty, rfl⟩ | ⟨task, htask, htop, rfl⟩⟩ := test_cases hs
    · exact .quiet rfl (by simp [taken, hempty]) (map_set_same hk rfl) rfl
    · exact .takes k task rfl (by simp [taken, htask]) (phases_of_get hk) List.map_set
        (Bag.coe_eq_cons htask) htop
  | wakeUp k =>
    obtain ⟨calls, hwake, rfl⟩ := wakeUp_cases hs
    exact .quiet rfl rfl (Condition.map_wake hwake phase_wake) rfl
  | enqueue task => cases hl
  | dequeue => cases hl
  | clear => cases hl
  | pops k => cases hl

/-- **Each step of the queue is what its marks say of the bag.** -/
theorem moves_step {l : Label T} (hs : step lt s l = some s') :
    Moves (bag lt) (phaseAt phase s.calls) s.priqueue (marks s l) (phaseAt phase s'.calls)
      s'.priqueue := by
  cases l with
  | enqueue task =>
    obtain rfl := Option.some.inj hs
    exact moves_invoke rfl
  | dequeue =>
    obtain rfl := Option.some.inj hs
    exact moves_invoke rfl
  | clear =>
    obtain rfl := Option.some.inj hs
    exact moves_invoke rfl
  | lock k =>
    obtain ⟨-, old, call, hk, hlock, rfl⟩ := lock_cases hs
    exact moves_quiet (map_set_same hk (phase_lock hlock))
  | push k =>
    obtain ⟨task, hk, rfl⟩ := push_cases hs
    simp only [marks, hk]
    exact moves_commit hk rfl rfl rfl
  | notify k notified =>
    obtain ⟨hk, calls, hnotify, rfl⟩ := notify_cases hs
    have hreturn : Moves (bag lt) (phaseAt phase s.calls) s.priqueue [.event (.respond k none)]
        (phaseAt phase (s.calls.set k .returned)) s.priqueue := moves_respond hk rfl rfl
    exact hreturn.append (moves_quiet (Condition.map_notifyOne hnotify phase_wake))
  | test k top =>
    obtain ⟨again, hk, ⟨hempty, rfl⟩ | ⟨task, htask, htop, rfl⟩⟩ := test_cases hs
    · have hnone : marks s (.test k top) = [] := by simp [marks, hempty]
      rw [hnone]
      exact moves_quiet (map_set_same hk rfl)
    · simp only [marks, htask]
      exact moves_return hk rfl rfl ⟨Bag.coe_eq_cons htask, fun other hother => htop other hother⟩
  | wakeUp k =>
    obtain ⟨calls, hwake, rfl⟩ := wakeUp_cases hs
    exact moves_quiet (Condition.map_wake hwake phase_wake)
  | pops k =>
    obtain ⟨hk, rfl⟩ := pops_cases hs
    exact moves_return hk rfl rfl rfl

/-- **The queue is linearizable**: its calls have an order that respects real time, in which
every `Dequeue` takes an element that no other one there is above, and which leaves what is
in the queue. -/
theorem queue_linearizable (lt : T → T → Prop) [DecidableRel lt] {trace : List (BtsQueue T × Label T)}
    {s : BtsQueue T} (run : (machine lt).Run create trace s) :
    (bag lt).Linearizes (history (marksOf marks trace)) (order (marksOf marks trace)) s.priqueue :=
  linearizes_of_run (P := fun _ => True) (r := fun _ _ => True) (fun s => phaseAt phase s.calls)
    (fun s => (s.priqueue : Multiset T)) run trivial (fun _ => rfl) rfl
    (fun _ _ _ _ _ hs => ⟨trivial, moves_step hs⟩)
    fun _ _ => trivial

/-- A `Dequeue` that waits for two elements, of which it gets the one on top. -/
theorem queue_linearizable_waits : ∃ trace s, (machine (· < ·)).Run (create : BtsQueue ℕ) trace s ∧
    (order (marksOf marks trace)).map Commit.res = [none, none, some 7] ∧
    (bag (· < ·)).Linearizes (history (marksOf marks trace)) (order (marksOf marks trace)) s.priqueue := by
  obtain ⟨trace, s, run, h⟩ := Machine.run_of_replay (machine (· < ·)) create
    [.dequeue, .lock 0, .test 0 0, .enqueue 3, .enqueue 7, .lock 1, .push 1, .lock 2, .push 2,
      .notify 1 (some 0), .lock 0, .test 0 0, .notify 2 none]
    (fun e => decide ((order (marksOf marks e.1)).map Commit.res = [none, none, some 7]))
    (by decide +kernel)
  exact ⟨trace, s, run, of_decide_eq_true h, queue_linearizable (· < ·) run⟩

end PrivateCloud.Sync.BtsQueue
