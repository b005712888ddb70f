import PrivateCloud.Sync.Progress
import PrivateCloud.ThreadPool.Leaving
import PrivateCloud.ThreadPool.Seen

/-! That `ShutDown` comes to its end.

`Leaving` has it of a pool whose queue is a list. Here it is the queue of `BTreadSafeQ.hpp`, on
which workers sleep until they are notified. From the call of `ShutDown` on, with no client
calling `Async` and nobody woken up for no reason, the threads take a bounded number of steps,
and as long as it has not returned one of them can take a step: no worker sleeps through the
stop task that is meant for it (`shutDown_ends`). -/
namespace PrivateCloud.ThreadPool
open Sync (BtsQueue)

namespace Act

/-- A step of `ShutDown`, of a worker, or of a call that is there. -/
def own : Act → Bool
  | .send _ | .sent | .join | .enter _ | .run _ => true
  | .queue l => BtsQueue.own l
  | .async _ | .shutDown => false

end Act

/-- The steps a worker has left with what it has: to run its task, to call `Dequeue`, and the
two that this takes where it need not wait. -/
def Thread.left : Thread → ℕ
  | .loop => 3
  | .dequeue _ => 0
  | .run _ => 4
  | .done => 0

namespace View
variable {v v' : View}

/-- The tasks that are in the queue or on their way into it. -/
def waiting (v : View) : ℕ :=
  ((v.points : Multiset Point).filterMap Point.pending).card + v.queue.card

/-- What `ShutDown` has left to do: no more than twelve steps for each stop task, what becomes of
it among them. -/
def owes (n : ℕ) : Caller → ℕ
  | .notCalled => 0
  | .stopping i => 12 * (n - i) + (n + 1)
  | .sending i _ => 12 * (n - (i + 1)) + (n + 2)
  | .joining i => n - i

def left (v : View) : ℕ :=
  4 * v.waiting + (v.threads.map Thread.left).sum + owes v.threads.length v.shutDown

theorem coe_append (point : Point) :
    ((v.points ++ [point] : List Point) : Multiset Point) = point ::ₘ (v.points : Multiset Point) :=
  Multiset.coe_eq_coe.mpr (List.perm_append_singleton _ _)

theorem waiting_async (item : Item) (caller : Caller) :
    waiting ⟨v.points ++ [.invoked (.enqueue item)], v.queue, v.threads, caller⟩ = v.waiting + 1 := by
  simp only [waiting, coe_append]
  rw [Multiset.filterMap_cons_some Point.pending _ _ (b := item) rfl, Multiset.card_cons]
  omega

theorem waiting_enter (threads : List Thread) :
    waiting ⟨v.points ++ [.invoked .dequeue], v.queue, threads, v.shutDown⟩ = v.waiting := by
  simp only [waiting, coe_append]
  rw [Multiset.filterMap_cons_none _ _ rfl]

/-- Inside the queue nothing is added to what is left. -/
theorem left_inner {l : Option Label} (h : Sound v) (hinner : v.Inner l v') : v'.left = v.left := by
  cases hinner with
  | quiet => rfl
  | push k item hk =>
    simp only [left, waiting, Bag.coe_set hk, Bag.coe_eq_cons hk]
    rw [Multiset.filterMap_cons_none _ _ rfl, Multiset.filterMap_cons_some Point.pending _ _ (b := item) rfl,
      Multiset.card_cons, Multiset.card_cons]
    omega
  | returns k hk =>
    simp only [left, waiting, Bag.coe_set hk, Bag.coe_eq_cons hk]
    rw [Multiset.filterMap_cons_none _ _ rfl, Multiset.filterMap_cons_none _ _ rfl]
  | takes k item queue hk hqueue =>
    obtain ⟨hw, hdeliver⟩ := h.deliver hk item
    have hsum := Bag.sum_map_set Thread.left hw (.run item)
    simp only [left, waiting, Bag.coe_set hk, Bag.coe_eq_cons hk, hqueue, hdeliver, List.length_set]
    rw [Multiset.filterMap_cons_none _ _ rfl, Multiset.filterMap_cons_none _ _ rfl, Multiset.card_cons]
    simp only [Thread.left] at hsum
    omega

/-- `ShutDown` goes on without sending anything. -/
theorem left_caller {caller : Caller}
    (howes : owes v.threads.length caller < owes v.threads.length v.shutDown) :
    left {v with shutDown := caller} < v.left :=
  Nat.add_lt_add_left howes _

theorem left_send {i : ℕ} (item : Item) (hi : v.shutDown = .stopping i) (hlt : i < v.threads.length) :
    left { v with
      points := v.points ++ [.invoked (.enqueue item)]
      shutDown := .sending i v.points.length } + 7 = v.left := by
  simp only [left, waiting_async, owes, hi]
  omega

theorem left_enter {w : ℕ} (hw : v.threads[w]? = some .loop) : left { v with
    points := v.points ++ [.invoked .dequeue]
    threads := v.threads.set w (.dequeue v.points.length) } + 3 = v.left := by
  have hsum := Bag.sum_map_set Thread.left hw (.dequeue v.points.length)
  simp only [Thread.left] at hsum
  simp only [left, waiting_enter, List.length_set]
  omega

theorem left_run {w : ℕ} {item : Item} (hw : v.threads[w]? = some (.run item)) :
    left {v with threads := v.threads.set w (if BADAPPLE = item.result then .done else .loop)} < v.left := by
  have hsum := Bag.sum_map_set Thread.left hw (if BADAPPLE = item.result then .done else .loop)
  have hnext : Thread.left (if BADAPPLE = item.result then .done else .loop) ≤ 3 := by
    split
    case isTrue => exact Nat.zero_le 3
    case isFalse => exact Nat.le_refl 3
  simp only [show Thread.left (.run item) = 4 from rfl] at hsum
  simp only [left, waiting, List.length_set]
  omega

end View

namespace Locked
variable {n : ℕ} {s s' : Locked}

/-- The steps that are left, in and out of the queue. -/
def left (s : Locked) : ℕ := s.queue.work + s.view.left

theorem work_call (call : Sync.Call Item) :
    BtsQueue.work {s.queue with calls := s.queue.calls ++ [call]} = s.queue.work + BtsQueue.left call := by
  simp only [BtsQueue.work, List.map_append, List.sum_append, List.map_singleton, List.sum_singleton]

/-- **What is left gets less** with every step. -/
theorem left_step {a : Act} (hsound : s.view.Sound) (hown : a.own = true) (hs : s.step a = some s') :
    s'.left < s.left := by
  cases a with
  | async item => cases hown
  | shutDown => cases hown
  | send address =>
    obtain ⟨i, hi, ⟨hlt, t, ht, rfl⟩ | ⟨hge, rfl⟩⟩ := send_cases hs
    · obtain ⟨-, rfl⟩ := async_cases ht
      have hleft := View.left_send (v := s.view) ⟨address, BADAPPLE⟩ hi hlt
      simp only [left, work_call, view_call, length_calls, BtsQueue.left, BtsQueue.phase]
      simp only [view] at hleft ⊢
      omega
    · have howes : View.owes s.threads.length (.joining 0) < View.owes s.threads.length s.shutDown := by
        simp only [View.owes, hi]
        omega
      exact Nat.add_lt_add_left (View.left_caller (v := s.view) howes) _
  | sent =>
    obtain ⟨i, k, hi, -, rfl⟩ := sent_cases hs
    have howes : View.owes s.threads.length (.stopping (i + 1)) < View.owes s.threads.length s.shutDown := by
      simp only [View.owes, hi]
      omega
    exact Nat.add_lt_add_left (View.left_caller (v := s.view) howes) _
  | join =>
    obtain ⟨i, hi, hdone, rfl⟩ := join_cases hs
    obtain ⟨hlt, -⟩ := List.getElem?_eq_some_iff.mp hdone
    have howes : View.owes s.threads.length (.joining (i + 1)) < View.owes s.threads.length s.shutDown := by
      simp only [View.owes, hi]
      omega
    exact Nat.add_lt_add_left (View.left_caller (v := s.view) howes) _
  | enter w =>
    obtain ⟨hw, rfl⟩ := enter_cases hs
    have hleft := View.left_enter (v := s.view) hw
    simp only [left, work_call, view_call, length_calls, BtsQueue.left, BtsQueue.phase]
    simp only [view] at hleft ⊢
    omega
  | queue l =>
    have hleft := View.left_inner hsound (inner_queue hs)
    obtain ⟨hl, queue, hqueue, rfl⟩ := queue_cases hs
    have hwork := BtsQueue.work_step hown hqueue
    simp only [left, hleft]
    omega
  | run w =>
    obtain ⟨item, hw, rfl⟩ := run_cases hs
    exact Nat.add_lt_add_left (View.left_run (v := s.view) hw) _

/-! ### The queue's part -/

/-- What a step is to the queue. -/
def toQueue (s : Locked) : Act → Option (BtsQueue.Label Item)
  | .async item => some (.enqueue item)
  | .send address =>
    match s.shutDown with
    | .stopping i => if i < s.threads.length then some (.enqueue ⟨address, BADAPPLE⟩) else none
    | _ => none
  | .enter _ => some .dequeue
  | .queue l => some l
  | .shutDown | .sent | .join | .run _ => none

theorem step_queue {a : Act} (hs : s.step a = some s') :
    Machine.maybe (BtsQueue.step before) s.queue (s.toQueue a) = some s'.queue := by
  cases a with
  | async item =>
    obtain ⟨-, rfl⟩ := async_cases hs
    rfl
  | shutDown =>
    obtain ⟨-, rfl⟩ := shutDown_cases hs
    rfl
  | send address =>
    obtain ⟨i, hi, ⟨hlt, t, ht, rfl⟩ | ⟨hge, rfl⟩⟩ := send_cases hs
    · obtain ⟨-, rfl⟩ := async_cases ht
      simp only [toQueue, hi, if_pos hlt]
      rfl
    · simp only [toQueue, hi, if_neg hge]
      rfl
  | sent =>
    obtain ⟨i, k, -, -, rfl⟩ := sent_cases hs
    rfl
  | join =>
    obtain ⟨i, -, -, rfl⟩ := join_cases hs
    rfl
  | enter w =>
    obtain ⟨-, rfl⟩ := enter_cases hs
    rfl
  | queue l =>
    obtain ⟨-, queue, hqueue, rfl⟩ := queue_cases hs
    exact hqueue
  | run w =>
    obtain ⟨item, -, rfl⟩ := run_cases hs
    rfl

/-- The queue's part of a run is a run of the queue. -/
theorem run_queue {trace : List (Locked × Act)} (run : (machine n).Run (create n) trace s) :
    (BtsQueue.machine before).Run BtsQueue.create (Machine.project queue toQueue trace) s.queue :=
  run.project queue toQueue fun _ _ _ hs => step_queue hs

theorem queue_inv {trace : List (Locked × Act)} (run : (machine n).Run (create n) trace s) :
    BtsQueue.Inv before s.queue := BtsQueue.run_inv (run_queue run)

/-! ### Somebody goes on -/

/-- One of the threads can take a step. -/
def Moves (s : Locked) : Prop := ∃ a s', Act.own a = true ∧ s.step a = some s'

/-- `ShutDown` has joined every thread, and all have left. -/
def Returned (s : Locked) : Prop :=
  s.shutDown = .joining s.threads.length ∧ ∀ thread ∈ s.threads, thread = .done

theorem moves_of {a : Act} (hown : a.own = true) (h : (s.step a).isSome = true) : s.Moves := by
  obtain ⟨s', hs⟩ := Option.isSome_iff_exists.mp h
  exact ⟨a, s', hown, hs⟩

/-- A call inside the queue goes on; nobody is in `Clear`. -/
theorem queue_moves (hsound : s.view.Sound) (h : BtsQueue.Moves before s.queue) : s.Moves := by
  obtain ⟨l, queue, hown, hqueue⟩ := h
  apply moves_of (a := .queue l) hown
  cases l with
  | lock k | push k | notify k notified | test k top => simp [step, BtsQueue.inner, hqueue]
  | pops k =>
    obtain ⟨hk, -⟩ := BtsQueue.pops_cases hqueue
    have hclear := hsound.noClear _ (List.mem_of_getElem? (BtsQueue.phases_of_get hk))
    cases hclear
  | enqueue task => cases hown
  | dequeue => cases hown
  | clear => cases hown
  | wakeUp k => cases hown

/-- A worker that is in no `Dequeue` goes on until it is out of the loop. -/
theorem worker_moves {w : ℕ} {thread : Thread} (hw : s.threads[w]? = some thread) :
    s.Moves ∨ (∃ k, thread = .dequeue k) ∨ thread = .done := by
  cases thread with
  | loop => exact Or.inl (moves_of (a := .enter w) rfl (by simp [step, hw, BtsQueue.step]))
  | run item => exact Or.inl (moves_of (a := .run w) rfl (by simp [step, hw]))
  | dequeue k => exact Or.inr (Or.inl ⟨k, rfl⟩)
  | done => exact Or.inr (Or.inr rfl)

theorem stopping_moves {i : ℕ} (hi : s.shutDown = .stopping i) : s.Moves := by
  obtain ⟨address, hfresh⟩ : ∃ address, s.fresh address = true := Bag.exists_fresh Item.address _
  apply moves_of (a := .send address) rfl
  by_cases hlt : i < s.threads.length
  · simp [step, hi, hlt, async, hfresh, BtsQueue.step]
  · simp [step, hi, hlt]

/-- With the queue quiet, `ShutDown`'s `Enqueue` has returned. -/
theorem sending_moves {i k : ℕ} (hsound : s.view.Sound) (hquiet : BtsQueue.Quiet s.queue)
    (hi : s.shutDown = .sending i k) : s.Moves := by
  obtain ⟨-, point, hpoint, hstops⟩ := hsound.stops i k hi
  obtain ⟨call, hk, rfl⟩ := Option.map_eq_some_iff.mp (List.getElem?_map.symm.trans hpoint)
  rcases hquiet.calls call (List.mem_of_getElem? hk) with rfl | rfl
  · apply moves_of (a := .sent) rfl
    simp only [step, hi, BtsQueue.phases_of_get hk, Option.any_some]
    rfl
  · exact absurd hstops id

/-- With the queue quiet, a worker that is in a `Dequeue` has found nothing in it. -/
theorem dequeue_empty {w k : ℕ} (hsound : s.view.Sound) (hquiet : BtsQueue.Quiet s.queue)
    (hw : s.threads[w]? = some (.dequeue k)) : s.queue.priqueue = [] := by
  have hinside := hsound.inside k
  have hpos : 0 < s.threads.countP (Thread.isIn k) :=
    List.countP_pos_iff.mpr ⟨_, List.mem_of_getElem? hw, View.isIn_self k⟩
  split at hinside
  case isTrue hdequeue =>
    obtain ⟨point, hpoint, hpoint'⟩ := (Option.any_eq_true _ _).mp hdequeue
    obtain ⟨call, hk, rfl⟩ := Option.map_eq_some_iff.mp (List.getElem?_map.symm.trans hpoint)
    have hmem := List.mem_of_getElem? hk
    rcases hquiet.calls call hmem with rfl | rfl
    · cases hpoint'
    · exact hquiet.empty (List.countP_pos_iff.mpr ⟨_, hmem, rfl⟩)
  case isFalse => exact absurd hinside (Nat.ne_of_gt hpos)

variable {p : Pool} {sent : List ℕ}

/-- Once all stop tasks are sent, a worker finds something in the queue. -/
theorem joining_moves {i : ℕ} (hsound : s.view.Sound) (hsees : s.view.Sees p)
    (hquiet : BtsQueue.Quiet s.queue)
    (hcounted : Pool.Counted n sent p) (hjoined : Pool.Joined p) (hi : s.shutDown = .joining i) :
    s.Moves ∨ s.Returned := by
  have hp : p.shutDown = .joining i := by
    rw [hsees.shutDown, View.stage, show s.view.shutDown = .joining i from hi]
  have hlength : p.threads.length = s.threads.length := hsees.length
  by_cases hlast : i = s.threads.length
  · refine Or.inr ⟨hlast ▸ hi, fun thread hthread => ?_⟩
    have hleft := Pool.returned_left hjoined (by rw [Pool.Returned, hp, hlast, hlength])
    obtain ⟨w, hw⟩ := List.mem_iff_getElem?.mp hthread
    obtain ⟨worker, hworker, hsame⟩ := hsees.worker hw
    rw [hleft worker (List.mem_of_getElem? hworker)] at hsame
    cases thread with
    | done => rfl
    | _ => cases hsame
  · have hle : i ≤ s.threads.length := by
      by_contra hlt
      have hnone := hjoined i hp s.threads.length (by omega)
      rw [List.getElem?_eq_none (Nat.le_of_eq hlength)] at hnone
      cases hnone
    have hlt : i < s.threads.length := by omega
    have hw : s.threads[i]? = some s.threads[i] := List.getElem?_eq_getElem hlt
    rcases worker_moves hw with hmoves | ⟨k, hthread⟩ | hthread
    · exact Or.inl hmoves
    · rw [hthread] at hw
      have hempty := dequeue_empty hsound hquiet hw
      obtain ⟨worker, hworker, hsame⟩ := hsees.worker hw
      have htasks : p.tasks = [] := by
        have hqueue := hsees.queue
        rw [show s.view.queue = (s.queue.priqueue : Multiset Item) from rfl, hempty] at hqueue
        exact List.map_eq_nil_iff.mp (Multiset.coe_eq_zero _ |>.mp hqueue.symm)
      cases worker with
      | dequeue => exact absurd htasks (Pool.tasks_ne_nil hcounted (Or.inr ⟨i, hp⟩) hworker)
      | run => cases hsame
      | done => cases hsame
    · refine Or.inl (moves_of (a := .join) rfl ?_)
      simp [step, hi, hw, hthread]

/-- **No worker sleeps through its stop task.** -/
theorem shutDown_moves {trace : List (Locked × Act)} (run : (machine n).Run (create n) trace s)
    (hcalled : s.shutDown ≠ .notCalled) : s.Moves ∨ s.Returned := by
  obtain ⟨rest, p, run', -, hsound, hsees⟩ := run_sees run
  have hirrefl : ∀ a, ¬before a a := fun a => Nat.lt_irrefl a.address
  have htrans : ∀ a b c, before a b → before b c → before a c := fun _ _ _ => Nat.lt_trans
  rcases (queue_inv run).progress hirrefl htrans with hmoves | hquiet
  · exact Or.inl (queue_moves hsound hmoves)
  · cases hcaller : s.shutDown with
    | notCalled => exact absurd hcaller hcalled
    | stopping i => exact Or.inl (stopping_moves hcaller)
    | sending i k => exact Or.inl (sending_moves hsound hquiet hcaller)
    | joining i =>
      exact joining_moves hsound hsees hquiet (Pool.run_counted run') (Pool.run_joined run') hcaller

/-! ### To the end -/

theorem called_step {a : Act} (hcalled : s.shutDown ≠ .notCalled) (hs : s.step a = some s') :
    s'.shutDown ≠ .notCalled := by
  cases a with
  | async item =>
    obtain ⟨-, rfl⟩ := async_cases hs
    exact hcalled
  | shutDown =>
    obtain ⟨-, rfl⟩ := shutDown_cases hs
    nofun
  | send address =>
    obtain ⟨i, -, ⟨-, t, -, rfl⟩ | ⟨-, rfl⟩⟩ := send_cases hs
    · nofun
    · nofun
  | sent =>
    obtain ⟨i, k, -, -, rfl⟩ := sent_cases hs
    nofun
  | join =>
    obtain ⟨i, -, -, rfl⟩ := join_cases hs
    nofun
  | enter w =>
    obtain ⟨-, rfl⟩ := enter_cases hs
    exact hcalled
  | queue l =>
    obtain ⟨-, queue, -, rfl⟩ := queue_cases hs
    exact hcalled
  | run w =>
    obtain ⟨item, -, rfl⟩ := run_cases hs
    exact hcalled

/-- The threads go on from `s` to `t`. -/
structure Ending (s : Locked) (rest : List (Locked × Act)) (t : Locked) : Prop where
  length : rest.length + t.left ≤ s.left
  progress : t.Moves ∨ t.Returned

/-- **`ShutDown` returns**, with every worker out of its loop: once it is called, whatever was
submitted before, the threads take no more steps than are left, and can take one until it has
returned. -/
theorem shutDown_ends (n : ℕ) {trace : List (Locked × Act)} (run : (machine n).Run (create n) trace s)
    (hcalled : s.shutDown ≠ .notCalled) (rest : List (Locked × Act)) (t : Locked)
    (run' : (machine n).Run s rest t) (hown : Machine.Meets (fun _ a => Act.own a = true) rest) :
    Ending s rest t := by
  obtain ⟨-, -, -, -, hsound, -⟩ := run_sees run
  obtain ⟨⟨-, hcalled'⟩, hlength⟩ :=
    run'.bounded (P := fun u => u.view.Sound ∧ u.shutDown ≠ .notCalled) (m := left) ⟨hsound, hcalled⟩
      (fun _ _ _ hu ha hs => ⟨⟨View.sound_turn hu.1 (step_turn hs), called_step hu.2 hs⟩,
        left_step hu.1 ha hs⟩) hown
  exact ⟨Nat.add_comm _ _ ▸ hlength, shutDown_moves (run.append run') hcalled'⟩

/-- Both workers sleep when `ShutDown` is called. -/
def asleep : List Act :=
  [.enter 0, .queue (.lock 0), .queue (.test 0 0), .enter 1, .queue (.lock 1), .queue (.test 1 0), .shutDown]

def wakes : List Act :=
  [.send 64, .queue (.lock 2), .queue (.push 2), .queue (.notify 2 (some 1)), .sent, .send 32,
    .queue (.lock 3), .queue (.push 3), .queue (.notify 3 (some 0)), .sent, .send 0, .queue (.lock 0),
    .queue (.test 0 1), .run 0, .queue (.lock 1), .queue (.test 1 0), .run 1, .join, .join]

/-- A continuation in which `ShutDown` returns. -/
def joins (e : List (Locked × Act) × Locked) : Bool :=
  decide (e.2.shutDown = .joining 2 ∧ Machine.Meets (fun _ a => Act.own a = true) e.1)

theorem shutDown_ends_asleep : ∃ trace s rest t, (machine 2).Run (create 2) trace s ∧
    s.queue.sleepers = 2 ∧ (machine 2).Run s rest t ∧ t.shutDown = .joining 2 ∧ Ending s rest t := by
  obtain ⟨trace, s, run, h⟩ := Machine.run_of_replay (machine 2) (create 2) asleep
    (fun e => decide (e.2.queue.sleepers = 2 ∧ e.2.shutDown = .stopping 0) &&
      ((machine 2).replay e.2 wakes).any joins) (by decide +kernel)
  obtain ⟨hasleep, hrest⟩ := Bool.and_eq_true_iff.mp h
  obtain ⟨hsleepers, hcalled⟩ := of_decide_eq_true hasleep
  obtain ⟨rest, t, run', h'⟩ := Machine.run_of_replay (machine 2) s wakes joins hrest
  obtain ⟨hjoined, hown⟩ := of_decide_eq_true h'
  exact ⟨trace, s, rest, t, run, hsleepers, run', hjoined,
    shutDown_ends 2 run (by rw [hcalled]; nofun) rest t run' hown⟩

end Locked
end PrivateCloud.ThreadPool
