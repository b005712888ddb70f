import PrivateCloud.Sync.Linearizable
import PrivateCloud.ThreadPool.Drain

/-! The pool on its queue: `ThreadPool.cpp` with `BTreadSafeQ.hpp` under it.

In `Pool` a task is put on the queue and taken off it in one step. In `Locked` a worker calls
`Dequeue`, a client and `ShutDown` call `Enqueue`, and what these calls do is what the queue's
own steps are, with its mutex, its condition variable and its notifications.

Of the calls of the queue others see whether they have pushed or taken something yet, and
whether they have returned (`View`); where the steps go to there is said once (`step_turn`).
No two tasks that are not forgotten are at one address, and each `Dequeue` is one worker's
(`Sound`). -/
namespace PrivateCloud.ThreadPool
open Sync (BtsQueue)
open Object (Phase)

/-- What lies in the queue: where the task is, and what its function returns. -/
structure Item where
  address : ℕ
  result : Int
  deriving DecidableEq

/-- `std::less` on the pointers. -/
def before (a b : Item) : Prop := a.address < b.address

instance : DecidableRel before := fun a b => inferInstanceAs (Decidable (a.address < b.address))

/-- Where a worker is in `TaskDespacher`. -/
inductive Thread where
  /-- At the top of the loop. -/
  | loop
  /-- In `Dequeue`, which is this call of the queue. -/
  | dequeue (k : ℕ)
  | run (item : Item)
  | done
  deriving DecidableEq

/-- Where `ShutDown` is. -/
inductive Caller where
  | notCalled
  | stopping (i : ℕ)
  /-- In an `Async` of its first loop, whose `Enqueue` is this call of the queue. -/
  | sending (i k : ℕ)
  | joining (i : ℕ)
  deriving DecidableEq

/-- An `Enqueue` that pushes is `ShutDown`'s `Async` or a client's. -/
def Caller.pushes (caller : Caller) (k : ℕ) (item : Item) : Label :=
  match caller with
  | .sending _ j => if j = k then .stop item.address else .async item.result item.address
  | _ => .async item.result item.address

structure Locked where
  queue : BtsQueue Item
  threads : List Thread
  shutDown : Caller

inductive Act where
  /-- A client calls `Async`: the task is made, and `Enqueue` called. -/
  | async (item : Item)
  | shutDown
  /-- `ShutDown` begins the next turn of its first loop, or leaves it. -/
  | send (address : ℕ)
  /-- The `Enqueue` it is in has returned. -/
  | sent
  | join
  /-- A worker calls `Dequeue`. -/
  | enter (worker : ℕ)
  /-- An `Enqueue` or a `Dequeue` goes on. -/
  | queue (l : BtsQueue.Label Item)
  | run (worker : ℕ)

abbrev Point := Phase (BtsQueue.Op Item) (Option Item)

namespace Point

/-- The task that an `Enqueue` has still to push. -/
def pending : Point → Option Item
  | .invoked (.enqueue item) => some item
  | _ => none

def isPending (point : Point) : Bool := point.pending.isSome

def isDequeue : Point → Bool
  | .invoked .dequeue => true
  | _ => false

def isClear : Point → Bool
  | .invoked .clear => true
  | _ => false

def isReturned : Point → Bool
  | .returned => true
  | _ => false

/-- An `Async` of `ShutDown`: it brings a stop task, or has brought it. -/
def Stops : Point → Prop
  | .invoked (.enqueue item) => item.result = BADAPPLE
  | .committed _ | .returned => True
  | _ => False

end Point

namespace Thread

def running : Thread → Option Item
  | .run item => some item
  | _ => none

/-- The worker is in this `Dequeue`. -/
def isIn (k : ℕ) : Thread → Bool
  | .dequeue j => j = k
  | _ => false

end Thread

namespace Locked

def create (numOfThreads : ℕ) : Locked := ⟨BtsQueue.create, List.replicate numOfThreads .loop, .notCalled⟩

/-- The tasks that are not forgotten: on their way into the queue, in it, or being run. -/
def items (s : Locked) : List Item :=
  s.queue.phases.filterMap Point.pending ++ s.queue.priqueue ++ s.threads.filterMap Thread.running

/-- The allocator has this address. -/
def fresh (s : Locked) (address : ℕ) : Bool := s.items.all fun item => item.address != address

/-- `Async`, up to the lock of `Enqueue`. -/
def async (s : Locked) (item : Item) : Option Locked :=
  if s.fresh item.address then
    (BtsQueue.step before s.queue (.enqueue item)).map fun queue => {s with queue := queue}
  else none

/-- The worker whose `Dequeue` returns goes on with what it got. -/
def deliver (threads : List Thread) : Option (ℕ × Item) → List Thread
  | some (k, item) => threads.set (threads.findIdx (Thread.isIn k)) (.run item)
  | none => threads

def step (s : Locked) : Act → Option Locked
  | .async item => s.async item
  | .shutDown => if s.shutDown = .notCalled then some {s with shutDown := .stopping 0} else none
  | .send address =>
    match s.shutDown with
    | .stopping i =>
      if i < s.threads.length then
        (s.async ⟨address, badApple 0⟩).map fun t => {t with shutDown := .sending i s.queue.calls.length}
      else some {s with shutDown := .joining 0}
    | _ => none
  | .sent =>
    match s.shutDown with
    | .sending i k =>
      if (s.queue.phases[k]?).any Point.isReturned then some {s with shutDown := .stopping (i + 1)} else none
    | _ => none
  | .join =>
    match s.shutDown with
    | .joining i =>
      if s.threads[i]? = some .done then some {s with shutDown := .joining (i + 1)} else none
    | _ => none
  | .enter w =>
    if s.threads[w]? = some .loop then
      (BtsQueue.step before s.queue .dequeue).map fun queue =>
        {s with queue := queue, threads := s.threads.set w (.dequeue s.queue.calls.length)}
    else none
  | .queue l =>
    if BtsQueue.inner l then
      (BtsQueue.step before s.queue l).map fun queue =>
        {s with queue := queue, threads := deliver s.threads (s.queue.taken l)}
    else none
  | .run w =>
    match s.threads[w]? with
    | some (.run item) =>
      some {s with threads := s.threads.set w (if BADAPPLE = item.result then .done else .loop)}
    | _ => none

def machine (numOfThreads : ℕ) : Machine Locked Act := ⟨create numOfThreads, step⟩

/-- What it is for a pool whose queue is a list: an `Async` when its `Enqueue` pushes, a
`Dequeue` when it takes something, and `ShutDown`'s last test of its loop. -/
def toPool (s : Locked) : Act → Option Label
  | .async _ | .sent | .enter _ => none
  | .shutDown => some .shutDown
  | .send _ =>
    match s.shutDown with
    | .stopping i => if i < s.threads.length then none else some (.stop 0)
    | _ => none
  | .join => some .join
  | .queue l =>
    match s.queue.pushed l, s.queue.taken l with
    | some (k, item), _ => some (s.shutDown.pushes k item)
    | none, some (k, _) => some (.dequeue (s.threads.findIdx (Thread.isIn k)))
    | none, none => none
  | .run w => some (.run w)

variable {s s' : Locked}

/-! ### What one step can do -/

theorem async_cases {item : Item} (h : s.async item = some s') : s.fresh item.address = true ∧
    s' = {s with queue := {s.queue with calls := s.queue.calls ++ [.enqueue item]}} := by
  simp only [async] at h
  split at h
  case isTrue hfresh => exact ⟨hfresh, (Option.some.inj h).symm⟩
  case isFalse => cases h

theorem send_cases {address : ℕ} (h : s.step (.send address) = some s') :
    ∃ i, s.shutDown = .stopping i ∧
      ((i < s.threads.length ∧ ∃ t, s.async ⟨address, BADAPPLE⟩ = some t ∧
          s' = {t with shutDown := .sending i s.queue.calls.length}) ∨
        (¬i < s.threads.length ∧ s' = {s with shutDown := .joining 0})) := by
  simp only [step] at h
  split at h
  case h_1 i hi =>
    refine ⟨i, hi, ?_⟩
    split at h
    case isTrue hlt =>
      obtain ⟨t, ht, rfl⟩ := Option.map_eq_some_iff.mp h
      exact Or.inl ⟨hlt, t, ht, rfl⟩
    case isFalse hge => exact Or.inr ⟨hge, (Option.some.inj h).symm⟩
  case h_2 => cases h

theorem sent_cases (h : s.step .sent = some s') : ∃ i k, s.shutDown = .sending i k ∧
    (s.queue.phases[k]?).any Point.isReturned = true ∧ s' = {s with shutDown := .stopping (i + 1)} := by
  simp only [step] at h
  split at h
  case h_1 i k hi =>
    split at h
    case isTrue hreturned => exact ⟨i, k, hi, hreturned, (Option.some.inj h).symm⟩
    case isFalse => cases h
  case h_2 => cases h

theorem shutDown_cases (h : s.step .shutDown = some s') :
    s.shutDown = .notCalled ∧ s' = {s with shutDown := .stopping 0} := by
  simp only [step] at h
  split at h
  case isTrue hcall => exact ⟨hcall, (Option.some.inj h).symm⟩
  case isFalse => cases h

theorem join_cases (h : s.step .join = some s') : ∃ i, s.shutDown = .joining i ∧
    s.threads[i]? = some .done ∧ s' = {s with shutDown := .joining (i + 1)} := by
  simp only [step] at h
  split at h
  case h_1 i hi =>
    split at h
    case isTrue hdone => exact ⟨i, hi, hdone, (Option.some.inj h).symm⟩
    case isFalse => cases h
  case h_2 => cases h

theorem enter_cases {w : ℕ} (h : s.step (.enter w) = some s') : s.threads[w]? = some .loop ∧
    s' = { s with
      queue := {s.queue with calls := s.queue.calls ++ [.dequeue]}
      threads := s.threads.set w (.dequeue s.queue.calls.length) } := by
  simp only [step] at h
  split at h
  case isTrue hw => exact ⟨hw, (Option.some.inj h).symm⟩
  case isFalse => cases h

theorem queue_cases {l : BtsQueue.Label Item} (h : s.step (.queue l) = some s') :
    BtsQueue.inner l = true ∧ ∃ queue, BtsQueue.step before s.queue l = some queue ∧
      s' = {s with queue := queue, threads := deliver s.threads (s.queue.taken l)} := by
  simp only [step] at h
  split at h
  case isTrue hl =>
    obtain ⟨queue, hqueue, hs⟩ := Option.map_eq_some_iff.mp h
    exact ⟨hl, queue, hqueue, hs.symm⟩
  case isFalse => cases h

theorem run_cases {w : ℕ} (h : s.step (.run w) = some s') : ∃ item, s.threads[w]? = some (.run item) ∧
    s' = {s with threads := s.threads.set w (if BADAPPLE = item.result then .done else .loop)} := by
  simp only [step] at h
  split at h
  case h_1 item hw => exact ⟨item, hw, (Option.some.inj h).symm⟩
  case h_2 => cases h

end Locked

/-! ### What can be seen of a step -/

/-- What there is to see of the pool: not where in `Enqueue` or `Dequeue` a call is. -/
structure View where
  points : List Point
  queue : Multiset Item
  threads : List Thread
  shutDown : Caller

namespace View

def items (v : View) : Multiset Item :=
  (v.points : Multiset Point).filterMap Point.pending + v.queue +
    (v.threads : Multiset Thread).filterMap Thread.running

/-- A step of an `Enqueue` or a `Dequeue`, as it is seen, and what it is for the pool. -/
inductive Inner (v : View) : Option Label → View → Prop where
  | quiet : Inner v none v
  | push (k : ℕ) (item : Item) (hk : v.points[k]? = some (.invoked (.enqueue item))) :
      Inner v (some (v.shutDown.pushes k item)) { v with
        points := v.points.set k (.committed none)
        queue := item ::ₘ v.queue }
  | returns (k : ℕ) (hk : v.points[k]? = some (.committed none)) :
      Inner v none {v with points := v.points.set k .returned}
  | takes (k : ℕ) (item : Item) (queue : Multiset Item) (hk : v.points[k]? = some (.invoked .dequeue))
      (hqueue : v.queue = item ::ₘ queue) (htop : ∀ other ∈ queue, ¬before item other) :
      Inner v (some (.dequeue (v.threads.findIdx (Thread.isIn k)))) { v with
        points := v.points.set k .returned
        queue := queue
        threads := Locked.deliver v.threads (some (k, item)) }

/-- A step, as it is seen, and what it is for the pool. -/
inductive Turn (v : View) : Option Label → View → Prop where
  | async (item : Item) (hfresh : ∀ other ∈ v.items, other.address ≠ item.address) :
      Turn v none {v with points := v.points ++ [.invoked (.enqueue item)]}
  | shutDown (hcall : v.shutDown = .notCalled) :
      Turn v (some .shutDown) {v with shutDown := .stopping 0}
  | send (i : ℕ) (item : Item) (hi : v.shutDown = .stopping i) (hlt : i < v.threads.length)
      (hresult : item.result = BADAPPLE) (hfresh : ∀ other ∈ v.items, other.address ≠ item.address) :
      Turn v none { v with
        points := v.points ++ [.invoked (.enqueue item)]
        shutDown := .sending i v.points.length }
  | leave (i : ℕ) (hi : v.shutDown = .stopping i) (hge : ¬i < v.threads.length) :
      Turn v (some (.stop 0)) {v with shutDown := .joining 0}
  | sent (i k : ℕ) (hi : v.shutDown = .sending i k)
      (hreturned : (v.points[k]?).any Point.isReturned = true) :
      Turn v none {v with shutDown := .stopping (i + 1)}
  | join (i : ℕ) (hi : v.shutDown = .joining i) (hdone : v.threads[i]? = some .done) :
      Turn v (some .join) {v with shutDown := .joining (i + 1)}
  | enter (w : ℕ) (hw : v.threads[w]? = some .loop) : Turn v none { v with
      points := v.points ++ [.invoked .dequeue]
      threads := v.threads.set w (.dequeue v.points.length) }
  | inner (l : Option Label) (v' : View) (hinner : Inner v l v') : Turn v l v'
  | run (w : ℕ) (item : Item) (hw : v.threads[w]? = some (.run item)) : Turn v (some (.run w))
      {v with threads := v.threads.set w (if BADAPPLE = item.result then .done else .loop)}

end View

namespace Locked
variable {s s' : Locked}

def view (s : Locked) : View := ⟨s.queue.phases, s.queue.priqueue, s.threads, s.shutDown⟩

theorem fresh_view {address : ℕ} (h : s.fresh address = true) :
    ∀ other ∈ s.view.items, other.address ≠ address := fun other hother =>
  bne_iff_ne.mp (List.all_eq_true.mp h other hother)

theorem view_call (call : Sync.Call Item) (threads : List Thread) (caller : Caller) :
    view ⟨{s.queue with calls := s.queue.calls ++ [call]}, threads, caller⟩ =
      ⟨s.view.points ++ [BtsQueue.phase call], s.view.queue, threads, caller⟩ := by
  simp only [view, BtsQueue.phases, List.map_append, List.map_singleton]

theorem length_calls : s.queue.calls.length = s.view.points.length := (List.length_map _).symm

theorem inner_queue {l : BtsQueue.Label Item} (hs : s.step (.queue l) = some s') :
    s.view.Inner (s.toPool (.queue l)) s'.view := by
  obtain ⟨hl, queue, hqueue, rfl⟩ := queue_cases hs
  cases BtsQueue.effect_step hl hqueue with
  | quiet hnopush hnone hphases hsame =>
    have hpool : s.toPool (.queue l) = none := by simp only [toPool, hnopush, hnone]
    have hview : view ⟨queue, deliver s.threads (s.queue.taken l), s.shutDown⟩ = s.view := by
      simp only [view, hnone, deliver, hphases, hsame]
    rw [hview, hpool]
    exact .quiet
  | push k item hpushed hnone hk hphases hpush =>
    have hpool : s.toPool (.queue l) = some (s.view.shutDown.pushes k item) := by
      simp only [toPool, hpushed, view]
    have hview : view ⟨queue, deliver s.threads (s.queue.taken l), s.shutDown⟩ =
        {s.view with points := s.view.points.set k (.committed none), queue := item ::ₘ s.view.queue} := by
      simp only [view, hnone, deliver, hphases, hpush, Multiset.cons_coe]
    rw [hview, hpool]
    exact .push k item hk
  | returns k hnopush hnone hk hphases hsame =>
    have hpool : s.toPool (.queue l) = none := by simp only [toPool, hnopush, hnone]
    have hview : view ⟨queue, deliver s.threads (s.queue.taken l), s.shutDown⟩ =
        {s.view with points := s.view.points.set k .returned} := by
      simp only [view, hnone, deliver, hphases, hsame]
    rw [hview, hpool]
    exact .returns k hk
  | takes k item hnopush hsome hk hphases hpop htop =>
    have hpool : s.toPool (.queue l) = some (.dequeue (s.view.threads.findIdx (Thread.isIn k))) := by
      simp only [toPool, hnopush, hsome, view]
    have hview : view ⟨queue, deliver s.threads (s.queue.taken l), s.shutDown⟩ = { s.view with
        points := s.view.points.set k .returned
        queue := queue.priqueue
        threads := deliver s.view.threads (some (k, item)) } := by
      simp only [view, hsome, hphases]
    rw [hview, hpool]
    exact .takes k item queue.priqueue hk hpop htop

theorem step_turn {a : Act} (hs : s.step a = some s') : s.view.Turn (s.toPool a) s'.view := by
  cases a with
  | async item =>
    obtain ⟨hfresh, rfl⟩ := async_cases hs
    rw [view_call]
    exact .async item (fresh_view hfresh)
  | shutDown =>
    obtain ⟨hcall, rfl⟩ := shutDown_cases hs
    exact .shutDown hcall
  | send address =>
    obtain ⟨i, hi, ⟨hlt, t, ht, rfl⟩ | ⟨hge, rfl⟩⟩ := send_cases hs
    · obtain ⟨hfresh, rfl⟩ := async_cases ht
      have hpool : s.toPool (.send address) = none := by simp only [toPool, hi, hlt, if_true]
      rw [view_call, length_calls, hpool]
      exact .send i ⟨address, BADAPPLE⟩ hi hlt rfl (fresh_view hfresh)
    · have hpool : s.toPool (.send address) = some (.stop 0) := by simp only [toPool, hi, hge, if_false]
      rw [hpool]
      exact .leave i hi hge
  | sent =>
    obtain ⟨i, k, hi, hreturned, rfl⟩ := sent_cases hs
    exact .sent i k hi hreturned
  | join =>
    obtain ⟨i, hi, hdone, rfl⟩ := join_cases hs
    exact .join i hi hdone
  | enter w =>
    obtain ⟨hw, rfl⟩ := enter_cases hs
    rw [view_call, length_calls]
    exact .enter w hw
  | queue l => exact .inner _ s'.view (inner_queue hs)
  | run w =>
    obtain ⟨item, hw, rfl⟩ := run_cases hs
    exact .run w item hw

end Locked

/-! ### The invariant -/

namespace View
variable {v v' : View}

structure Sound (v : View) : Prop where
  /-- Tasks that are not forgotten are at different addresses. -/
  apart : (v.items.map Item.address).Nodup
  /-- In a `Dequeue` that has taken nothing is one worker, in any other call none. -/
  inside : ∀ k, v.threads.countP (Thread.isIn k) = if (v.points[k]?).any Point.isDequeue then 1 else 0
  noClear : ∀ point ∈ v.points, Point.isClear point = false
  stops : ∀ i k, v.shutDown = .sending i k →
    i < v.threads.length ∧ ∃ point, v.points[k]? = some point ∧ Point.Stops point

theorem isIn_self (k : ℕ) : Thread.isIn k (.dequeue k) = true := decide_eq_true rfl

theorem isIn_other {j k : ℕ} (hne : j ≠ k) : Thread.isIn k (.dequeue j) = false := decide_eq_false hne

/-- A thread goes from one point to another, neither of them in a `Dequeue`. -/
theorem isIn_set {threads : List Thread} {w k : ℕ} {old new : Thread} (hw : threads[w]? = some old)
    (hold : old.isIn k = false) (hnew : new.isIn k = false) :
    (threads.set w new).countP (Thread.isIn k) = threads.countP (Thread.isIn k) :=
  Bag.countP_set_same hw (hnew.trans hold.symm)

theorem sound_create (n : ℕ) : Sound (Locked.create n).view where
  apart := by
    have hnone : (List.replicate n Thread.loop).filterMap Thread.running = [] :=
      List.filterMap_replicate_of_none rfl
    simp only [items, Locked.view, Locked.create, Multiset.filterMap_coe, hnone]
    exact Multiset.nodup_zero
  inside := fun k => by
    simp [Locked.view, Locked.create, BtsQueue.phases, BtsQueue.create, List.countP_replicate, Thread.isIn]
  noClear := nofun
  stops := nofun

/-- The stop task on its way, if there is one, is not concerned. -/
theorem Sound.stops_append (h : Sound v) {i k : ℕ} (hi : v.shutDown = .sending i k) (point : Point) :
    i < v.threads.length ∧ ∃ old, (v.points ++ [point])[k]? = some old ∧ Point.Stops old := by
  obtain ⟨hlt, old, hk, hstops⟩ := h.stops i k hi
  obtain ⟨hlength, -⟩ := List.getElem?_eq_some_iff.mp hk
  exact ⟨hlt, old, by rw [List.getElem?_append_left hlength, hk], hstops⟩

theorem Sound.stops_set (h : Sound v) {i k j : ℕ} {point : Point} (hi : v.shutDown = .sending i k)
    (hstops : Point.Stops point) :
    i < v.threads.length ∧ ∃ old, (v.points.set j point)[k]? = some old ∧ Point.Stops old := by
  obtain ⟨hlt, old, hk, hold⟩ := h.stops i k hi
  refine ⟨hlt, ?_⟩
  by_cases hj : j = k
  · subst hj
    obtain ⟨hlength, -⟩ := List.getElem?_eq_some_iff.mp hk
    exact ⟨point, by simp [hlength], hstops⟩
  · exact ⟨old, by rw [List.getElem?_set_ne hj, hk], hold⟩

theorem Sound.noClear_append (h : Sound v) {point : Point} (hpoint : Point.isClear point = false) :
    ∀ old ∈ v.points ++ [point], Point.isClear old = false :=
  List.forall_mem_append.mpr ⟨h.noClear, List.forall_mem_singleton.mpr hpoint⟩

theorem Sound.noClear_set (h : Sound v) {k : ℕ} {point : Point} (hpoint : Point.isClear point = false) :
    ∀ old ∈ v.points.set k point, Point.isClear old = false := by
  intro old hold
  rcases Bag.mem_set hold with rfl | hold
  · exact hpoint
  · exact h.noClear old hold

/-- The worker that is in a `Dequeue`, and what it does when this returns. -/
theorem Sound.deliver (h : Sound v) {k : ℕ} (hk : v.points[k]? = some (.invoked .dequeue)) (item : Item) :
    v.threads[v.threads.findIdx (Thread.isIn k)]? = some (.dequeue k) ∧
      Locked.deliver v.threads (some (k, item)) =
        v.threads.set (v.threads.findIdx (Thread.isIn k)) (.run item) := by
  have hcount := h.inside k
  rw [hk, Option.any_some, show Point.isDequeue (.invoked .dequeue) = true from rfl, if_pos rfl] at hcount
  obtain ⟨thread, hmem, hin⟩ := List.countP_pos_iff.mp (hcount ▸ Nat.one_pos)
  have hlt : v.threads.findIdx (Thread.isIn k) < v.threads.length :=
    List.findIdx_lt_length_of_exists ⟨thread, hmem, hin⟩
  refine ⟨?_, rfl⟩
  have hfound := List.findIdx_getElem (w := hlt)
  rw [List.getElem?_eq_getElem hlt]
  cases hthread : v.threads[v.threads.findIdx (Thread.isIn k)] with
  | dequeue j =>
    rw [hthread] at hfound
    rw [of_decide_eq_true hfound]
  | _ =>
    rw [hthread] at hfound
    cases hfound

/-! What becomes of the tasks. -/

theorem items_async (item : Item) :
    items {v with points := v.points ++ [.invoked (.enqueue item)]} = item ::ₘ v.items := by
  have hpoints : ((v.points ++ [.invoked (.enqueue item)] : List Point) : Multiset Point) =
      .invoked (.enqueue item) ::ₘ (v.points : Multiset Point) :=
    Multiset.coe_eq_coe.mpr (List.perm_append_singleton _ _)
  simp only [items, hpoints]
  rw [Multiset.filterMap_cons_some Point.pending _ _ (b := item) rfl]
  simp only [Multiset.cons_add]

theorem items_enter {w k : ℕ} (hw : v.threads[w]? = some .loop) : items { v with
    points := v.points ++ [.invoked .dequeue]
    threads := v.threads.set w (.dequeue k) } = v.items := by
  have hpoints : ((v.points ++ [.invoked .dequeue] : List Point) : Multiset Point) =
      .invoked .dequeue ::ₘ (v.points : Multiset Point) :=
    Multiset.coe_eq_coe.mpr (List.perm_append_singleton _ _)
  simp only [items, hpoints, Bag.coe_set hw, Bag.coe_eq_cons hw]
  rw [Multiset.filterMap_cons_none _ _ rfl, Multiset.filterMap_cons_none (Thread.dequeue k) _ rfl,
    Multiset.filterMap_cons_none Thread.loop _ rfl]

theorem items_push {k : ℕ} {item : Item} (hk : v.points[k]? = some (.invoked (.enqueue item))) :
    items {v with points := v.points.set k (.committed none), queue := item ::ₘ v.queue} = v.items := by
  simp only [items, Bag.coe_set hk, Bag.coe_eq_cons hk]
  rw [Multiset.filterMap_cons_none _ _ rfl, Multiset.filterMap_cons_some Point.pending _ _ (b := item) rfl]
  simp only [Multiset.cons_add, Multiset.add_cons]

theorem items_returns {k : ℕ} {point : Point} (hk : v.points[k]? = some point)
    (hpoint : Point.pending point = none) :
    items {v with points := v.points.set k .returned} = v.items := by
  simp only [items, Bag.coe_set hk, Bag.coe_eq_cons hk]
  rw [Multiset.filterMap_cons_none _ _ rfl, Multiset.filterMap_cons_none _ _ hpoint]

theorem items_takes {w k : ℕ} {item : Item} {queue : Multiset Item} (hw : v.threads[w]? = some (.dequeue k))
    (hqueue : v.queue = item ::ₘ queue) :
    items {v with queue := queue, threads := v.threads.set w (.run item)} = v.items := by
  simp only [items, Bag.coe_set hw, Bag.coe_eq_cons hw, hqueue]
  rw [Multiset.filterMap_cons_some Thread.running _ _ (b := item) rfl,
    Multiset.filterMap_cons_none (Thread.dequeue k) _ rfl]
  simp only [Multiset.cons_add, Multiset.add_cons]

theorem running_next (item : Item) :
    Thread.running (if BADAPPLE = item.result then .done else .loop) = none := by
  split <;> rfl

theorem isIn_next (k : ℕ) (item : Item) :
    Thread.isIn k (if BADAPPLE = item.result then .done else .loop) = false := by
  split <;> rfl

theorem items_run {w : ℕ} {item : Item} (hw : v.threads[w]? = some (.run item)) :
    v.items = item ::ₘ items {v with
      threads := v.threads.set w (if BADAPPLE = item.result then .done else .loop)} := by
  simp only [items, Bag.coe_set hw, Bag.coe_eq_cons hw]
  rw [Multiset.filterMap_cons_some Thread.running _ _ (b := item) rfl,
    Multiset.filterMap_cons_none _ _ (running_next item)]
  simp only [Multiset.add_cons]

/-! One lemma for each kind of step. -/

theorem Sound.async {item : Item} (h : Sound v) (hfresh : ∀ other ∈ v.items, other.address ≠ item.address) :
    Sound {v with points := v.points ++ [.invoked (.enqueue item)]} where
  apart := by
    rw [items_async, Multiset.map_cons, Multiset.nodup_cons]
    refine ⟨fun hmem => ?_, h.apart⟩
    obtain ⟨other, hother, hsame⟩ := Multiset.mem_map.mp hmem
    exact hfresh other hother hsame
  inside := fun k => by
    have hinside := h.inside k
    dsimp only
    rwa [Bag.any_append_none rfl]
  noClear := h.noClear_append rfl
  stops := fun i k hi => h.stops_append hi _

theorem Sound.enter {w : ℕ} (h : Sound v) (hw : v.threads[w]? = some .loop) : Sound { v with
    points := v.points ++ [.invoked .dequeue]
    threads := v.threads.set w (.dequeue v.points.length) } where
  apart := by
    rw [items_enter hw]
    exact h.apart
  inside := fun k => by
    have hinside := h.inside k
    dsimp only
    rw [Bag.any_append]
    by_cases hk : k = v.points.length
    · subst hk
      rw [List.getElem?_eq_none (Nat.le_refl _)] at hinside
      rw [Bag.countP_set_enter hw rfl (isIn_self _), hinside, if_pos rfl]
      rfl
    · rw [isIn_set hw rfl (isIn_other (Ne.symm hk)), if_neg hk]
      exact hinside
  noClear := h.noClear_append rfl
  stops := fun i k hi => by
    rw [List.length_set]
    exact h.stops_append hi _

theorem Sound.push {k : ℕ} {item : Item} (h : Sound v)
    (hk : v.points[k]? = some (.invoked (.enqueue item))) :
    Sound {v with points := v.points.set k (.committed none), queue := item ::ₘ v.queue} where
  apart := by
    rw [items_push hk]
    exact h.apart
  inside := fun j => by
    have hinside := h.inside j
    dsimp only
    rwa [Bag.any_set_same (b := .committed none) hk rfl]
  noClear := h.noClear_set rfl
  stops := fun i j hi => h.stops_set hi trivial

theorem Sound.returns {k : ℕ} (h : Sound v) (hk : v.points[k]? = some (.committed none)) :
    Sound {v with points := v.points.set k .returned} where
  apart := by
    rw [items_returns hk rfl]
    exact h.apart
  inside := fun j => by
    have hinside := h.inside j
    dsimp only
    rwa [Bag.any_set_same (b := .returned) hk rfl]
  noClear := h.noClear_set rfl
  stops := fun i j hi => h.stops_set hi trivial

theorem Sound.takes {w k : ℕ} {item : Item} {queue : Multiset Item} (h : Sound v)
    (hk : v.points[k]? = some (.invoked .dequeue)) (hqueue : v.queue = item ::ₘ queue)
    (hw : v.threads[w]? = some (.dequeue k)) : Sound { v with
      points := v.points.set k .returned
      queue := queue
      threads := v.threads.set w (.run item) } where
  apart := by
    have hsame := items_takes (v := {v with points := v.points.set k .returned}) hw hqueue
    rw [hsame, items_returns hk rfl]
    exact h.apart
  inside := fun j => by
    have hinside := h.inside j
    dsimp only
    rw [Bag.any_set hk]
    by_cases hj : j = k
    · subst hj
      rw [hk] at hinside
      have hleave := Bag.countP_set_leave (b := .run item) hw (isIn_self j) rfl
      rw [hinside] at hleave
      rw [if_pos rfl]
      exact Nat.succ.inj hleave
    · rw [isIn_set hw (isIn_other (Ne.symm hj)) rfl, if_neg hj]
      exact hinside
  noClear := h.noClear_set rfl
  stops := fun i j hi => by
    rw [List.length_set]
    exact h.stops_set hi trivial

theorem Sound.run {w : ℕ} {item : Item} (h : Sound v) (hw : v.threads[w]? = some (.run item)) :
    Sound {v with threads := v.threads.set w (if BADAPPLE = item.result then .done else .loop)} where
  apart := by
    have hnodup := h.apart
    rw [items_run hw, Multiset.map_cons] at hnodup
    exact (Multiset.nodup_cons.mp hnodup).2
  inside := fun k => by
    rw [isIn_set hw rfl (isIn_next k item)]
    exact h.inside k
  noClear := h.noClear
  stops := fun i j hi => by
    rw [List.length_set]
    exact h.stops i j hi

/-- `ShutDown` goes on without anybody else. -/
theorem Sound.phase {caller : Caller} (h : Sound v) (hcaller : ∀ i k, caller ≠ .sending i k) :
    Sound {v with shutDown := caller} :=
  ⟨h.apart, h.inside, h.noClear, fun i k hi => absurd hi (hcaller i k)⟩

theorem sound_inner {l : Option Label} (h : Sound v) (hinner : v.Inner l v') : Sound v' := by
  cases hinner with
  | quiet => exact h
  | push k item hk => exact h.push hk
  | returns k hk => exact h.returns hk
  | takes k item queue hk hqueue =>
    obtain ⟨hw, hdeliver⟩ := h.deliver hk item
    rw [hdeliver]
    exact h.takes hk hqueue hw

theorem sound_turn {l : Option Label} (h : Sound v) (turn : v.Turn l v') : Sound v' := by
  cases turn with
  | async item hfresh => exact h.async hfresh
  | shutDown => exact h.phase nofun
  | send i item hi hlt hresult hfresh =>
    have hasync := h.async hfresh
    refine ⟨hasync.apart, hasync.inside, hasync.noClear, fun j k hj => ?_⟩
    obtain ⟨rfl, rfl⟩ := Caller.sending.inj hj
    exact ⟨hlt, _, List.getElem?_concat_length, hresult⟩
  | leave => exact h.phase nofun
  | sent => exact h.phase nofun
  | join => exact h.phase nofun
  | enter w hw => exact h.enter hw
  | inner l v' hinner => exact sound_inner h hinner
  | run w item hw => exact h.run hw

end View
end PrivateCloud.ThreadPool
