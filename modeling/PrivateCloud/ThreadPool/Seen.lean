import PrivateCloud.ThreadPool.Locked

/-! That the pool on its queue is a pool.

A call of the queue counts when it takes effect: an `Enqueue` when it pushes, a `Dequeue` when
it pops. With its steps counted so (`toPool`) a run of `Locked` is one of `Pool`
(`locked_refines`), and what no run of `Pool` does none of these does. -/
namespace PrivateCloud.ThreadPool
open Object (Phase)
open Sync (BtsQueue)

def Task.item (task : Task) : Item := ⟨task.address, task.result⟩

/-- A `Dequeue` that has taken nothing is nothing. -/
def Thread.seen : Thread → Thread
  | .dequeue _ => .loop
  | thread => thread

/-- A worker of `Pool`, as it is seen. -/
def Worker.seen : Worker → Thread
  | .dequeue => .loop
  | .run task => .run task.item
  | .done => .done

namespace View
variable {v v' : View} {p p' : Pool}

/-- Where `ShutDown` is for those who see its `Enqueue` only when it pushes. -/
def stage (v : View) : ShutDown :=
  match v.shutDown with
  | .notCalled => .notCalled
  | .stopping i => .stopping i
  | .sending i k => if (v.points[k]?).any Point.isPending then .stopping i else .stopping (i + 1)
  | .joining i => .joining i

/-- What the pool's own model makes of what is seen. -/
structure Sees (v : View) (p : Pool) : Prop where
  threads : v.threads.map Thread.seen = p.threads.map Worker.seen
  queue : v.queue = (p.tasks.map Task.item : Multiset Item)
  shutDown : p.shutDown = v.stage

theorem sees_create (n : ℕ) : Sees (Locked.create n).view (Pool.create n) where
  threads := by
    simp only [Locked.view, Locked.create, Pool.create, List.map_replicate]
    rfl
  queue := rfl
  shutDown := rfl

theorem Sees.length (h : Sees v p) : p.threads.length = v.threads.length := by
  have hlength := congrArg List.length h.threads
  rw [List.length_map, List.length_map] at hlength
  exact hlength.symm

/-- The worker of a thread. -/
theorem Sees.worker (h : Sees v p) {w : ℕ} {thread : Thread} (hw : v.threads[w]? = some thread) :
    ∃ worker, p.threads[w]? = some worker ∧ worker.seen = thread.seen := by
  have hmap := congrArg (·[w]?) h.threads
  simp only [List.getElem?_map, hw, Option.map_some] at hmap
  exact Option.map_eq_some_iff.mp hmap.symm

theorem Sees.set (h : Sees v p) {w : ℕ} {thread : Thread} {worker : Worker}
    (hsame : thread.seen = worker.seen) :
    (v.threads.set w thread).map Thread.seen = (p.threads.set w worker).map Worker.seen := by
  rw [List.map_set, List.map_set, h.threads, hsame]

/-- A thread goes on to where it looks the same. -/
theorem Sees.set_same (h : Sees v p) {w : ℕ} {old new : Thread} (hw : v.threads[w]? = some old)
    (hsame : new.seen = old.seen) :
    (v.threads.set w new).map Thread.seen = p.threads.map Worker.seen := by
  obtain ⟨hlt, rfl⟩ := List.getElem?_eq_some_iff.mp hw
  rw [List.map_set, hsame, ← List.map_set, List.set_getElem_self, h.threads]

theorem seen_running (worker : Worker) : (Pool.running worker).map Task.item = worker.seen.running := by
  cases worker with
  | _ => rfl

theorem running_seen (thread : Thread) : thread.seen.running = thread.running := by
  cases thread with
  | _ => rfl

/-- What runs, runs. -/
theorem Sees.running (h : Sees v p) :
    v.threads.filterMap Thread.running = (p.threads.filterMap Pool.running).map Task.item := by
  have hleft : v.threads.filterMap Thread.running = (v.threads.map Thread.seen).filterMap Thread.running := by
    rw [List.filterMap_map]
    exact List.filterMap_congr fun thread _ => (running_seen thread).symm
  have hright : (p.threads.filterMap Pool.running).map Task.item =
      (p.threads.map Worker.seen).filterMap Thread.running := by
    rw [List.map_filterMap, List.filterMap_map]
    exact List.filterMap_congr fun worker _ => seen_running worker
  rw [hleft, hright, h.threads]

theorem Sees.queue_cons (h : Sees v p) {item : Item} {tasks : List Task} {serial : ℕ}
    (htasks : tasks = ⟨item.address, item.result, serial⟩ :: p.tasks) :
    item ::ₘ v.queue = (tasks.map Task.item : Multiset Item) := by
  rw [h.queue, htasks, List.map_cons, Multiset.cons_coe]
  rfl

/-- What is about to be pushed is at no address in use. -/
theorem Sees.fresh (h : Sees v p) (hsound : Sound v) {k : ℕ} {item : Item}
    (hk : v.points[k]? = some (.invoked (.enqueue item))) : p.fresh item.address = true := by
  have hnodup := hsound.apart
  have hitems : v.items = item ::ₘ
      (((v.points.eraseIdx k : List Point) : Multiset Point).filterMap Point.pending + v.queue +
        (v.threads : Multiset Thread).filterMap Thread.running) := by
    simp only [items, Bag.coe_eq_cons hk]
    rw [Multiset.filterMap_cons_some Point.pending _ _ (b := item) rfl]
    simp only [Multiset.cons_add]
  rw [hitems, Multiset.map_cons] at hnodup
  have hnew := (Multiset.nodup_cons.mp hnodup).1
  refine List.all_eq_true.mpr fun task htask => bne_iff_ne.mpr fun hsame => hnew ?_
  refine Multiset.mem_map.mpr ⟨task.item, ?_, hsame⟩
  rw [Multiset.mem_add, Multiset.mem_add]
  rcases List.mem_append.mp htask with htask | htask
  · rw [h.queue]
    exact Or.inl (Or.inr (Multiset.mem_coe.mpr (List.mem_map_of_mem htask)))
  · have hrunning : task.item ∈ v.threads.filterMap Thread.running :=
      h.running ▸ List.mem_map_of_mem htask
    exact Or.inr (Multiset.mem_coe.mpr hrunning)

/-- What a `Dequeue` takes is on top. -/
theorem Sees.top (h : Sees v p) (hsound : Sound v) {item : Item} {queue : Multiset Item}
    (hqueue : v.queue = item ::ₘ queue) (htop : ∀ other ∈ queue, ¬before item other) :
    ∃ task, p.top = some task ∧ task.item = item := by
  have hmem : item ∈ v.queue := hqueue ▸ Multiset.mem_cons_self item queue
  have hmem' := h.queue ▸ hmem
  obtain ⟨mine, hmine, hitem⟩ := List.mem_map.mp (Multiset.mem_coe.mp hmem')
  cases hp : p.top with
  | none =>
    rw [List.argmax_eq_none.mp hp] at hmine
    cases hmine
  | some task =>
    refine ⟨task, rfl, ?_⟩
    have hin : task.item ∈ v.queue := h.queue ▸ Multiset.mem_coe.mpr (List.mem_map_of_mem (Pool.top_mem hp))
    rcases Multiset.mem_cons.mp (hqueue ▸ hin) with hsame | hother
    · exact hsame
    · -- Neither is below the other, and there is one task at an address.
      have hle : item.address ≤ task.item.address := hitem ▸ Pool.le_top hp hmine
      have hge : ¬item.address < task.item.address := htop task.item hother
      have hitems {other : Item} (hother : other ∈ v.queue) : other ∈ v.items :=
        Multiset.mem_add.mpr (Or.inl (Multiset.mem_add.mpr (Or.inr hother)))
      exact Multiset.inj_on_of_nodup_map hsound.apart _ (hitems hin) _ (hitems hmem) (by omega)

/-- `ShutDown` is where it was when its `Enqueue` is. -/
theorem stage_points {points : List Point} (h : ∀ i k, v.shutDown = .sending i k →
      (points[k]?).any Point.isPending = (v.points[k]?).any Point.isPending) :
    stage {v with points := points} = v.stage := by
  unfold stage
  dsimp only
  split
  case h_3 i k hi => rw [h i k hi]
  all_goals rfl

theorem Sound.stage_append (h : Sound v) {point : Point} :
    stage {v with points := v.points ++ [point]} = v.stage := by
  refine stage_points fun i k hi => ?_
  obtain ⟨-, old, hk, -⟩ := h.stops i k hi
  obtain ⟨hlt, -⟩ := List.getElem?_eq_some_iff.mp hk
  rw [List.getElem?_append_left hlt]

theorem pushes_other {k : ℕ} {item : Item} (hother : ∀ i, v.shutDown ≠ .sending i k) :
    v.shutDown.pushes k item = .async item.result item.address := by
  cases hi : v.shutDown with
  | sending i j =>
    have hne : j ≠ k := fun hj => hother i (hj ▸ hi)
    exact if_neg hne
  | _ => rfl

/-! A turn is the step of the pool that it says, or none. -/

/-- An `Async` of `ShutDown` queues its stop task. -/
theorem Sees.push_stop (h : Sees v p) (hsound : Sound v) {i k : ℕ} {item : Item}
    (hk : v.points[k]? = some (.invoked (.enqueue item))) (hi : v.shutDown = .sending i k) :
    ∃ p', p.step (.stop item.address) = some p' ∧
      Sees {v with points := v.points.set k (.committed none), queue := item ::ₘ v.queue} p' := by
  have hasync : (p.async (badApple 0) item.address).isSome = true := by
    simp only [Pool.async, h.fresh hsound hk, if_true, Option.isSome_some]
  obtain ⟨hlt, point, hpoint, hstops⟩ := hsound.stops i k hi
  obtain rfl := Option.some.inj (hpoint.symm.trans hk)
  have hstop : badApple 0 = item.result := Eq.symm hstops
  have hstage : v.stage = .stopping i := by
    simp only [stage, hi, hk, Option.any_some]
    rfl
  obtain ⟨u, hu⟩ := Option.isSome_iff_exists.mp hasync
  refine ⟨{u with shutDown := .stopping (i + 1)}, ?_, ?_, ?_, ?_⟩
  · simp only [Pool.step, h.shutDown.trans hstage, h.length, hlt, if_true, hu, Option.map_some]
  · rw [Pool.async_cases hu]
    exact h.threads
  · rw [Pool.async_cases hu, hstop]
    exact h.queue_cons rfl
  · simp only [stage, hi]
    rw [Bag.any_set hk, if_pos rfl]
    rfl

theorem Sees.push (h : Sees v p) (hsound : Sound v) {k : ℕ} {item : Item}
    (hk : v.points[k]? = some (.invoked (.enqueue item))) :
    ∃ p', p.step (v.shutDown.pushes k item) = some p' ∧
      Sees {v with points := v.points.set k (.committed none), queue := item ::ₘ v.queue} p' := by
  by_cases hmine : ∃ i, v.shutDown = .sending i k
  · obtain ⟨i, hi⟩ := hmine
    have hpushes : v.shutDown.pushes k item = .stop item.address := by
      rw [hi]
      exact if_pos rfl
    rw [hpushes]
    exact h.push_stop hsound hk hi
  · have hother : ∀ i, v.shutDown ≠ .sending i k := not_exists.mp hmine
    have hasync : (p.async item.result item.address).isSome = true := by
      simp only [Pool.async, h.fresh hsound hk, if_true, Option.isSome_some]
    obtain ⟨u, hu⟩ := Option.isSome_iff_exists.mp hasync
    rw [pushes_other hother]
    refine ⟨u, hu, ?_, ?_, ?_⟩
    · rw [Pool.async_cases hu]
      exact h.threads
    · rw [Pool.async_cases hu]
      exact h.queue_cons rfl
    · rw [Pool.async_cases hu]
      refine h.shutDown.trans (Eq.symm (stage_points fun i j hi => ?_))
      have hne : j ≠ k := fun hj => hother i (hj ▸ hi)
      rw [Bag.any_set hk, if_neg hne]

/-- The worker whose `Dequeue` pops has taken the task on top. -/
theorem Sees.takes (h : Sees v p) (hsound : Sound v) {w k : ℕ} {item : Item} {queue : Multiset Item}
    (hk : v.points[k]? = some (.invoked .dequeue)) (hqueue : v.queue = item ::ₘ queue)
    (htop : ∀ other ∈ queue, ¬before item other) (hw : v.threads[w]? = some (.dequeue k)) :
    ∃ p', p.step (.dequeue w) = some p' ∧ Sees { v with
      points := v.points.set k .returned
      queue := queue
      threads := v.threads.set w (.run item) } p' := by
  obtain ⟨task, htask, rfl⟩ := h.top hsound hqueue htop
  obtain ⟨worker, hworker, hsame⟩ := h.worker hw
  cases worker with
  | dequeue =>
    refine ⟨{p with threads := p.threads.set w (.run task), tasks := p.tasks.erase task}, ?_, ?_, ?_, ?_⟩
    · simp only [Pool.step, hworker, htask]
    · exact h.set rfl
    · have hold := h.queue
      rw [hqueue, ← Multiset.map_coe, Bag.coe_erase (Pool.top_mem htask), Multiset.map_cons] at hold
      exact (Multiset.cons_inj_right _).mp hold
    · refine h.shutDown.trans (Eq.symm (stage_points fun i j _ => ?_))
      exact Bag.any_set_same (p := Point.isPending) (b := .returned) hk rfl j
  | run => cases hsame
  | done => cases hsame

theorem seen_next (task : Task) : Thread.seen (if BADAPPLE = task.item.result then .done else .loop) =
    Worker.seen (if BADAPPLE = task.result then .done else .dequeue) := by
  by_cases hstop : BADAPPLE = task.result
  · have hitem : BADAPPLE = task.item.result := hstop
    rw [if_pos hitem, if_pos hstop]
    rfl
  · have hitem : ¬BADAPPLE = task.item.result := hstop
    rw [if_neg hitem, if_neg hstop]
    rfl

theorem sees_inner {l : Option Label} (h : Sees v p) (hsound : Sound v) (hinner : v.Inner l v') :
    ∃ p', Machine.maybe Pool.step p l = some p' ∧ Sees v' p' := by
  cases hinner with
  | quiet => exact ⟨p, rfl, h⟩
  | push k item hk => exact h.push hsound hk
  | returns k hk =>
    refine ⟨p, rfl, h.threads, h.queue, h.shutDown.trans (Eq.symm (stage_points fun i j _ => ?_))⟩
    exact Bag.any_set_same (p := Point.isPending) (b := .returned) hk rfl j
  | takes k item queue hk hqueue htop =>
    obtain ⟨hw, hdeliver⟩ := hsound.deliver hk item
    rw [hdeliver]
    exact h.takes hsound hk hqueue htop hw

theorem sees_turn {l : Option Label} (h : Sees v p) (hsound : Sound v) (turn : v.Turn l v') :
    ∃ p', Machine.maybe Pool.step p l = some p' ∧ Sees v' p' := by
  cases turn with
  | async item hfresh =>
    exact ⟨p, rfl, h.threads, h.queue, h.shutDown.trans hsound.stage_append.symm⟩
  | shutDown hcall =>
    have hp : p.shutDown = .notCalled := by rw [h.shutDown, stage, hcall]
    refine ⟨{p with shutDown := .stopping 0}, ?_, h.threads, h.queue, rfl⟩
    simp only [Machine.maybe, Pool.step, hp, if_true]
  | send i item hi hlt hresult hfresh =>
    refine ⟨p, rfl, h.threads, h.queue, h.shutDown.trans ?_⟩
    simp only [stage, hi, List.getElem?_concat_length, Option.any_some]
    rfl
  | leave i hi hge =>
    have hp : p.shutDown = .stopping i := by rw [h.shutDown, stage, hi]
    refine ⟨{p with shutDown := .joining 0}, ?_, h.threads, h.queue, rfl⟩
    simp only [Machine.maybe, Pool.step, hp, h.length, hge, if_false]
  | sent i k hi hreturned =>
    refine ⟨p, rfl, h.threads, h.queue, h.shutDown.trans ?_⟩
    obtain ⟨point, hk, hpoint⟩ := (Option.any_eq_true _ _).mp hreturned
    cases point with
    | returned =>
      simp only [stage, hi, hk, Option.any_some]
      rfl
    | _ => cases hpoint
  | join i hi hdone =>
    have hp : p.shutDown = .joining i := by rw [h.shutDown, stage, hi]
    obtain ⟨worker, hworker, hsame⟩ := h.worker hdone
    cases worker with
    | done =>
      refine ⟨{p with shutDown := .joining (i + 1)}, ?_, h.threads, h.queue, rfl⟩
      simp only [Machine.maybe, Pool.step, hp, hworker, if_true]
    | _ => cases hsame
  | enter w hw =>
    exact ⟨p, rfl, h.set_same hw rfl, h.queue, h.shutDown.trans hsound.stage_append.symm⟩
  | inner l v' hinner => exact sees_inner h hsound hinner
  | run w item hw =>
    obtain ⟨worker, hworker, hsame⟩ := h.worker hw
    cases worker with
    | run task =>
      obtain rfl := Thread.run.inj hsame
      refine ⟨{ p with
        threads := p.threads.set w (if BADAPPLE = task.result then .done else .dequeue)
        ran := task :: p.ran }, ?_, h.set ?_, h.queue, h.shutDown⟩
      · simp only [Machine.maybe, Pool.step, hworker]
      · exact seen_next task
    | _ => cases hsame

end View

namespace Locked
variable {s : Locked}

/-- The pool beside the pool on its queue, through a whole run. -/
theorem run_sees {n : ℕ} {trace : List (Locked × Act)} (run : (machine n).Run (create n) trace s) :
    ∃ rest p, (Pool.machine n).Run (Pool.create n) rest p ∧
      rest.map Prod.snd = Machine.roles toPool trace ∧ s.view.Sound ∧ s.view.Sees p := by
  refine run.refines toPool (R := fun _ s p => s.view.Sound ∧ s.view.Sees p) (r := fun _ _ => True)
    ⟨View.sound_create n, View.sees_create n⟩ ?_ fun _ _ => trivial
  intro _ t a u p ht _ hs
  obtain ⟨hsound, hsees⟩ := ht
  obtain ⟨p', hp', hsees'⟩ := View.sees_turn hsees hsound (step_turn hs)
  exact ⟨p', hp', View.sound_turn hsound (step_turn hs), hsees'⟩

/-! ### What was accepted and what was run -/

/-- The task that is pushed while `ShutDown` has not been called. -/
def accepts (s : Locked) : Act → Option Item
  | .queue l => if s.shutDown = .notCalled then (s.queue.pushed l).map Prod.snd else none
  | _ => none

/-- The task whose function a worker runs. -/
def runs (s : Locked) : Act → Option Item
  | .run w => (s.threads[w]?).bind Thread.running
  | _ => none

/-- The pool has accepted and run these tasks of the queue's. -/
structure Recorded (trace : List (Locked × Act)) (p : Pool) : Prop where
  accepted : p.accepted.map Task.item = (Machine.roles accepts trace).reverse
  ran : p.ran.map Task.item = (Machine.roles runs trace).reverse

variable {s' : Locked} {p p' : Pool}

theorem stage_notCalled (v : View) : v.stage = .notCalled ↔ v.shutDown = .notCalled := by
  unfold View.stage
  split
  case h_3 i k hi =>
    rw [hi]
    split <;> exact ⟨nofun, nofun⟩
  all_goals simp [*]

theorem pushes_cases (caller : Caller) (k : ℕ) (item : Item) :
    caller.pushes k item = .async item.result item.address ∨
      caller ≠ .notCalled ∧ caller.pushes k item = .stop item.address := by
  cases caller with
  | sending i j =>
    by_cases hj : j = k
    · exact Or.inr ⟨nofun, if_pos hj⟩
    · exact Or.inl (if_neg hj)
  | _ => exact Or.inl rfl

/-- Only a push of a client's is on record. -/
theorem accepted_push (hsees : s.view.Sees p) {k : ℕ} {item : Item}
    (hp : p.step (s.shutDown.pushes k item) = some p') : p'.ran = p.ran ∧
      p'.accepted.map Task.item =
        (if s.shutDown = .notCalled then [item] else []) ++ p.accepted.map Task.item := by
  have hcalled : p.shutDown = .notCalled ↔ s.shutDown = .notCalled := by
    rw [hsees.shutDown, stage_notCalled]
    rfl
  rcases pushes_cases s.shutDown k item with hclient | ⟨hne, hstop⟩
  · rw [hclient] at hp
    have hp : p.async item.result item.address = some p' := hp
    rw [Pool.async_cases hp]
    refine ⟨rfl, ?_⟩
    simp only [hcalled]
    split <;> rfl
  · rw [hstop] at hp
    rw [if_neg hne, List.nil_append]
    have hne : p.shutDown ≠ .notCalled := fun hcon => hne (hcalled.mp hcon)
    obtain ⟨i, -, ⟨u, hu, rfl⟩ | rfl⟩ := Pool.stop_cases hp
    · rw [Pool.async_cases hu]
      exact ⟨rfl, by simp only [if_neg hne]⟩
    · exact ⟨rfl, rfl⟩

/-- A step puts on the pool's record what it is for the queue's. -/
theorem recorded_step {a : Act} (hsees : s.view.Sees p) (hs : s.step a = some s')
    (hp : Machine.maybe Pool.step p (s.toPool a) = some p') :
    p'.accepted.map Task.item = (s.accepts a).toList ++ p.accepted.map Task.item ∧
      p'.ran.map Task.item = (s.runs a).toList ++ p.ran.map Task.item := by
  cases a with
  | async | sent | enter =>
    obtain rfl := Option.some.inj hp
    exact ⟨rfl, rfl⟩
  | shutDown =>
    obtain ⟨-, rfl⟩ := Pool.shutDown_cases hp
    exact ⟨rfl, rfl⟩
  | join =>
    obtain ⟨i, -, -, rfl⟩ := Pool.join_cases hp
    exact ⟨rfl, rfl⟩
  | send address =>
    obtain ⟨i, hi, ⟨hlt, -⟩ | ⟨hge, -⟩⟩ := send_cases hs
    · simp only [toPool, hi, hlt, if_true] at hp
      obtain rfl := Option.some.inj hp
      exact ⟨rfl, rfl⟩
    · simp only [toPool, hi, hge, if_false] at hp
      obtain ⟨j, hj, ⟨u, hu, rfl⟩ | rfl⟩ := Pool.stop_cases hp
      · have hne : p.shutDown ≠ .notCalled := by
          intro hcon
          cases hj.symm.trans hcon
        rw [Pool.async_cases hu]
        exact ⟨by simp only [if_neg hne]; rfl, rfl⟩
      · exact ⟨rfl, rfl⟩
  | queue l =>
    cases hpushed : s.queue.pushed l with
    | some e =>
      obtain ⟨k, item⟩ := e
      simp only [toPool, hpushed] at hp
      obtain ⟨hran, haccepted⟩ := accepted_push hsees hp
      refine ⟨?_, by rw [hran]; rfl⟩
      rw [haccepted]
      simp only [accepts, hpushed, Option.map_some]
      split <;> rfl
    | none =>
      have hnone : s.accepts (.queue l) = none := by simp [accepts, hpushed]
      rw [hnone]
      cases htaken : s.queue.taken l with
      | none =>
        simp only [toPool, hpushed, htaken] at hp
        obtain rfl := Option.some.inj hp
        exact ⟨rfl, rfl⟩
      | some e =>
        simp only [toPool, hpushed, htaken] at hp
        obtain ⟨task, -, -, rfl⟩ := Pool.dequeue_cases hp
        exact ⟨rfl, rfl⟩
  | run w =>
    obtain ⟨item, hw, -⟩ := run_cases hs
    obtain ⟨task, hworker, rfl⟩ := Pool.run_cases hp
    obtain ⟨worker, hworker', hsame⟩ := hsees.worker hw
    obtain rfl := Option.some.inj (hworker.symm.trans hworker')
    obtain rfl := Thread.run.inj hsame
    refine ⟨rfl, ?_⟩
    simp only [runs, hw, Option.bind_some]
    rfl

/-- **The pool on its queue does what the pool does**: whatever the mutex and the condition
variable make of a run, it is the run of `Pool` in which there is an `Async` for each `Enqueue`
that pushes, a `Dequeue` for each that pops, and what `ShutDown` and the workers do by
themselves, in this order and nothing else; and what that has accepted and run are the tasks
that were pushed and run here. -/
theorem locked_refines (n : ℕ) {trace : List (Locked × Act)} (run : (machine n).Run (create n) trace s) :
    ∃ rest p, (Pool.machine n).Run (Pool.create n) rest p ∧
      rest.map Prod.snd = Machine.roles toPool trace ∧
      s.view.Sound ∧ s.view.Sees p ∧ Recorded trace p := by
  refine run.refines toPool (R := fun trace s p => s.view.Sound ∧ s.view.Sees p ∧ Recorded trace p)
    (r := fun _ _ => True) ⟨View.sound_create n, View.sees_create n, ⟨rfl, rfl⟩⟩ ?_ fun _ _ => trivial
  intro trace t a u p ht _ hs
  obtain ⟨hsound, hsees, hrecorded⟩ := ht
  obtain ⟨p', hp', hsees'⟩ := View.sees_turn hsees hsound (step_turn hs)
  obtain ⟨haccepted, hran⟩ := recorded_step hsees hs hp'
  refine ⟨p', hp', View.sound_turn hsound (step_turn hs), hsees', ?_, ?_⟩
  · rw [haccepted, hrecorded.accepted, Machine.roles_snoc, List.reverse_append]
    cases t.accepts a <;> rfl
  · rw [hran, hrecorded.ran, Machine.roles_snoc, List.reverse_append]
    cases t.runs a <;> rfl

/-- The one worker sleeps until a client's task comes, and later takes the stop task of
`ShutDown`, which joins it. -/
def wokenUp : List Act :=
  [.enter 0, .queue (.lock 0), .queue (.test 0 0), .async ⟨64, 5⟩, .queue (.lock 1), .queue (.push 1),
    .queue (.notify 1 (some 0)), .queue (.lock 0), .queue (.test 0 0), .run 0, .shutDown, .send 32,
    .queue (.lock 2), .queue (.push 2), .queue (.notify 2 none), .sent, .send 0, .enter 0,
    .queue (.lock 3), .queue (.test 3 0), .run 0, .join]

theorem locked_refines_wokenUp : ∃ trace s, (machine 1).Run (create 1) trace s ∧ s.threads = [.done] ∧
    Machine.roles toPool trace = [.async 5 64, .dequeue 0, .run 0, .shutDown, .stop 32, .stop 0,
      .dequeue 0, .run 0, .join] ∧
    ∃ rest p, (Pool.machine 1).Run (Pool.create 1) rest p ∧
      rest.map Prod.snd = Machine.roles toPool trace ∧
      s.view.Sound ∧ s.view.Sees p ∧ Recorded trace p := by
  obtain ⟨trace, s, run, h⟩ := Machine.run_of_replay (machine 1) (create 1) wokenUp
    (fun e => decide (e.2.threads = [.done] ∧ Machine.roles toPool e.1 = [.async 5 64, .dequeue 0,
      .run 0, .shutDown, .stop 32, .stop 0, .dequeue 0, .run 0, .join])) (by decide +kernel)
  obtain ⟨hdone, hroles⟩ := of_decide_eq_true h
  exact ⟨trace, s, run, hdone, hroles, locked_refines 1 run⟩

end Locked
end PrivateCloud.ThreadPool
