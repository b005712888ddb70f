import PrivateCloud.Dispatch.Completion
import PrivateCloud.Dispatch.Striping

/-! The tasks of one request, among all the others.

`Striping` runs the tasks of a request alone. In the system they run beside those of other
requests, beside the nodes and the reactor, and their request may be answered and freed under
them. `tasks_stripe` says that this changes nothing about them: what a run of the system does
with the tasks of a request is a run of theirs, step for step, and it sends the same messages
in the same order. So what `striping` says of the one holds of the other. -/
namespace PrivateCloud.Dispatch
open Nbd Host

def Pc.alone : Pc → Striping.Pc
  | .test => .test
  | .body => .body

/-- A task of request `c`, without its owner. -/
def Task.alone (c : ℕ) (task : Task) : Option Striping.Task :=
  if task.owner = c then some ⟨task.info, task.i, task.pc.alone⟩ else none

/-- The tasks that have not returned. -/
def Striping.working (tasks : List Striping.Task) : Multiset Striping.Task :=
  (tasks : Multiset Striping.Task).filter fun task => task.pc ≠ .returned

namespace Striping
variable {tasks : List Striping.Task} {k : ℕ} {task : Striping.Task}

theorem working_eq (hk : tasks[k]? = some task) (hpc : task.pc ≠ .returned) :
    working tasks = task ::ₘ working (tasks.eraseIdx k) := by
  rw [working, Bag.coe_eq_cons hk]
  exact Multiset.filter_cons_of_pos _ hpc

/-- A task handed over. -/
theorem working_append (tasks : List Striping.Task) (info : SendMsgInfo) (i : UInt32) :
    working (tasks ++ [⟨info, i, .test⟩]) = ⟨info, i, .test⟩ ::ₘ working tasks := by
  rw [working, ← Multiset.coe_add, Multiset.filter_add, add_comm]
  rfl

theorem working_set (hk : tasks[k]? = some task) {task' : Striping.Task} (hpc : task'.pc ≠ .returned) :
    working (tasks.set k task') = task' ::ₘ working (tasks.eraseIdx k) := by
  rw [working, Bag.coe_set hk]
  exact Multiset.filter_cons_of_pos _ hpc

theorem working_return (hk : tasks[k]? = some task) {task' : Striping.Task} (hpc : task'.pc = .returned) :
    working (tasks.set k task') = working (tasks.eraseIdx k) := by
  rw [working, Bag.coe_set hk]
  exact Multiset.filter_cons_of_neg _ (not_not_intro hpc)

end Striping

/-- Which task of its request a task is: it takes every eighth fragment. -/
def Task.number (task : Task) : ℕ := task.i.toNat % 8

namespace System

/-- What a step is to the tasks of request `c`. -/
def stripes (c : ℕ) (s : System) : Label → Option Striping.Label
  | .async => (s.queueing.head?.filter fun task => task.owner = c).map fun _ => .async
  | .test k _ => (s.tasks[k]?.filter fun task => task.owner = c).map fun task => .test (task.number)
  | .send k _ => (s.tasks[k]?.filter fun task => task.owner = c).map fun task => .send (task.number)
  | _ => none

/-- What a step sends for request `c`. -/
def sends (c : ℕ) (s : System) : Label → Option Striping.Sent
  | .send k junk => (s.tasks[k]?.filter fun task => task.owner = c).bind fun task =>
    (creators.create task.info.atlasHeader.type).map fun command =>
      ⟨task.number, task.info, command.sendRequest (s.dataBufAt c junk) task.info⟩
  | _ => none

/-- The same request, and of a WRITE the same data. -/
structure SameWrite (h h' : RequestHost) : Prop extends SameRequest h h' where
  buffer : h.nbqReq.nbdReq.reqType = NBD_CMD_WRITE → h'.nbqReq.nbdReq.dataBuf = h.nbqReq.nbdReq.dataBuf

/-- What is left of the tasks of request `c`. -/
def tasksFor (c : ℕ) (tasks : List Task) : Multiset Striping.Task :=
  (tasks : Multiset Task).filterMap (Task.alone c)

/-- The system and the tasks of its request `c` alone, which was `h` when it came. -/
structure Stripes (h : RequestHost) (c : ℕ) (trace : List (System × Label)) (s : System)
    (a : Striping.State) : Prop where
  inv : Inv s
  created : c < s.disp.created
  same : SameWrite h (s.host c)
  queueing : s.queueing.filter (fun task => task.owner = c) =
    a.queueing.map fun info => ⟨c, info, info.atlasHeader.fragmentUid, .test⟩
  handed : a.queueing = h.distribute.drop a.tasks.length
  tasks : tasksFor c s.tasks = Striping.working a.tasks
  number : ∀ k task, a.tasks[k]? = some task → task.i.toNat % 8 = k
  sent : a.sent = Machine.roles (sends c) trace

variable {h : RequestHost} {c : ℕ} {s s' : System} {a : Striping.State} {trace : List (System × Label)}

theorem alone_of {task : Task} (hc : task.owner = c) :
    task.alone c = some ⟨task.info, task.i, task.pc.alone⟩ := if_pos hc

theorem alone_other {task : Task} (hc : task.owner ≠ c) : task.alone c = none := if_neg hc

theorem number_turn (i : UInt32) : (i + numOfIot).toNat % 8 = i.toNat % 8 := by
  rw [UInt32.toNat_add]
  show (i.toNat + 8) % 2 ^ 32 % 8 = _
  omega

/-! ### A task and its number -/

theorem tasksFor_cons {task : Task} (tasks : List Task) (hc : task.owner = c) :
    tasksFor c (task :: tasks) = ⟨task.info, task.i, task.pc.alone⟩ ::ₘ tasksFor c tasks := by
  rw [tasksFor, ← Multiset.cons_coe]
  exact Multiset.filterMap_cons_some _ _ _ (alone_of hc)

theorem tasksFor_cons_other {task : Task} (tasks : List Task) (hc : task.owner ≠ c) :
    tasksFor c (task :: tasks) = tasksFor c tasks := by
  rw [tasksFor, ← Multiset.cons_coe]
  exact Multiset.filterMap_cons_none _ _ (alone_other hc)

theorem tasksFor_set {k : ℕ} {task task' : Task} (hk : s.tasks[k]? = some task) (hc : task'.owner = c) :
    tasksFor c (s.tasks.set k task') =
      ⟨task'.info, task'.i, task'.pc.alone⟩ ::ₘ tasksFor c (s.tasks.eraseIdx k) := by
  rw [tasksFor, Bag.coe_set hk]
  exact Multiset.filterMap_cons_some _ _ _ (alone_of hc)

/-- Another request's task may become what it likes, as long as it stays that. -/
theorem tasksFor_set_other {k : ℕ} {task task' : Task} (hk : s.tasks[k]? = some task) (hc : task.owner ≠ c)
    (hsame : task'.owner = task.owner) : tasksFor c (s.tasks.set k task') = tasksFor c s.tasks := by
  rw [tasksFor, tasksFor, Bag.coe_set hk, Bag.coe_eq_cons hk,
    Multiset.filterMap_cons_none _ _ (alone_other (hsame ▸ hc)),
    Multiset.filterMap_cons_none _ _ (alone_other hc)]

theorem tasksFor_erase_other {k : ℕ} {task : Task} (hk : s.tasks[k]? = some task) (hc : task.owner ≠ c) :
    tasksFor c (s.tasks.eraseIdx k) = tasksFor c s.tasks := by
  rw [tasksFor, tasksFor, Bag.coe_eq_cons hk, Multiset.filterMap_cons_none _ _ (alone_other hc)]

/-- Where the task at `k` is among the tasks of its request, and what the others are. -/
theorem Stripes.place (hst : Stripes h c trace s a) {k : ℕ} {task : Task} (hk : s.tasks[k]? = some task)
    (hc : task.owner = c) :
    a.tasks[task.number]? = some ⟨task.info, task.i, task.pc.alone⟩ ∧
      tasksFor c (s.tasks.eraseIdx k) = Striping.working (a.tasks.eraseIdx task.number) := by
  have htasks := hst.tasks
  rw [tasksFor, Bag.coe_eq_cons hk, Multiset.filterMap_cons_some _ _ _ (alone_of hc)] at htasks
  have hmem : (⟨task.info, task.i, task.pc.alone⟩ : Striping.Task) ∈ a.tasks := by
    have hfilter := htasks ▸ Multiset.mem_cons_self _ _
    exact Multiset.mem_coe.mp (Multiset.mem_filter.mp hfilter).1
  obtain ⟨k', hk'⟩ := List.getElem?_of_mem hmem
  have hnumber : task.number = k' := hst.number k' _ hk'
  rw [hnumber]
  have hpc : task.pc.alone ≠ .returned := by
    cases task.pc <;> nofun
  rw [Striping.working_eq hk' hpc] at htasks
  exact ⟨hk', (Multiset.cons_inj_right _).mp htasks⟩

/-- One task exchanged for one of the same number. -/
theorem Stripes.number_set (hst : Stripes h c trace s a) {k : ℕ} {task : Striping.Task}
    (hnumber : task.i.toNat % 8 = k) : ∀ k' task', (a.tasks.set k task)[k']? = some task' →
      task'.i.toNat % 8 = k' := by
  intro k' task' hk'
  by_cases hkk : k = k'
  · subst hkk
    have hlt : k < a.tasks.length := by
      have hlt := (List.getElem?_eq_some_iff.mp hk').1
      rwa [List.length_set] at hlt
    rw [List.getElem?_set_self hlt, Option.some.injEq] at hk'
    rw [← hk', hnumber]
  · rw [List.getElem?_set_ne hkk] at hk'
    exact hst.number k' task' hk'

/-- A step that sends nothing for the request. -/
theorem sent_same {l : Label} (hsent : a.sent = Machine.roles (sends c) trace) (hl : sends c s l = none) :
    a.sent = Machine.roles (sends c) (trace ++ [(s, l)]) := by
  rw [Machine.roles_snoc, hl, hsent]
  exact (List.append_nil _).symm

theorem SameWrite.sendRequest {h h' : RequestHost} (hsame : SameWrite h h') {key : UInt32}
    {command : Command} (hcommand : creators.create key = some command)
    (hkey : key = h.nbqReq.nbdReq.reqType) (info : SendMsgInfo) :
    command.sendRequest h'.nbqReq.nbdReq.dataBuf info = command.sendRequest h.nbqReq.nbdReq.dataBuf info := by
  rcases creators_create _ _ hcommand with ⟨-, rfl⟩ | ⟨hwrite, rfl⟩
  · rfl
  · rw [hsame.buffer (hkey.symm.trans hwrite)]

/-- A reply to a WRITE has no data to put there. -/
theorem SameWrite.handleReply (hinv : Inv s) {r : Reply} (hr : r ∈ s.pending)
    (hsame : SameWrite h (s.host c)) :
    SameWrite h ((s.disp.handleReply r.header.requestUid r.owner r.header r.data).host c) := by
  have hkept := (same_handleReply s r).2 c
  refine ⟨⟨hkept.reqUid.trans hsame.reqUid, hkept.reply.trans hsame.reply, hkept.reqType.trans hsame.reqType,
    hkept.dataLen.trans hsame.dataLen, hkept.offset.trans hsame.offset⟩, fun hwrite => ?_⟩
  rw [Dispatcher.handleReply_host, Function.update_apply]
  split
  case isTrue hc =>
    subst hc
    have hempty : r.data = [] := by
      have hlength := (hinv.reply r hr).data
      rw [dataLength, hsame.reqType, hwrite, if_neg (by decide)] at hlength
      exact List.length_eq_zero_iff.mp hlength
    rw [← hsame.buffer hwrite, hempty]
    exact Memory.write_nil _ _
  case isFalse => exact hsame.buffer hwrite

/-! ### One step -/

/-- What leaves the tasks of the request alone. -/
theorem Stripes.quiet (hst : Stripes h c trace s a) {l : Label} (hinv : Inv s')
    (hcreated : c < s'.disp.created) (hsame : SameWrite h (s'.host c))
    (hqueue : s'.queueing.filter (fun task => task.owner = c) = s.queueing.filter fun task => task.owner = c)
    (htasks : tasksFor c s'.tasks = tasksFor c s.tasks) (hl : sends c s l = none) :
    Stripes h c (trace ++ [(s, l)]) s' a :=
  ⟨hinv, hcreated, hsame, hqueue.trans hst.queueing, hst.handed, htasks.trans hst.tasks, hst.number,
    sent_same hst.sent hl⟩

theorem stripes_async (hst : Stripes h c trace s a) (hinv : Inv s') (hs : s.step .async = some s') :
    ∃ a', Machine.maybe (Striping.step h) a (stripes c s .async) = some a' ∧
      Stripes h c (trace ++ [(s, .async)]) s' a' := by
  obtain ⟨task, rest, hq, rfl⟩ := async_cases hs
  have hqueue := hst.queueing
  rw [hq, List.filter_cons] at hqueue
  by_cases hc : task.owner = c
  · -- The first of the queue is the first that the request's own `Distribute` has left.
    rw [if_pos (by simpa using hc)] at hqueue
    obtain ⟨info, infos, hinfos, rfl, hrest⟩ := List.map_eq_cons_iff.mp hqueue.symm
    obtain ⟨hlt, hinfo, hhanded⟩ := Striping.handed_next (hinfos ▸ hst.handed)
    refine ⟨{a with queueing := infos, tasks := a.tasks ++ [⟨info, info.atlasHeader.fragmentUid, .test⟩]}, ?_,
      hinv, hst.created, hst.same, hrest.symm, ?_, ?_, fun k task hk => ?_, sent_same hst.sent rfl⟩
    · have hrole : stripes c s .async = some .async := by simp [stripes, hq, Option.filter]
      simp only [hrole, Machine.maybe, Striping.step, Striping.async, hinfos]
    · rw [hhanded, List.length_append, List.length_singleton]
    · rw [Striping.working_append, ← hst.tasks]
      exact tasksFor_cons s.tasks rfl
    · rcases Nat.lt_trichotomy k a.tasks.length with hlt' | rfl | hgt
      · rw [List.getElem?_append_left hlt'] at hk
        exact hst.number k task hk
      · rw [List.getElem?_concat_length, Option.some.injEq] at hk
        rw [← hk, hinfo, h.infoAt_fragmentUid (by omega)]
        exact Nat.mod_eq_of_lt (by omega)
      · rw [List.getElem?_eq_none (by rw [List.length_append, List.length_singleton]; omega)] at hk
        cases hk
  · rw [if_neg (by simpa using hc)] at hqueue
    have hrole : stripes c s .async = none := by simp [stripes, hq, hc, Option.filter]
    rw [hrole]
    refine ⟨a, rfl, hst.quiet hinv hst.created hst.same ?_ (tasksFor_cons_other s.tasks hc) rfl⟩
    rw [hq, List.filter_cons, if_neg (by simpa using hc)]

/-- The loop condition: it goes on here as it does there, and a request that was freed has
nothing left to send. -/
theorem stripes_test {k : ℕ} {seen : UInt32} (hst : Stripes h c trace s a) (hinv : Inv s')
    (hrule : EndsStale s (.test k seen)) (hs : s.step (.test k seen) = some s') :
    ∃ a', Machine.maybe (Striping.step h) a (stripes c s (.test k seen)) = some a' ∧
      Stripes h c (trace ++ [(s, .test k seen)]) s' a' := by
  obtain ⟨task, hk, hpc, hcase⟩ := test_cases hs
  by_cases hc : task.owner = c
  · obtain ⟨hplace, hrest⟩ := hst.place hk hc
    rw [hpc] at hplace
    have hrole : stripes c s (.test k seen) = some (.test task.number) := by
      simp [stripes, hk, hc, Option.filter]
    have hgoes : task.i < fragments (s.dataLenAt task.owner seen) ↔ task.i < fragments h.dataLen := by
      have hlen : (s.host c).dataLen = h.dataLen := hst.same.dataLen
      rw [hst.inv.test_iff hk hrule, ← s.lt_count_iff task, hc, hlen]
    have hset (task' : Striping.Task) (hi : task'.i = task.i) :
        ∀ k' t, (a.tasks.set task.number task')[k']? = some t → t.i.toNat % 8 = k' :=
      hst.number_set (by rw [hi]; rfl)
    rw [hrole]
    rcases hcase with ⟨hlt, rfl⟩ | ⟨hge, rfl⟩
    · refine ⟨{a with tasks := a.tasks.set task.number ⟨task.info, task.i, .body⟩}, ?_, hinv, hst.created,
        hst.same, hst.queueing, ?_, ?_, hset _ rfl, sent_same hst.sent rfl⟩
      · simp only [Machine.maybe, Striping.step, Striping.test, hplace, Pc.alone, if_pos (hgoes.mp hlt)]
      · rw [List.length_set]
        exact hst.handed
      · rw [Striping.working_set hplace, ← hrest]
        · exact tasksFor_set hk hc
        · intro hcon
          cases hcon
    · refine ⟨{a with tasks := a.tasks.set task.number ⟨task.info, task.i, .returned⟩}, ?_, hinv, hst.created,
        hst.same, hst.queueing, ?_, ?_, hset _ rfl, sent_same hst.sent rfl⟩
      · simp only [Machine.maybe, Striping.step, Striping.test, hplace, Pc.alone,
          if_neg fun hlt => hge (hgoes.mpr hlt)]
      · rw [List.length_set]
        exact hst.handed
      · rw [Striping.working_return hplace rfl, ← hrest]
  · have hrole : stripes c s (.test k seen) = none := by simp [stripes, hk, hc, Option.filter]
    rw [hrole]
    rcases hcase with ⟨-, rfl⟩ | ⟨-, rfl⟩
    · exact ⟨a, rfl, hst.quiet hinv hst.created hst.same rfl (tasksFor_set_other hk hc rfl) rfl⟩
    · exact ⟨a, rfl, hst.quiet hinv hst.created hst.same rfl (tasksFor_erase_other hk hc) rfl⟩

/-- The loop body: the request is still there, and what it reads of it is what it was. -/
theorem stripes_send {k : ℕ} {junk : Memory} (hst : Stripes h c trace s a) (hinv : Inv s')
    (hs : s.step (.send k junk) = some s') :
    ∃ a', Machine.maybe (Striping.step h) a (stripes c s (.send k junk)) = some a' ∧
      Stripes h c (trace ++ [(s, .send k junk)]) s' a' := by
  obtain ⟨task, command, hk, hpc, hcommand, rfl⟩ := send_cases hs
  by_cases hc : task.owner = c
  · obtain ⟨hplace, hrest⟩ := hst.place hk hc
    rw [hpc] at hplace
    have hmem := List.mem_of_getElem? hk
    have hlive : s.disp.freed task.owner ≠ true := fun hfreed =>
      Nat.not_lt.mpr (hst.inv.stale_done (Or.inr hmem) hfreed) (hst.inv.body_turn hk hpc).1
    have hkey : task.info.atlasHeader.type = h.nbqReq.nbdReq.reqType := by
      rw [(hst.inv.task task (Or.inr hmem)).info, RequestHost.infoAt_eq, hc]
      exact hst.same.reqType
    have hpayload : command.sendRequest (s.dataBufAt c junk) task.info =
        command.sendRequest h.nbqReq.nbdReq.dataBuf task.info := by
      rw [dataBufAt, if_neg (hc ▸ hlive)]
      exact hst.same.sendRequest hcommand hkey task.info
    have hrole : stripes c s (.send k junk) = some (.send task.number) := by
      simp [stripes, hk, hc, Option.filter]
    have hsends : sends c s (.send k junk) =
        some ⟨task.number, task.info, command.sendRequest h.nbqReq.nbdReq.dataBuf task.info⟩ := by
      simp [sends, hk, hc, Option.filter, hcommand, hpayload]
    rw [hrole]
    refine ⟨{ a with
      tasks := a.tasks.set task.number ⟨task.info.advance, task.i + numOfIot, .test⟩
      sent := a.sent ++ [⟨task.number, task.info, command.sendRequest h.nbqReq.nbdReq.dataBuf task.info⟩] },
      ?_, hinv, hst.created, hst.same, hst.queueing, ?_, ?_, hst.number_set (number_turn task.i), ?_⟩
    · simp only [Machine.maybe, Striping.step, Striping.send, hplace, Pc.alone, hcommand]
    · rw [List.length_set]
      exact hst.handed
    · rw [Striping.working_set hplace, ← hrest]
      · exact tasksFor_set hk hc
      · intro hcon
        cases hcon
    · rw [Machine.roles_snoc, hsends, ← hst.sent]
      rfl
  · have hrole : stripes c s (.send k junk) = none := by simp [stripes, hk, hc, Option.filter]
    have hsends : sends c s (.send k junk) = none := by simp [sends, hk, hc, Option.filter]
    rw [hrole]
    exact ⟨a, rfl, hst.quiet hinv hst.created hst.same rfl (tasksFor_set_other hk hc rfl) hsends⟩

/-- **One step of the system** is one of the request's tasks, or none. -/
theorem stripes_step {l : Label} (hst : Stripes h c trace s a) (hassumed : Assumed s l) (hlucky : Lucky s l)
    (hs : s.step l = some s') :
    ∃ a', Machine.maybe (Striping.step h) a (stripes c s l) = some a' ∧
      Stripes h c (trace ++ [(s, l)]) s' a' := by
  have hinv := inv_step hst.inv hassumed.honest hassumed.few hlucky.peeks hlucky.stale hs
  cases l with
  | nbd message =>
    have hcreated : c < s'.disp.created := by
      rw [created_nbd hs]
      exact Nat.lt_succ_of_lt hst.created
    have hsame : SameWrite h (s'.host c) := host_nbd_old hs hst.created ▸ hst.same
    obtain ⟨hq, rfl⟩ := nbd_cases hs
    refine ⟨a, rfl, hst.quiet hinv hcreated hsame ?_ rfl rfl⟩
    rw [hq, List.filter_nil, List.filter_eq_nil_iff]
    intro task htask
    obtain ⟨j, -, rfl⟩ := mem_tasksOf htask
    simpa using Nat.ne_of_gt hst.created
  | async => exact stripes_async hst hinv hs
  | test k seen => exact stripes_test hst hinv hlucky.stale hs
  | send k junk => exact stripes_send hst hinv hs
  | answer k header data =>
    obtain ⟨m, -, rfl⟩ := answer_cases hs
    exact ⟨a, rfl, hst.quiet hinv hst.created hst.same rfl rfl rfl⟩
  | iot sockfd cuts =>
    obtain ⟨r, rest, -, hr, -, rfl⟩ := hst.inv.iot_cases hlucky.peeks hs
    have hcreated := (same_handleReply s r).1
    exact ⟨a, rfl, hst.quiet hinv (hcreated ▸ hst.created) (hst.same.handleReply hst.inv hr) rfl rfl rfl⟩

/-! ### A run -/

/-- A request that has just come has its tasks before it. -/
theorem stripes_init {message : NbdMessage} (hinv : Inv s) (hinv' : Inv s')
    (hs : s.step (.nbd message) = some s') :
    Stripes (RequestHost.create s.disp.reqUid message) s.disp.created [] s'
      (Striping.init (RequestHost.create s.disp.reqUid message)) := by
  have hcreated := created_nbd hs
  have hnew := host_nbd_new hs
  obtain ⟨hq, rfl⟩ := nbd_cases hs
  refine ⟨hinv', by rw [hcreated]; exact Nat.lt_succ_self _, ?_, ?_, rfl, ?_, nofun, rfl⟩
  · rw [hnew]
    exact ⟨SameRequest.refl _, fun _ => rfl⟩
  · refine List.filter_eq_self.mpr fun task htask => ?_
    obtain ⟨j, -, rfl⟩ := mem_tasksOf htask
    exact decide_eq_true rfl
  · have hnone : s.tasks.filterMap (Task.alone s.disp.created) = [] :=
      List.filterMap_eq_nil_iff.mpr fun task htask =>
        alone_other (Nat.ne_of_lt (hinv.task task (Or.inr htask)).owner)
    exact congrArg _ hnone

/-- The tasks of the request are done there when none of them is left here. -/
theorem Stripes.finished (hst : Stripes h c trace s a) :
    Striping.Finished a ↔ ∀ task, task ∈ s.queueing ∨ task ∈ s.tasks → task.owner ≠ c := by
  have hqueue : a.queueing = [] ↔ ∀ task ∈ s.queueing, task.owner ≠ c := by
    rw [← List.map_eq_nil_iff, ← hst.queueing, List.filter_eq_nil_iff]
    simp only [decide_eq_true_eq, ne_eq]
  have htasks : (∀ task ∈ a.tasks, task.pc = .returned) ↔ ∀ task ∈ s.tasks, task.owner ≠ c := by
    have hzero : Striping.working a.tasks = 0 ↔ ∀ task ∈ a.tasks, task.pc = .returned := by
      simp only [Striping.working, Multiset.filter_eq_nil, Multiset.mem_coe, not_not, ne_eq]
    rw [← hzero, ← hst.tasks]
    show ((s.tasks.filterMap (Task.alone c) : List Striping.Task) : Multiset Striping.Task) = 0 ↔ _
    simp only [Multiset.coe_eq_zero, List.filterMap_eq_nil_iff, Task.alone, ite_eq_right_iff, reduceCtorEq,
      imp_false, ne_eq]
  rw [Striping.Finished, hqueue, htasks]
  exact ⟨fun ⟨hq, ht⟩ task hmem => hmem.elim (hq task) (ht task),
    fun hall => ⟨fun task hq => hall task (Or.inl hq), fun task ht => hall task (Or.inr ht)⟩⟩

/-- **The tasks of a request run as if they were alone**: what is done with them from the
moment it comes is a run of `Striping`, and it sends what they send, in the same order. They
are all done when `Striping`'s are; and where the places of the request are in range, all
that `striping` says of that run holds. -/
theorem tasks_stripe {before : List (System × Label)} {message : NbdMessage} (run : machine.Run init before s)
    (hs : s.step (.nbd message) = some s') {rest : List (System × Label)} {t : System}
    (run' : machine.Run s' rest t) (hassumed : Machine.Meets Assumed (before ++ (s, .nbd message) :: rest))
    (hlucky : Machine.Meets Lucky (before ++ (s, .nbd message) :: rest)) :
    ∃ steps a, (Striping.machine (RequestHost.create s.disp.reqUid message)).Run
        (Striping.init (RequestHost.create s.disp.reqUid message)) steps a ∧
      steps.map Prod.snd = Machine.roles (stripes s.disp.created) rest ∧
      a.sent = Machine.roles (sends s.disp.created) rest ∧
      (Striping.Finished a ↔
        ∀ task, task ∈ t.queueing ∨ task ∈ t.tasks → task.owner ≠ s.disp.created) ∧
      (Striping.Places (RequestHost.create s.disp.reqUid message) →
        Striping.Striped (RequestHost.create s.disp.reqUid message) steps a) := by
  obtain ⟨hassumedb, hassumedr⟩ := List.forall_mem_append.mp hassumed
  obtain ⟨hassumedn, hassumedr⟩ := List.forall_mem_cons.mp hassumedr
  obtain ⟨hluckyb, hluckyr⟩ := List.forall_mem_append.mp hlucky
  obtain ⟨hluckyn, hluckyr⟩ := List.forall_mem_cons.mp hluckyr
  have hinv := (run_inv run hassumedb hluckyb).1
  have hinv' := inv_step hinv hassumedn.honest hassumedn.few hluckyn.peeks hluckyn.stale hs
  obtain ⟨steps, a, hsteps, hroles, hst⟩ := run'.refines (stripes s.disp.created)
    (N := Striping.machine (RequestHost.create s.disp.reqUid message))
    (R := Stripes (RequestHost.create s.disp.reqUid message) s.disp.created)
    (r := fun s l => Assumed s l ∧ Lucky s l) (stripes_init hinv hinv' hs)
    (fun _ _ _ _ _ hst hrule hs => stripes_step hst hrule.1 hrule.2 hs)
    fun e he => ⟨hassumedr e he, hluckyr e he⟩
  have htype : Registered message.nbdReq.reqType := hassumedn.requests.1
  exact ⟨steps, a, hsteps, hroles, hst.sent, hst.finished,
    fun hplaces => Striping.striping _ hplaces htype hsteps⟩

end System
end PrivateCloud.Dispatch
