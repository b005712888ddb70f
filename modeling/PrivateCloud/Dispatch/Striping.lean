import PrivateCloud.Dispatch.Dispatcher
import PrivateCloud.Host.Placement
import PrivateCloud.Library.Bag
import PrivateCloud.Library.Machine
import PrivateCloud.Library.Stride

/-! The tasks of one request, in whatever order a pool runs them.

`Distribute` hands a request's tasks to the pool one by one, and the workers may be
at any of them meanwhile: which task moves next is the label. A task is at the test of
its loop, in the body that sends a fragment, or has returned. The request is not
answered while they run, so what they read of it is what it was created with; every
`sendmsg` takes its whole message.

`stripe` is what the tasks are for: one message for each fragment, its node, its place
there and its slice of the buffer each a function of the fragment alone. `striping`
says that every order of steps ends, and that the messages are then these, whatever
the order was. -/
namespace PrivateCloud.Dispatch.Striping
open Nbd Host

inductive Pc where
  | test
  | body
  | returned
  deriving DecidableEq

/-- A call of `SendMsgWrapper`. -/
structure Task where
  info : SendMsgInfo
  i : UInt32
  pc : Pc

/-- One call of `sendmsg`: who made it, what it was made from, and the data behind the
header. -/
structure Sent where
  task : ℕ
  info : SendMsgInfo
  payload : List UInt8
  deriving DecidableEq

/-- A task's number is its place in `tasks`; `sent` is oldest first. -/
structure State where
  /-- What `Distribute`'s loop has still to hand to the pool. -/
  queueing : List SendMsgInfo
  tasks : List Task
  sent : List Sent

inductive Label where
  /-- One `Async` of `Distribute`'s loop. -/
  | async
  /-- The loop condition of task `k`. -/
  | test (k : ℕ)
  /-- The loop body of task `k`. -/
  | send (k : ℕ)

section
variable (h : RequestHost)

def init : State := ⟨h.distribute, [], []⟩

def async (s : State) : Option State :=
  match s.queueing with
  | [] => none
  | info :: rest =>
    some {s with queueing := rest, tasks := s.tasks ++ [⟨info, info.atlasHeader.fragmentUid, .test⟩]}

def test (s : State) (k : ℕ) : Option State :=
  match s.tasks[k]? with
  | some ⟨info, i, .test⟩ =>
    if i < fragments h.dataLen then some {s with tasks := s.tasks.set k ⟨info, i, .body⟩}
    else some {s with tasks := s.tasks.set k ⟨info, i, .returned⟩}
  | _ => none

/-- The body and the increments after it. A type without a command is a call through a
null creator. -/
def send (s : State) (k : ℕ) : Option State :=
  match s.tasks[k]? with
  | some ⟨info, i, .body⟩ =>
    match creators.create info.atlasHeader.type with
    | none => none
    | some command =>
      some { s with
        tasks := s.tasks.set k ⟨info.advance, i + numOfIot, .test⟩
        sent := s.sent ++ [⟨k, info, command.sendRequest h.nbqReq.nbdReq.dataBuf info⟩] }
  | _ => none

def step (s : State) : Label → Option State
  | .async => async s
  | .test k => test h s k
  | .send k => send h s k

def machine : Machine State Label := ⟨init h, step h⟩

end

/-- Every task was handed to the pool and has returned. -/
def Finished (s : State) : Prop := s.queueing = [] ∧ ∀ task ∈ s.tasks, task.pc = .returned

/-- The message that fragment `i` of a request calls for. -/
def stripe (h : RequestHost) (i : ℕ) : Sent where
  task := i % 8
  info :=
    { sockfd := (h.firstBlock + i) % 8 + 1
      atlasHeader :=
        { requestUid := h.reqUid
          fragmentUid := UInt32.ofNat i
          alarmUid := 0
          iotOffset := UInt32.ofNat ((h.firstBlock + i) * 128)
          type := h.nbqReq.nbdReq.reqType
          len := 1024 }
      startDataBuff := i * 1024 }
  payload :=
    if h.nbqReq.nbdReq.reqType = NBD_CMD_WRITE then h.nbqReq.nbdReq.dataBuf.read (i * 1024) 1024 else []

/-! ### What one step can do -/

variable {h : RequestHost} {s s' : State}

theorem async_cases (hs : step h s .async = some s') :
    ∃ info rest, s.queueing = info :: rest ∧
      s' = {s with
        queueing := rest, tasks := s.tasks ++ [⟨info, info.atlasHeader.fragmentUid, .test⟩]} := by
  simp only [step, async] at hs
  split at hs
  case h_1 => cases hs
  case h_2 info rest hq => exact ⟨info, rest, hq, (Option.some.inj hs).symm⟩

theorem test_cases {k : ℕ} (hs : step h s (.test k) = some s') :
    ∃ info i, s.tasks[k]? = some ⟨info, i, .test⟩ ∧
      ((i < fragments h.dataLen ∧ s' = {s with tasks := s.tasks.set k ⟨info, i, .body⟩}) ∨
        (¬i < fragments h.dataLen ∧ s' = {s with tasks := s.tasks.set k ⟨info, i, .returned⟩})) := by
  simp only [step, test] at hs
  split at hs
  case h_1 info i htask =>
    refine ⟨info, i, htask, ?_⟩
    split at hs
    case isTrue hlt => exact Or.inl ⟨hlt, (Option.some.inj hs).symm⟩
    case isFalse hge => exact Or.inr ⟨hge, (Option.some.inj hs).symm⟩
  case h_2 => cases hs

theorem send_cases {k : ℕ} (hs : step h s (.send k) = some s') :
    ∃ info i command, s.tasks[k]? = some ⟨info, i, .body⟩ ∧
      creators.create info.atlasHeader.type = some command ∧ s' = { s with
        tasks := s.tasks.set k ⟨info.advance, i + numOfIot, .test⟩
        sent := s.sent ++ [⟨k, info, command.sendRequest h.nbqReq.nbdReq.dataBuf info⟩] } := by
  simp only [step, send] at hs
  split at hs
  case h_1 info i htask =>
    split at hs
    case h_1 => cases hs
    case h_2 command hcommand => exact ⟨info, i, command, htask, hcommand, (Option.some.inj hs).symm⟩
  case h_2 => cases hs

/-! ### What is sent -/

/-- Far enough below the end of the 32-bit places. -/
def Places (h : RequestHost) : Prop :=
  h.nbqReq.nbdReq.offset.toNat + h.dataLen.toNat ≤ 2 ^ 32 - 8192

theorem Places.block_lt (hplaces : Places h) {i : ℕ} (hi : i < h.count) :
    h.firstBlock + i < 2 ^ 22 := by
  unfold Places at hplaces
  rw [RequestHost.count_eq] at hi
  simp only [RequestHost.firstBlock]
  omega

/-- What a task has worked out by repeated addition is the fragment's own. -/
theorem infoAt_stripe (hplaces : Places h) {i : ℕ} (hi : i < h.count) :
    h.infoAt i = (stripe h i).info := by
  have hblock := hplaces.block_lt hi
  obtain ⟨hsockfd, hoffset⟩ := h.infoAt_home hblock
  have hplace : (h.infoAt i).atlasHeader.iotOffset = UInt32.ofNat ((h.firstBlock + i) * 128) := by
    apply UInt32.toNat_inj.mp
    rw [hoffset, UInt32.toNat_ofNat_of_lt' (show (h.firstBlock + i) * 128 < 2 ^ 32 by omega)]
  rw [RequestHost.infoAt_eq] at hsockfd hplace ⊢
  simp only [stripe, SendMsgInfo.mk.injEq, AtlasHeader.mk.injEq, true_and, and_true]
  exact ⟨hsockfd, hplace, rfl⟩

/-- The payload is the command's: the fragment's slice for a WRITE, nothing for a READ. -/
theorem sendRequest_stripe (hplaces : Places h) {i : ℕ} (hi : i < h.count) {command : Command}
    (hcommand : creators.create (h.infoAt i).atlasHeader.type = some command) :
    (⟨i % 8, h.infoAt i, command.sendRequest h.nbqReq.nbdReq.dataBuf (h.infoAt i)⟩ : Sent) =
      stripe h i := by
  rw [infoAt_stripe hplaces hi] at hcommand ⊢
  have htype : (stripe h i).info.atlasHeader.type = h.nbqReq.nbdReq.reqType := rfl
  rw [htype] at hcommand
  rcases creators_create _ _ hcommand with ⟨hread, rfl⟩ | ⟨hwrite, rfl⟩
  · have hnot : ¬h.nbqReq.nbdReq.reqType = NBD_CMD_WRITE := by
      rw [hread]
      decide
    simp only [stripe, Command.sendRequest, if_neg hnot]
  · simp only [stripe, Command.sendRequest, if_pos hwrite]
    rfl

/-! ### The ledger

A fragment is with the task that has still to send it, with a task that was not handed
to the pool yet, or sent. -/

/-- A task's loop counter is `j`, and everything it advances is in step with it. -/
structure At (h : RequestHost) (k : ℕ) (task : Task) (j : ℕ) : Prop where
  info : task.info = h.infoAt j
  i : task.i = UInt32.ofNat j
  node : j % 8 = k
  bound : j < h.count + 8
  body : task.pc = .body → j < h.count
  returned : task.pc = .returned → h.count ≤ j

/-- The fragments of a task from its counter on. -/
def remaining (h : RequestHost) (i : UInt32) : Multiset ℕ := (stride 8 i.toNat h.count).val

def Sent.fragment (m : Sent) : ℕ := m.info.atlasHeader.fragmentUid.toNat

structure Inv (h : RequestHost) (s : State) : Prop where
  queueing : s.queueing = h.distribute.drop s.tasks.length
  tasks : ∀ k task, s.tasks[k]? = some task → ∃ j, At h k task j
  sent : ∀ m ∈ s.sent, ∃ i < h.count, m = stripe h i ∧
    ∃ task, s.tasks[m.task]? = some task ∧ i < task.i.toNat
  order : s.sent.Pairwise fun a b => a.task = b.task → a.fragment < b.fragment
  ledger : (s.tasks : Multiset Task).bind (fun task => remaining h task.i) +
    (s.queueing : Multiset SendMsgInfo).bind (fun info => remaining h info.atlasHeader.fragmentUid) +
      (s.sent.map Sent.fragment : Multiset ℕ) = Multiset.range h.count

theorem At.toNat {k j : ℕ} {task : Task} (hat : At h k task j) : task.i.toNat = j := by
  have := hat.bound
  have := h.count_lt
  rw [hat.i]
  exact UInt32.toNat_ofNat_of_lt' (show j < 2 ^ 32 by omega)

theorem stripe_fragment {i : ℕ} (hi : i < h.count) : (stripe h i).fragment = i := by
  have := h.count_lt
  exact UInt32.toNat_ofNat_of_lt' (show i < 2 ^ 32 by omega)

/-- One turn of the loop takes its fragment off what is left. -/
theorem remaining_send {j : ℕ} (hj : j < h.count) :
    remaining h (UInt32.ofNat j) = j ::ₘ remaining h (UInt32.ofNat j + numOfIot) := by
  have hcount := h.count_lt
  rw [RequestHost.ofNat_add_numOfIot, remaining, remaining,
    UInt32.toNat_ofNat_of_lt' (show j < 2 ^ 32 by omega),
    UInt32.toNat_ofNat_of_lt' (show j + 8 < 2 ^ 32 by omega)]
  exact Stride.stride_val_cons (by decide) hj

theorem remaining_returned {j : ℕ} (hj : h.count ≤ j) (hlt : j < h.count + 8) :
    remaining h (UInt32.ofNat j) = 0 := by
  have hcount := h.count_lt
  rw [remaining, UInt32.toNat_ofNat_of_lt' (show j < 2 ^ 32 by omega), Stride.stride_eq_empty hj]
  rfl

theorem inv_init : Inv h (init h) where
  queueing := rfl
  tasks := fun k task hk => by simp [init] at hk
  sent := fun m hm => by cases hm
  order := List.Pairwise.nil
  ledger := by
    have hcount := h.count_lt
    have hdist : ((h.distribute : List SendMsgInfo) : Multiset SendMsgInfo) =
        (Multiset.range (min h.count 8)).map h.infoAt := by
      rw [RequestHost.distribute_eq]
      rfl
    have hstart (j : ℕ) (hj : j ∈ Multiset.range (min h.count 8)) :
        remaining h (h.infoAt j).atlasHeader.fragmentUid = (stride 8 j h.count).val := by
      have := Multiset.mem_range.mp hj
      rw [remaining, h.infoAt_fragmentUid (by omega)]
    simp only [init, Multiset.coe_nil, Multiset.zero_bind, zero_add, List.map_nil, add_zero]
    rw [hdist, Multiset.bind_map, Multiset.bind_congr hstart]
    exact Stride.bind_stride (by decide)

/-- With one task exchanged, what the tasks have left changes by that task's part. -/
theorem bind_set {tasks : List Task} {k : ℕ} {task : Task} (f : Task → Multiset ℕ)
    (hk : tasks[k]? = some task) (task' : Task) :
    f task + ((tasks.set k task' : List Task) : Multiset Task).bind f =
      f task' + (tasks : Multiset Task).bind f := by
  rw [Bag.coe_set hk, Bag.coe_eq_cons hk, Multiset.cons_bind, Multiset.cons_bind]
  exact add_left_comm _ _ _

/-- A task exchanged for one at its own counter. -/
theorem tasks_set {k j : ℕ} {task : Task} (hinv : Inv h s) (hlength : k < s.tasks.length)
    (hat : At h k task j) {k' : ℕ} {task' : Task} (hk' : (s.tasks.set k task)[k']? = some task') :
    ∃ j, At h k' task' j := by
  by_cases hkk : k = k'
  · subst hkk
    rw [List.getElem?_set_self hlength, Option.some.injEq] at hk'
    exact ⟨j, hk' ▸ hat⟩
  · rw [List.getElem?_set_ne hkk] at hk'
    exact hinv.tasks k' task' hk'

/-- A task exchanged for one that is no further back is still past what it has sent. -/
theorem sent_set {k : ℕ} {task task' : Task} (hinv : Inv h s) (hk : s.tasks[k]? = some task)
    (hle : task.i.toNat ≤ task'.i.toNat) {m : Sent} (hm : m ∈ s.sent) :
    ∃ i < h.count, m = stripe h i ∧ ∃ other, (s.tasks.set k task')[m.task]? = some other ∧
      i < other.i.toNat := by
  obtain ⟨i, hi, hstripe, other, hother, hlt⟩ := hinv.sent m hm
  by_cases hkk : k = m.task
  · subst hkk
    rw [hk, Option.some.injEq] at hother
    subst hother
    exact ⟨i, hi, hstripe, task', List.getElem?_set_self (List.getElem?_eq_some_iff.mp hk).1,
      Nat.lt_of_lt_of_le hlt hle⟩
  · exact ⟨i, hi, hstripe, other, by rw [List.getElem?_set_ne hkk, hother], hlt⟩

/-- The next turn of `Distribute` makes the task of the same number. -/
theorem handed_next {n : ℕ} {info : SendMsgInfo} {rest : List SendMsgInfo}
    (hqueue : info :: rest = h.distribute.drop n) :
    n < min h.count 8 ∧ info = h.infoAt n ∧ rest = h.distribute.drop (n + 1) := by
  have hget : h.distribute[n]? = some info := by
    rw [← List.head?_drop, ← hqueue, List.head?_cons]
  rw [RequestHost.distribute_eq, List.getElem?_map, Option.map_eq_some_iff] at hget
  obtain ⟨j, hj, rfl⟩ := hget
  obtain ⟨hlt, rfl⟩ := List.getElem?_eq_some_iff.mp hj
  rw [List.length_range] at hlt
  refine ⟨hlt, by rw [List.getElem_range], ?_⟩
  rw [← List.tail_drop, ← hqueue, List.tail_cons]

/-- A task handed over stands at the test of its first fragment. -/
theorem inv_async (hinv : Inv h s) (hs : step h s .async = some s') : Inv h s' := by
  obtain ⟨info, rest, hq, rfl⟩ := async_cases hs
  have hcount := h.count_lt
  obtain ⟨hlt, rfl, hrest⟩ := handed_next (hq ▸ hinv.queueing)
  refine ⟨?_, fun k task hk => ?_, fun m hm => ?_, hinv.order, ?_⟩
  · rw [List.length_append, List.length_singleton, hrest]
  · rcases Nat.lt_trichotomy k s.tasks.length with hlt' | rfl | hgt
    · rw [List.getElem?_append_left hlt'] at hk
      exact hinv.tasks k task hk
    · rw [List.getElem?_concat_length, Option.some.injEq] at hk
      subst hk
      refine ⟨s.tasks.length, rfl, ?_, by omega, by omega, nofun, nofun⟩
      show (h.infoAt s.tasks.length).atlasHeader.fragmentUid = _
      rw [RequestHost.infoAt_eq]
    · rw [List.getElem?_eq_none (by rw [List.length_append, List.length_singleton]; omega)] at hk
      cases hk
  · obtain ⟨i, hi, hstripe, task, htask, hlt'⟩ := hinv.sent m hm
    obtain ⟨hbound, -⟩ := List.getElem?_eq_some_iff.mp htask
    exact ⟨i, hi, hstripe, task, by rw [List.getElem?_append_left hbound, htask], hlt'⟩
  · rw [← hinv.ledger, hq, ← Multiset.coe_add, Multiset.add_bind, ← Multiset.cons_coe,
      ← Multiset.cons_coe, Multiset.cons_bind, Multiset.cons_bind, Multiset.coe_nil, Multiset.zero_bind,
      add_zero]
    simp only [add_assoc]

/-- A task at its loop condition goes on or returns; its counter stays. -/
theorem inv_test {k : ℕ} (hinv : Inv h s) (hs : step h s (.test k) = some s') : Inv h s' := by
  obtain ⟨info, i, hk, hcase⟩ := test_cases hs
  obtain ⟨j, hat⟩ := hinv.tasks k _ hk
  have hcount := h.count_lt
  have hbound := hat.bound
  have hi : i = UInt32.ofNat j := hat.i
  have hlt : i < fragments h.dataLen ↔ j < h.count := by
    rw [hi, RequestHost.lt_fragments h.dataLen (by omega), RequestHost.count_eq]
  -- Both outcomes are the same task with another program counter.
  have keep (pc : Pc) (hbody : pc = .body → j < h.count) (hreturned : pc = .returned → h.count ≤ j) :
      Inv h {s with tasks := s.tasks.set k ⟨info, i, pc⟩} := by
    have hat' : At h k ⟨info, i, pc⟩ j := ⟨hat.info, hi, hat.node, hbound, hbody, hreturned⟩
    refine ⟨?_, fun k' task' hk' => tasks_set hinv (List.getElem?_eq_some_iff.mp hk).1 hat' hk',
      fun m hm => sent_set hinv hk (show i.toNat ≤ i.toNat from Nat.le_refl _) hm, hinv.order, ?_⟩
    · rw [List.length_set]
      exact hinv.queueing
    · have hset := bind_set (fun task => remaining h task.i) hk ⟨info, i, pc⟩
      rw [← hinv.ledger, add_left_cancel hset]
  rcases hcase with ⟨hgo, rfl⟩ | ⟨hend, rfl⟩
  · exact keep .body (fun _ => hlt.mp hgo) nofun
  · exact keep .returned nofun (fun _ => Nat.le_of_not_lt fun hj => hend (hlt.mpr hj))

/-- A task in the body sends the message of its fragment and goes on to the next. -/
theorem inv_send (hplaces : Places h) {k : ℕ} (hinv : Inv h s) (hs : step h s (.send k) = some s') :
    Inv h s' := by
  obtain ⟨info, i, command, hk, hcommand, rfl⟩ := send_cases hs
  obtain ⟨j, hat⟩ := hinv.tasks k _ hk
  have hcount := h.count_lt
  have hinfo : info = h.infoAt j := hat.info
  have hi : i = UInt32.ofNat j := hat.i
  have hnode : j % 8 = k := hat.node
  have hj : j < h.count := hat.body rfl
  have hlength := (List.getElem?_eq_some_iff.mp hk).1
  subst hinfo hi hnode
  have hat' : At h (j % 8) ⟨(h.infoAt j).advance, UInt32.ofNat j + numOfIot, .test⟩ (j + 8) :=
    ⟨(h.infoAt_advance j).symm, RequestHost.ofNat_add_numOfIot j, by omega, by omega, nofun, nofun⟩
  have hnext : (UInt32.ofNat j + numOfIot).toNat = j + 8 := by
    rw [RequestHost.ofNat_add_numOfIot]
    exact UInt32.toNat_ofNat_of_lt' (show j + 8 < 2 ^ 32 by omega)
  have hthis : (UInt32.ofNat j).toNat = j := hat.toNat
  rw [sendRequest_stripe hplaces hj hcommand]
  refine ⟨?_, fun k' task' hk' => tasks_set hinv hlength hat' hk', fun m hm => ?_, ?_, ?_⟩
  · rw [List.length_set]
    exact hinv.queueing
  · rcases List.mem_append.mp hm with hm | hm
    · exact sent_set hinv hk (by rw [hthis, hnext]; omega) hm
    · obtain rfl := List.mem_singleton.mp hm
      exact ⟨j, hj, rfl, _, List.getElem?_set_self hlength, by rw [hnext]; omega⟩
  · -- What this task has sent so far has smaller numbers.
    rw [List.pairwise_append]
    refine ⟨hinv.order, List.pairwise_singleton _ _, fun a ha b hb htask => ?_⟩
    obtain rfl := List.mem_singleton.mp hb
    obtain ⟨i, hi, rfl, task, hget, hlt⟩ := hinv.sent a ha
    rw [htask] at hget
    have hget' : s.tasks[j % 8]? = some task := hget
    rw [hk, Option.some.injEq] at hget'
    subst hget'
    rw [stripe_fragment hi, stripe_fragment hj]
    have hlt' : i < (UInt32.ofNat j).toNat := hlt
    rwa [hthis] at hlt'
  · have hset := bind_set (fun task => remaining h task.i) hk
      ⟨(h.infoAt j).advance, UInt32.ofNat j + numOfIot, .test⟩
    rw [remaining_send hj, Multiset.cons_add, add_comm, ← Multiset.cons_add, add_comm] at hset
    have hset' := add_left_cancel hset
    rw [← hinv.ledger, ← hset', List.map_append, ← Multiset.coe_add, List.map_singleton,
      stripe_fragment hj, Multiset.coe_singleton, ← Multiset.singleton_add]
    rw [← add_assoc, add_comm _ ({j} : Multiset ℕ)]
    simp only [add_assoc]

theorem inv_step (hplaces : Places h) (l : Label) (hinv : Inv h s) (hs : step h s l = some s') :
    Inv h s' := by
  cases l with
  | async => exact inv_async hinv hs
  | test k => exact inv_test hinv hs
  | send k => exact inv_send hplaces hinv hs

/-! ### Every order ends -/

/-- Steps left: two for each fragment that was not sent, two for each task that was not
handed over, one for each task at its test. -/
def left (h : RequestHost) (s : State) : ℕ :=
  2 * (h.count - s.sent.length) + 2 * s.queueing.length + s.tasks.countP fun task => task.pc = .test

theorem left_init (h : RequestHost) : left h (init h) = 2 * h.count + 2 * min h.count 8 := by
  simp [left, init, RequestHost.distribute_eq]

/-- A fragment a task has still to send was not sent yet. -/
theorem sent_lt {k j : ℕ} {task : Task} (hinv : Inv h s) (hk : s.tasks[k]? = some task)
    (hat : At h k task j) (hj : j < h.count) : s.sent.length < h.count := by
  have hcard := congrArg Multiset.card hinv.ledger
  rw [Bag.coe_eq_cons hk, Multiset.cons_bind, hat.i, remaining_send hj] at hcard
  simp only [Multiset.card_add, Multiset.card_cons, Multiset.coe_card, List.length_map,
    Multiset.card_range] at hcard
  omega

theorem left_step (hinv : Inv h s) {l : Label} (hs : step h s l = some s') : left h s' < left h s := by
  cases l with
  | async =>
    obtain ⟨info, rest, hq, rfl⟩ := async_cases hs
    simp only [left, hq, List.length_cons, List.countP_append, List.countP_singleton, decide_true, if_true]
    omega
  | test k =>
    obtain ⟨info, i, hk, hcase⟩ := test_cases hs
    -- Either way one task less is at its test.
    have hcount (pc : Pc) (hpc : pc ≠ .test) : (s.tasks.set k ⟨info, i, pc⟩).countP
        (fun task => task.pc = .test) + 1 = s.tasks.countP fun task => task.pc = .test :=
      Bag.countP_set_leave hk rfl (decide_eq_false hpc)
    rcases hcase with ⟨-, rfl⟩ | ⟨-, rfl⟩
    · have := hcount .body nofun
      simp only [left]
      omega
    · have := hcount .returned nofun
      simp only [left]
      omega
  | send k =>
    obtain ⟨info, i, command, hk, -, rfl⟩ := send_cases hs
    obtain ⟨j, hat⟩ := hinv.tasks k _ hk
    have hlt := sent_lt hinv hk hat (hat.body rfl)
    have hcount : (s.tasks.set k ⟨info.advance, i + numOfIot, .test⟩).countP
        (fun task => task.pc = .test) = (s.tasks.countP fun task => task.pc = .test) + 1 :=
      Bag.countP_set_enter hk rfl rfl
    simp only [left, List.length_append, List.length_singleton]
    omega

/-- Nothing a task does can block it. -/
theorem not_stuck (htype : Registered h.nbqReq.nbdReq.reqType) (hinv : Inv h s) {k : ℕ} {task : Task}
    (hk : s.tasks[k]? = some task) (hpc : task.pc ≠ .returned) :
    (∃ s', step h s (.test k) = some s') ∨ ∃ s', step h s (.send k) = some s' := by
  obtain ⟨info, i, pc⟩ := task
  cases pc with
  | test =>
    apply Or.inl
    simp only [step, test, hk]
    split
    · exact ⟨_, rfl⟩
    · exact ⟨_, rfl⟩
  | body =>
    obtain ⟨j, hat⟩ := hinv.tasks k _ hk
    have hinfo : info = h.infoAt j := hat.info
    have hkey : info.atlasHeader.type = h.nbqReq.nbdReq.reqType := by
      rw [hinfo, RequestHost.infoAt_eq]
    obtain ⟨command, hcommand⟩ := (registered_iff _).mp htype
    rw [← hkey] at hcommand
    apply Or.inr
    simp only [step, send, hk, hcommand]
    exact ⟨_, rfl⟩
  | returned => exact absurd rfl hpc

theorem progress (htype : Registered h.nbqReq.nbdReq.reqType) (hinv : Inv h s) (hs : ¬Finished s) :
    ∃ l s', step h s l = some s' := by
  cases hq : s.queueing with
  | cons info rest => exact ⟨.async, by simp [step, async, hq]⟩
  | nil =>
    have hpending : ∃ task ∈ s.tasks, task.pc ≠ .returned := by
      by_contra hcon
      push Not at hcon
      exact hs ⟨hq, hcon⟩
    obtain ⟨task, htask, hpc⟩ := hpending
    obtain ⟨k, hk⟩ := List.mem_iff_getElem?.mp htask
    rcases not_stuck htype hinv hk hpc with ⟨s', hs'⟩ | ⟨s', hs'⟩
    · exact ⟨.test k, s', hs'⟩
    · exact ⟨.send k, s', hs'⟩

/-- When all have returned, every fragment was sent. -/
theorem finished_sent (hinv : Inv h s) (hs : Finished s) :
    (s.sent : Multiset Sent) = (Multiset.range h.count).map (stripe h) := by
  obtain ⟨hq, hreturned⟩ := hs
  have hnone : (s.tasks : Multiset Task).bind (fun task => remaining h task.i) = 0 := by
    have hzero : ∀ task ∈ (s.tasks : Multiset Task), remaining h task.i = 0 := by
      intro task htask
      obtain ⟨k, hk⟩ := List.mem_iff_getElem?.mp htask
      obtain ⟨j, hat⟩ := hinv.tasks k task hk
      rw [hat.i]
      exact remaining_returned (hat.returned (hreturned task htask)) hat.bound
    rw [Multiset.bind_congr hzero, Multiset.bind_zero]
  have hledger := hinv.ledger
  rw [hnone, hq, Multiset.coe_nil, Multiset.zero_bind, zero_add, zero_add] at hledger
  rw [← hledger, Multiset.map_coe, List.map_map]
  congr 1
  conv_lhs => rw [← List.map_id s.sent]
  apply List.map_congr_left
  intro m hm
  obtain ⟨i, hi, rfl, -⟩ := hinv.sent m hm
  rw [Function.comp_apply, stripe_fragment hi]
  rfl

/-! ### Striping -/

/-- The slice a message is sent from: the fragment's, inside the buffer, without a wrap
on the way there, and the one a reply to it is read into. -/
structure Slice (h : RequestHost) (m : Sent) : Prop where
  start : m.info.startDataBuff = m.fragment * 1024
  inside : m.info.startDataBuff + 1024 ≤ h.dataLen.toNat
  place : m.info.atlasHeader.iotOffset.toNat = (h.firstBlock + m.fragment) * 128
  reply : h.nbqReq.nbdReq.reqType = NBD_CMD_READ → ∀ (header : AtlasHeader) (data rest : List UInt8)
    (cuts : ℕ → ℕ), header.fragmentUid = m.info.atlasHeader.fragmentUid → data.length = 1024 →
      ∃ req cuts', h.readReaply ⟨header.store ++ (data ++ rest), cuts⟩ = .ok (req, ⟨rest, cuts'⟩) ∧
        req.nbqReq.nbdReq.dataBuf = h.nbqReq.nbdReq.dataBuf.write m.info.startDataBuff data

/-- What holds in a state `s` that the steps of `trace` lead to. -/
structure Striped (h : RequestHost) (trace : List (State × Label)) (s : State) : Prop where
  length : trace.length ≤ 2 * (h.dataLen.toNat / 1024) + 2 * min (h.dataLen.toNat / 1024) 8
  moves : ∀ k task, s.tasks[k]? = some task → task.pc ≠ .returned →
    (∃ s', step h s (.test k) = some s') ∨ ∃ s', step h s (.send k) = some s'
  progress : ¬Finished s → ∃ l s', step h s l = some s'
  sent : Finished s →
    (s.sent : Multiset Sent) = (Multiset.range (h.dataLen.toNat / 1024)).map (stripe h)
  order : s.sent.Pairwise fun a b =>
    a.info.sockfd = b.info.sockfd → a.task = b.task ∧ a.fragment < b.fragment
  slice : ∀ m ∈ s.sent, Slice h m

theorem slice_stripe (hplaces : Places h) {i : ℕ} (hi : i < h.count) : Slice h (stripe h i) := by
  have hblock := hplaces.block_lt hi
  have hfragment := stripe_fragment hi
  have huid : (UInt32.ofNat i).toNat = i := hfragment
  have hcount := hi
  rw [RequestHost.count_eq] at hcount
  refine ⟨by rw [hfragment]; rfl, ?_, ?_, fun hread header data rest cuts hheader hdata => ?_⟩
  · show i * 1024 + 1024 ≤ _
    omega
  · rw [hfragment]
    exact UInt32.toNat_ofNat_of_lt' (show (h.firstBlock + i) * 128 < 2 ^ 32 by omega)
  · have hslice := h.slice_inside (i := header.fragmentUid) (by rw [hheader]; exact huid.symm ▸ hi)
    have hstart : (header.fragmentUid * fragSize).toNat = i * 1024 := by
      rw [hslice.1, hheader]
      show (UInt32.ofNat i).toNat * 1024 = _
      rw [huid]
    have hfits : Fits h header := by
      intro _
      rw [hslice.1]
      exact hslice.2
    obtain ⟨cuts', hreply⟩ := readReaply_store h header data rest cuts
      (by rw [dataLength, if_pos hread]; exact hdata)
    rw [if_pos hfits] at hreply
    refine ⟨_, cuts', hreply, ?_⟩
    show h.nbqReq.nbdReq.dataBuf.write (header.fragmentUid * fragSize).toNat data = _
    rw [hstart]
    rfl

/-- **Striping.** Whatever the order of the steps, the tasks of a request all end, and
have then sent one message for each fragment, each of them the fragment's own; a
socket is one task's and sees its fragments in order. -/
theorem striping (h : RequestHost) (hplaces : Places h) (htype : Registered h.nbqReq.nbdReq.reqType)
    {trace : List (State × Label)} {s : State} (run : (machine h).Run (init h) trace s) :
    Striped h trace s := by
  have hbounded := run.bounded (P := Inv h) (r := fun _ _ => True) (m := left h) inv_init
    (fun _ l _ hinv _ hs => ⟨inv_step hplaces l hinv hs, left_step hinv hs⟩) (fun _ _ => trivial)
  obtain ⟨hinv, hlength⟩ := hbounded
  rw [left_init, RequestHost.count_eq] at hlength
  refine ⟨by omega, fun k task hk hpc => not_stuck htype hinv hk hpc, progress htype hinv, fun hs => ?_,
    ?_, fun m hm => ?_⟩
  · rw [← RequestHost.count_eq]
    exact finished_sent hinv hs
  · refine hinv.order.imp_of_mem fun {a b} ha hb hab hsock => ?_
    obtain ⟨i, hi, rfl, -⟩ := hinv.sent a ha
    obtain ⟨j, hj, rfl, -⟩ := hinv.sent b hb
    -- Fragments of one node are eight apart, as are those of one task.
    have hnode : (h.firstBlock + i) % 8 + 1 = (h.firstBlock + j) % 8 + 1 := hsock
    have htask : (stripe h i).task = (stripe h j).task := by
      show i % 8 = j % 8
      omega
    exact ⟨htask, hab htask⟩
  · obtain ⟨i, hi, rfl, -⟩ := hinv.sent m hm
    exact slice_stripe hplaces hi

/-- A WRITE of nine fragments: the first task goes around its loop twice. -/
def nineFragments : RequestHost :=
  RequestHost.create 7 ⟨⟨NBD_CMD_WRITE, 9216, 5120, fun _ => 0⟩, ⟨0, 0, []⟩⟩

theorem striping_nine : ∃ trace s, (machine nineFragments).Run (init nineFragments) trace s ∧
    (Finished s ∧ s.sent.length = 9) ∧ Striped nineFragments trace s := by
  obtain ⟨trace, s, run, hgood⟩ := (machine nineFragments).run_of_replay (init nineFragments)
    (List.replicate 8 .async ++ (List.range 8).flatMap (fun k => [.test k, .send k]) ++
      [.test 0, .send 0] ++ (List.range 8).map .test)
    (fun r => r.2.queueing.isEmpty && r.2.tasks.all (fun task => task.pc = .returned) &&
      r.2.sent.length == 9) (by decide +kernel)
  have hstriped := striping nineFragments (by unfold Places; decide) (Or.inr rfl) run
  simp only [Bool.and_eq_true, List.isEmpty_iff, List.all_eq_true, decide_eq_true_eq, beq_iff_eq] at hgood
  exact ⟨trace, s, run, hgood, hstriped⟩

end PrivateCloud.Dispatch.Striping
