import Mathlib.Data.Multiset.Range
import PrivateCloud.Atlas.Pooled

/-! The pooled server answers each request once.

An address is freed and used again, so it names a request for as long as that request is
live and no longer. What makes this enough is that a request is in one place at a time:
with the task that will send it, on its way to the node, on its way back, or answered.
The address is freed with the request's only reply, when no task, no message and no
other reply has it. -/
namespace PrivateCloud.Atlas.Server
open Nbd

variable {s s' : Server}

/-- The request as it is answered, with what the node had for it. -/
def received (message : NbdMessage) (data : List UInt8) : NbdMessage :=
  if message.nbdReq.reqType = NBD_CMD_READ then
    {message with nbdReq := {message.nbdReq with dataBuf := message.nbdReq.dataBuf.write 0 data}}
  else message

/-- How much data comes with the reply. -/
def dataLength (request : NbdRequest) : ℕ :=
  if request.reqType = NBD_CMD_READ then request.dataLen.toNat else 0

/-- Where every request is. -/
def ledger (s : Server) : Multiset ℕ :=
  (s.tasks : Multiset Task).map Task.id + (s.wire : Multiset Message).map Message.id +
    (s.pending : Multiset Message).map Message.id +
    ((s.completed : Multiset (ℕ × List UInt8)).map Prod.fst)

/-- The address is that of request `id`, which is live. -/
def Holds (s : Server) (address : UInt64) (id : ℕ) : Prop :=
  s.heap address = some (id, s.request id)

structure TaskOk (s : Server) (task : Task) : Prop where
  holds : Holds s task.info.req task.id
  header : ∃ alarmUid, task.info.header =
    convertToAtlas task.info.req alarmUid (s.request task.id).nbdReq

structure MessageOk (s : Server) (m : Message) : Prop where
  holds : Holds s m.header.requestUid m.id
  type : m.header.type = (s.request m.id).nbdReq.reqType
  len : m.header.len = (s.request m.id).nbdReq.dataLen

structure ReplyOk (s : Server) (r : Message) : Prop where
  holds : Holds s r.header.requestUid r.id
  data : r.payload.length = dataLength (s.request r.id).nbdReq
  answered : s.answered r.id = some r.payload

/-- Answered, and with what the node sent for it. -/
def DoneOk (s : Server) (id : ℕ) (bytes : List UInt8) : Prop :=
  ∃ data, s.answered id = some data ∧ bytes = nbdRequestDone (received (s.request id) data) 0

structure Inv (s : Server) : Prop where
  ledger : s.ledger = Multiset.range s.created
  task : ∀ task ∈ s.tasks, TaskOk s task
  message : ∀ m ∈ s.wire, MessageOk s m
  reply : ∀ r ∈ s.pending, ReplyOk s r
  stream : s.stream = s.pending.flatMap Message.bytes
  done : ∀ e ∈ s.completed, DoneOk s e.1 e.2

theorem inv_init : Inv init where
  ledger := rfl
  task := fun _ h => nomatch h
  message := fun _ h => nomatch h
  reply := fun _ h => nomatch h
  stream := rfl
  done := fun _ h => nomatch h

/-! ### One place at a time -/

theorem Inv.nodup (h : Inv s) : s.ledger.Nodup := by
  rw [h.ledger]
  exact Multiset.nodup_range _

theorem Inv.id_lt (h : Inv s) {id : ℕ} (hid : id ∈ s.ledger) : id < s.created := by
  rw [h.ledger] at hid
  exact Multiset.mem_range.mp hid

/-- The places of a request, one by one. -/
theorem mem_ledger {id : ℕ} : id ∈ s.ledger ↔ (((∃ t ∈ s.tasks, t.id = id) ∨
    ∃ m ∈ s.wire, m.id = id) ∨ ∃ r ∈ s.pending, r.id = id) ∨ ∃ e ∈ s.completed, e.1 = id := by
  simp only [ledger, Multiset.mem_add, Multiset.mem_map, Multiset.mem_coe]

theorem mem_ledger_task {task : Task} (h : task ∈ s.tasks) : task.id ∈ s.ledger :=
  mem_ledger.mpr (Or.inl (Or.inl (Or.inl ⟨task, h, rfl⟩)))

theorem mem_ledger_message {m : Message} (h : m ∈ s.wire) : m.id ∈ s.ledger :=
  mem_ledger.mpr (Or.inl (Or.inl (Or.inr ⟨m, h, rfl⟩)))

theorem mem_ledger_reply {r : Message} (h : r ∈ s.pending) : r.id ∈ s.ledger :=
  mem_ledger.mpr (Or.inl (Or.inr ⟨r, h, rfl⟩))

theorem mem_ledger_done {e : ℕ × List UInt8} (h : e ∈ s.completed) : e.1 ∈ s.ledger :=
  mem_ledger.mpr (Or.inr ⟨e, h, rfl⟩)

/-- A request that is anywhere else has not been answered. -/
theorem Inv.not_done (h : Inv s) {id : ℕ} (hid : ((∃ t ∈ s.tasks, t.id = id) ∨
    ∃ m ∈ s.wire, m.id = id) ∨ ∃ r ∈ s.pending, r.id = id) : id ∉ s.completed.map Prod.fst := by
  intro hdone
  refine Multiset.disjoint_left.mp (Multiset.nodup_add.mp h.nodup).2.2 ?_
    (Multiset.mem_map.mpr (List.mem_map.mp hdone))
  simp only [Multiset.mem_add, Multiset.mem_map, Multiset.mem_coe]
  exact hid

/-- The request of a message is with no reply, and not answered. -/
theorem Inv.alone_message (h : Inv s) {k : ℕ} {m : Message} (hk : s.wire[k]? = some m) :
    (∀ r ∈ s.pending, r.id ≠ m.id) ∧ ∀ e ∈ s.completed, e.1 ≠ m.id := by
  have hnodup := h.nodup
  rw [Server.ledger, Bag.coe_eq_cons hk, Multiset.map_cons, Multiset.add_cons, Multiset.cons_add,
    Multiset.cons_add, Multiset.nodup_cons] at hnodup
  have halone := hnodup.1
  simp only [Multiset.mem_add, Multiset.mem_map, Multiset.mem_coe, not_or, not_exists, not_and] at halone
  exact ⟨halone.1.2, halone.2⟩

/-- The request of the first reply is nowhere else. -/
theorem Inv.alone_reply (h : Inv s) {r : Message} {rest : List Message} (hp : s.pending = r :: rest) :
    (∀ t ∈ s.tasks, t.id ≠ r.id) ∧ (∀ m ∈ s.wire, m.id ≠ r.id) ∧ (∀ r' ∈ rest, r'.id ≠ r.id) ∧
      ∀ e ∈ s.completed, e.1 ≠ r.id := by
  have hnodup := h.nodup
  rw [Server.ledger, hp, ← Multiset.cons_coe, Multiset.map_cons, Multiset.add_cons, Multiset.cons_add,
    Multiset.nodup_cons] at hnodup
  have halone := hnodup.1
  simp only [Multiset.mem_add, Multiset.mem_map, Multiset.mem_coe, not_or, not_exists, not_and] at halone
  obtain ⟨⟨⟨htask, hmessage⟩, hreply⟩, hdone⟩ := halone
  exact ⟨htask, hmessage, hreply, hdone⟩

/-! ### A request, a task, a send, an answer -/

/-- A step under which a request's address and bookkeeping stay what they were. -/
structure Keeps (s s' : Server) (id : ℕ) : Prop where
  heap : ∀ address, Holds s address id → Holds s' address id
  request : s'.request id = s.request id
  answered : s'.answered id = s.answered id

namespace Keeps

theorem task {task : Task} (hk : Keeps s s' task.id) (h : TaskOk s task) : TaskOk s' task where
  holds := hk.heap _ h.holds
  header := by rw [hk.request]; exact h.header

theorem message {m : Message} (hk : Keeps s s' m.id) (h : MessageOk s m) : MessageOk s' m where
  holds := hk.heap _ h.holds
  type := by rw [hk.request]; exact h.type
  len := by rw [hk.request]; exact h.len

theorem reply {r : Message} (hk : Keeps s s' r.id) (h : ReplyOk s r) : ReplyOk s' r where
  holds := hk.heap _ h.holds
  data := by rw [hk.request]; exact h.data
  answered := by rw [hk.answered]; exact h.answered

theorem done {id : ℕ} {bytes : List UInt8} (hk : Keeps s s' id) (h : DoneOk s id bytes) :
    DoneOk s' id bytes := by
  unfold DoneOk
  rw [hk.answered, hk.request]
  exact h

end Keeps

theorem inv_nbd {message : NbdMessage} {address : UInt64} {alarmUid : UInt32} (h : Inv s)
    (hs : s.step (.nbd message address alarmUid) = some s') : Inv s' := by
  obtain ⟨hfree, rfl⟩ := nbd_cases hs
  set s' : Server := { s with
    heap := Function.update s.heap address (some (s.created, message))
    created := s.created + 1
    tasks := ⟨s.created, ⟨convertToAtlas address alarmUid message.nbdReq, address⟩, .start⟩ :: s.tasks
    request := Function.update s.request s.created message } with hs'
  have hnew : s'.request s.created = message := Function.update_self ..
  have hkeeps {id : ℕ} (hid : id ∈ s.ledger) : Keeps s s' id := by
    have hreq : s'.request id = s.request id :=
      Function.update_of_ne (Nat.ne_of_lt (h.id_lt hid)) _ _
    refine ⟨fun a ha => ?_, hreq, rfl⟩
    -- The new address was not in use, so it is not this one.
    have hne : a ≠ address := by
      rintro rfl
      cases hfree.symm.trans ha
    rw [Holds, hreq]
    exact (Function.update_of_ne hne _ _).trans ha
  refine ⟨?_, fun task ht => ?_, fun m hm => ?_, fun r hr => ?_, h.stream, fun e he => ?_⟩
  · show ((_ :: s.tasks : List Task) : Multiset Task).map Task.id + _ + _ + _ = _
    rw [← Multiset.cons_coe, Multiset.map_cons, Multiset.cons_add, Multiset.cons_add, Multiset.cons_add,
      Multiset.range_succ]
    exact congrArg _ h.ledger
  · rcases List.mem_cons.mp ht with rfl | ht
    · refine ⟨?_, alarmUid, by rw [hnew]⟩
      rw [Holds, hnew]
      exact Function.update_self ..
    · exact (hkeeps (mem_ledger_task ht)).task (h.task task ht)
  · exact (hkeeps (mem_ledger_message hm)).message (h.message m hm)
  · exact (hkeeps (mem_ledger_reply hr)).reply (h.reply r hr)
  · exact (hkeeps (mem_ledger_done he)).done (h.done e he)

theorem inv_prepare {k : ℕ} (h : Inv s) (hs : s.step (.prepare k) = some s') : Inv s' := by
  obtain ⟨task, live, hk, -, -, rfl⟩ := prepare_cases hs
  have hkeeps {tasks : List Task} {id : ℕ} : Keeps s {s with tasks := tasks} id :=
    ⟨fun _ ha => ha, rfl, rfl⟩
  refine ⟨?_, fun t ht => hkeeps.task ?_, fun m hm => hkeeps.message (h.message m hm),
    fun r hr => hkeeps.reply (h.reply r hr), h.stream, fun e he => hkeeps.done (h.done e he)⟩
  · have hmap : ((s.tasks.set k {task with pc := .sendmsg (payload live.2.nbdReq)} : List Task) :
        Multiset Task).map Task.id = (s.tasks : Multiset Task).map Task.id := by
      rw [Bag.coe_set hk, Bag.coe_eq_cons hk, Multiset.map_cons, Multiset.map_cons]
    show ((s.tasks.set k _ : List Task) : Multiset Task).map Task.id + _ + _ + _ = _
    rw [hmap]
    exact h.ledger
  · rcases Bag.mem_set ht with rfl | ht
    · have hok := h.task task (List.mem_of_getElem? hk)
      exact ⟨hok.holds, hok.header⟩
    · exact h.task t ht

theorem inv_send {k : ℕ} (h : Inv s) (hs : s.step (.send k) = some s') : Inv s' := by
  obtain ⟨task, iov, payload, hk, -, -, rfl⟩ := send_cases hs
  have hkeeps {id : ℕ} : Keeps s { s with
      tasks := s.tasks.eraseIdx k
      wire := ⟨task.id, task.info.header, payload⟩ :: s.wire } id := ⟨fun _ ha => ha, rfl, rfl⟩
  refine ⟨?_, fun t ht => hkeeps.task (h.task t (List.mem_of_mem_eraseIdx ht)),
    fun m hm => hkeeps.message ?_, fun r hr => hkeeps.reply (h.reply r hr), h.stream,
    fun e he => hkeeps.done (h.done e he)⟩
  · have hledger := h.ledger
    rw [ledger, Bag.coe_eq_cons hk, Multiset.map_cons] at hledger
    show ((s.tasks.eraseIdx k : List Task) : Multiset Task).map Task.id +
      ((_ :: s.wire : List Message) : Multiset Message).map Message.id + _ + _ = _
    rw [← Multiset.cons_coe, Multiset.map_cons, Multiset.add_cons, ← Multiset.cons_add]
    exact hledger
  · rcases List.mem_cons.mp hm with rfl | hm
    · have hok := h.task task (List.mem_of_getElem? hk)
      obtain ⟨alarmUid, hheader⟩ := hok.header
      constructor
      · rw [hheader]
        exact hok.holds
      · rw [hheader]
        rfl
      · rw [hheader]
        rfl
    · exact h.message m hm

theorem inv_answer {k : ℕ} {header : AtlasHeader} {data : List UInt8} (h : Inv s)
    (hrule : Echoes s (.answer k header data)) (hs : s.step (.answer k header data) = some s') :
    Inv s' := by
  obtain ⟨m, hk, rfl⟩ := answer_cases hs
  obtain ⟨rfl, hdata⟩ := hrule m hk
  have hmem := List.mem_of_getElem? hk
  have hok := h.message m hmem
  set s' : Server := { s with
    wire := s.wire.eraseIdx k
    stream := s.stream ++ (m.header.store ++ data)
    pending := s.pending ++ [⟨m.id, m.header, data⟩]
    answered := Function.update s.answered m.id (some data) } with hs'
  obtain ⟨hreply, hdone⟩ := h.alone_message hk
  have hkeeps {id : ℕ} (hne : id ≠ m.id) : Keeps s s' id :=
    ⟨fun _ ha => ha, rfl, Function.update_of_ne hne _ _⟩
  refine ⟨?_, fun t ht => ?_, fun m' hm' => ?_, fun r hr => ?_, ?_, fun e he => ?_⟩
  · have hledger := h.ledger
    rw [ledger, Bag.coe_eq_cons hk, Multiset.map_cons] at hledger
    rw [← hledger]
    show _ + ((s.wire.eraseIdx k : List Message) : Multiset Message).map Message.id +
      ((s.pending ++ [_] : List Message) : Multiset Message).map Message.id + _ = _
    rw [← Multiset.coe_add, Multiset.map_add, Multiset.coe_singleton, Multiset.map_singleton,
      ← Multiset.singleton_add]
    ac_rfl
  · exact ⟨(h.task t ht).holds, (h.task t ht).header⟩
  · have hm := h.message m' (List.mem_of_mem_eraseIdx hm')
    exact ⟨hm.holds, hm.type, hm.len⟩
  · rcases List.mem_append.mp hr with hr | hr
    · exact (hkeeps (hreply r hr)).reply (h.reply r hr)
    · obtain rfl := List.mem_singleton.mp hr
      refine ⟨hok.holds, ?_, Function.update_self ..⟩
      show data.length = dataLength (s.request m.id).nbdReq
      rw [hdata, hok.type, hok.len]
      rfl
  · rw [hs', List.flatMap_append, ← h.stream]
    simp [Message.bytes]
  · exact (hkeeps (hdone e he)).done (h.done e he)

/-! ### A reply read -/

/-- **The reply at the front of the stream** is handled as what it is: by the request it
is for, with the data that came with it. -/
theorem Inv.iotHandle (h : Inv s) (hstream : s.stream ≠ []) (cuts : ℕ → ℕ) :
    ∃ r rest cuts', s.pending = r :: rest ∧ s.iotHandle ⟨s.stream, cuts⟩ =
      .ok (r.header.requestUid, r.id, received (s.request r.id) r.payload,
        ⟨rest.flatMap Message.bytes, cuts'⟩) := by
  cases hpending : s.pending with
  | nil =>
    rw [h.stream, hpending] at hstream
    exact absurd rfl hstream
  | cons r rest =>
    have hok := h.reply r (hpending ▸ List.mem_cons_self)
    obtain ⟨cuts₁, hheader⟩ := Socket.readLoop_append r.header.store
      (r.payload ++ rest.flatMap Message.bytes) cuts r.header.store_length
    have hlive : s.heap r.header.requestUid = some (r.id, s.request r.id) := hok.holds
    have hdata := hok.data
    rw [h.stream, hpending, List.flatMap_cons, Message.bytes, List.append_assoc]
    simp only [Server.iotHandle, readAll, hheader, AtlasHeader.load_store, hlive, receiveData]
    by_cases hread : (s.request r.id).nbdReq.reqType = NBD_CMD_READ
    · rw [dataLength, if_pos hread] at hdata
      obtain ⟨cuts₂, hloop⟩ := Socket.readLoop_append r.payload (rest.flatMap Message.bytes) cuts₁ hdata
      refine ⟨r, rest, cuts₂, rfl, ?_⟩
      simp only [if_pos hread, hloop, received]
    · rw [dataLength, if_neg hread] at hdata
      refine ⟨r, rest, cuts₁, rfl, ?_⟩
      simp only [if_neg hread, received, List.length_eq_zero_iff.mp hdata, List.nil_append]

theorem inv_iot {cuts : ℕ → ℕ} (h : Inv s) (hs : s.step (.iot cuts) = some s') : Inv s' := by
  obtain ⟨hstream, req, id, message, socket, hiot, rfl⟩ := iot_cases hs
  obtain ⟨r, rest, cuts', hpending, hok⟩ := h.iotHandle hstream cuts
  have heq := Except.ok.inj (hiot.symm.trans hok)
  simp only [Prod.mk.injEq] at heq
  obtain ⟨rfl, rfl, rfl, rfl⟩ := heq
  have hr := h.reply r (hpending ▸ List.mem_cons_self)
  have hledger := h.ledger
  rw [ledger, hpending, ← Multiset.cons_coe, Multiset.map_cons, Multiset.add_cons, Multiset.cons_add]
    at hledger
  obtain ⟨htask, hmessage, hreply, hdone⟩ := h.alone_reply hpending
  set s' : Server := { s with
    heap := Function.update s.heap r.header.requestUid none
    stream := rest.flatMap Message.bytes
    pending := s.pending.tail
    completed := s.completed ++
      [(r.id, nbdRequestDone (received (s.request r.id) r.payload) 0)] } with hs'
  -- Another request has another address.
  have hkeeps {id : ℕ} (hne : id ≠ r.id) : Keeps s s' id := by
    refine ⟨fun a ha => ?_, rfl, rfl⟩
    have haddress : a ≠ r.header.requestUid := by
      rintro rfl
      exact hne (Prod.mk.inj (Option.some.inj (ha.symm.trans hr.holds))).1
    exact (Function.update_of_ne haddress _ _).trans ha
  refine ⟨?_, fun t ht => ?_, fun m hm => ?_, fun r' hr' => ?_, ?_, fun e he => ?_⟩
  · rw [← hledger]
    show _ + _ + ((s.pending.tail : List Message) : Multiset Message).map Message.id +
      ((s.completed ++ [_] : List (ℕ × List UInt8)) : Multiset (ℕ × List UInt8)).map Prod.fst = _
    rw [hpending, List.tail_cons, ← Multiset.coe_add, Multiset.map_add, Multiset.coe_singleton,
      Multiset.map_singleton, ← Multiset.singleton_add]
    ac_rfl
  · exact (hkeeps (htask t ht)).task (h.task t ht)
  · exact (hkeeps (hmessage m hm)).message (h.message m hm)
  · have hrest : r' ∈ rest := by
      rw [hs', hpending] at hr'
      exact hr'
    exact (hkeeps (hreply r' hrest)).reply (h.reply r' (hpending ▸ List.mem_cons_of_mem _ hrest))
  · rw [hs', hpending]
    rfl
  · rcases List.mem_append.mp he with he | he
    · exact (hkeeps (hdone e he)).done (h.done e he)
    · obtain rfl := List.mem_singleton.mp he
      exact ⟨r.payload, hr.answered, rfl⟩

theorem inv_step {l : Label} (h : Inv s) (hrule : Echoes s l) (hs : s.step l = some s') : Inv s' := by
  cases l with
  | nbd message address alarmUid => exact inv_nbd h hs
  | prepare k => exact inv_prepare h hs
  | send k => exact inv_send h hs
  | answer k header data => exact inv_answer h hrule hs
  | iot cuts => exact inv_iot h hs

theorem run_inv {trace : List (Server × Label)} (run : machine.Run init trace s)
    (hrule : Machine.Meets Echoes trace) : Inv s :=
  run.invariant inv_init (fun _ _ _ h hrule hs => inv_step h hrule hs) hrule

/-- The request has been read and not been answered, and lives at this address. -/
structure Live (s : Server) (address : UInt64) (id : ℕ) : Prop where
  created : id < s.created
  notDone : id ∉ s.completed.map Prod.fst
  holds : s.heap address = some (id, s.request id)

/-- What the pooled server keeps to. -/
structure AnswersOnce (s : Server) : Prop where
  /-- A header that is read names a live request, which takes the data sent for it. -/
  reads : ∀ cuts, s.stream ≠ [] → ∃ address id data socket,
    s.iotHandle ⟨s.stream, cuts⟩ = .ok (address, id, received (s.request id) data, socket) ∧
      (AtlasHeader.load (s.stream.take sizeofAtlasHeader)).requestUid = address ∧
      Live s address id ∧ s.answered id = some data
  tasks : ∀ task ∈ s.tasks, Live s task.info.req task.id
  done : ∀ e ∈ s.completed, ∃ data, s.answered e.1 = some data ∧
    e.2 = nbdRequestDone (received (s.request e.1) data) 0
  once : (s.completed.map Prod.fst).Nodup
  /-- With nothing left to do, every request has been answered. -/
  all : s.tasks = [] → s.wire = [] → s.stream = [] → ∀ id < s.created, id ∈ s.completed.map Prod.fst

/-- **Each request is answered once**, for what the node sent back for it, over every
interleaving and whatever addresses the heap gives out. -/
theorem answers_once {trace : List (Server × Label)} (run : machine.Run init trace s)
    (hrule : Machine.Meets Echoes trace) : AnswersOnce s := by
  have h := run_inv run hrule
  refine ⟨fun cuts hstream => ?_, fun task ht => ?_, h.done, ?_, fun htasks hwire hstream id hid => ?_⟩
  · obtain ⟨r, rest, cuts', hpending, hiot⟩ := h.iotHandle hstream cuts
    have hr : r ∈ s.pending := hpending ▸ List.mem_cons_self
    refine ⟨r.header.requestUid, r.id, r.payload, _, hiot, ?_, ⟨h.id_lt (mem_ledger_reply hr),
      h.not_done (Or.inr ⟨r, hr, rfl⟩), (h.reply r hr).holds⟩, (h.reply r hr).answered⟩
    rw [h.stream, hpending, List.flatMap_cons, Message.bytes, List.append_assoc,
      List.take_left' r.header.store_length, AtlasHeader.load_store]
  · exact ⟨h.id_lt (mem_ledger_task ht), h.not_done (Or.inl (Or.inl ⟨task, ht, rfl⟩)), (h.task task ht).holds⟩
  · have hnodup := (Multiset.nodup_add.mp h.nodup).2.1
    rwa [Multiset.map_coe, Multiset.coe_nodup] at hnodup
  · have hpending : s.pending = [] := by
      cases hp : s.pending with
      | nil => rfl
      | cons r rest =>
        rw [h.stream, hp, List.flatMap_cons, Message.bytes, List.append_assoc] at hstream
        have hlen := congrArg List.length hstream
        rw [List.length_append, AtlasHeader.store_length] at hlen
        simp [sizeofAtlasHeader] at hlen
    have hledger := h.ledger
    rw [ledger, htasks, hwire, hpending] at hledger
    have hmem : id ∈ Multiset.range s.created := Multiset.mem_range.mpr hid
    rw [← hledger] at hmem
    simpa using hmem

/-- A READ and, at the same address, a WRITE after it. -/
theorem answers_once_reused : ∃ trace s, machine.Run init trace s ∧
    s.completed.map Prod.fst = [0, 1] ∧ AnswersOnce s := by
  obtain ⟨trace, s, run, h⟩ := Machine.run_of_replay machine init
    [.nbd ⟨⟨NBD_CMD_READ, 2, 0, fun _ => 0⟩, ⟨0, 0, []⟩⟩ 64 0, .prepare 0, .send 0,
      .answer 0 ⟨64, 0, 0, NBD_CMD_READ, 2⟩ [5, 6], .iot fun _ => 1,
      .nbd ⟨⟨NBD_CMD_WRITE, 2, 0, fun _ => 9⟩, ⟨0, 0, []⟩⟩ 64 0, .prepare 0, .send 0,
      .answer 0 ⟨64, 0, 0, NBD_CMD_WRITE, 2⟩ [], .iot fun _ => 1]
    (fun e => decide (Machine.Meets Echoes e.1 ∧ e.2.completed.map Prod.fst = [0, 1]))
    (by decide +kernel)
  obtain ⟨hrule, hdone⟩ := of_decide_eq_true h
  exact ⟨trace, s, run, hdone, answers_once run hrule⟩

end PrivateCloud.Atlas.Server
