import PrivateCloud.Atlas.Once
import PrivateCloud.Local.Device

/-! The pooled server and its node, as the device that the kernel sees.

The node is not in the repository; what it keeps is beside the server, and what it is
assumed to do is a rule (`Serves`): it echoes a header, stores the payload of a WRITE at
`m_iotOffset` and sends the bytes there for a READ. It takes the messages in whatever
order they reach it.

With such a node the server is a device on which every request takes effect at one
moment between being read and being answered, the moment in which the node handles it
(`device_linearizable`), whatever requests are on their way at once. -/
namespace PrivateCloud.Atlas
open Nbd Object

/-- What a message does to the store: a WRITE puts its payload there. -/
def Message.stores (m : Message) (store : Memory) : Memory :=
  if m.header.type = NBD_CMD_WRITE then store.write m.header.iotOffset.toNat m.payload else store

/-- What is in the store for it: of a READ, the bytes asked for. -/
def Message.fetch (m : Message) (store : Memory) : List UInt8 :=
  if m.header.type = NBD_CMD_READ then store.read m.header.iotOffset.toNat m.header.len.toNat else []

structure System where
  server : Server
  store : Memory

namespace System
open Server

/-- The node's storage is what it is. -/
def init (storage : Memory) : System := ⟨Server.init, storage⟩

def storeAfter (s : System) : Label → Memory
  | .answer k _ _ =>
    match s.server.wire[k]? with
    | some m => m.stores s.store
    | none => s.store
  | .nbd _ _ _ | .prepare _ | .send _ | .iot _ => s.store

def step (s : System) (l : Label) : Option System :=
  (s.server.step l).map fun server => ⟨server, s.storeAfter l⟩

def machine (storage : Memory) : Machine System Label := ⟨init storage, step⟩

/-- The node serves, and is asked for nothing its `m_iotOffset` cannot name. -/
def Serves (s : System) : Label → Prop
  | .nbd message _ _ => message.nbdReq.offset.toNat < 2 ^ 32
  | .answer k header data => ∀ m ∈ s.server.wire[k]?, header = m.header ∧ data = m.fetch s.store
  | .prepare _ | .send _ | .iot _ => True

instance (s : System) : (l : Label) → Decidable (Serves s l)
  | .nbd message _ _ => inferInstanceAs (Decidable (message.nbdReq.offset.toNat < 2 ^ 32))
  | .answer k header data =>
    inferInstanceAs (Decidable (∀ m ∈ s.server.wire[k]?, header = m.header ∧ data = m.fetch s.store))
  | .prepare _ | .send _ | .iot _ => isTrue trivial

variable {s s' : System} {storage : Memory}

theorem step_cases {l : Label} (h : s.step l = some s') :
    s.server.step l = some s'.server ∧ s'.store = s.storeAfter l := by
  obtain ⟨server, hserver, rfl⟩ := Option.map_eq_some_iff.mp h
  exact ⟨hserver, rfl⟩

theorem Serves.echoes {l : Label} (h : Serves s l) : Echoes s.server l := by
  cases l with
  | answer k header data =>
    intro m hm
    obtain ⟨rfl, rfl⟩ := h m hm
    refine ⟨rfl, ?_⟩
    by_cases hread : m.header.type = NBD_CMD_READ
    · rw [Message.fetch, if_pos hread, if_pos hread, Memory.read_length]
    · rw [Message.fetch, if_neg hread, if_neg hread, List.length_nil]
  | _ => trivial

/-! ### What is on its way -/

/-- The payload of a message about this request. -/
def written (request : NbdRequest) : List UInt8 :=
  if request.reqType = NBD_CMD_WRITE then request.dataBuf.read 0 request.dataLen.toNat else []

structure Kept (s : Server) : Prop where
  inv : Inv s
  /-- What the node answered is on its way back, or was answered. -/
  answered : ∀ id data, s.answered id = some data →
    (∃ r ∈ s.pending, r.id = id) ∨ id ∈ s.completed.map Prod.fst
  task : ∀ task ∈ s.tasks, ∀ iov, task.pc = .sendmsg iov → iov = payload (s.request task.id).nbdReq
  wire : ∀ m ∈ s.wire, m.header.iotOffset = (s.request m.id).nbdReq.offset.toUInt32 ∧
    m.payload = written (s.request m.id).nbdReq
  small : ∀ id < s.created, (s.request id).nbdReq.offset.toNat < 2 ^ 32

theorem kept_init : Kept Server.init where
  inv := inv_init
  answered := nofun
  task := nofun
  wire := nofun
  small := nofun

theorem Kept.unanswered {s : Server} (h : Kept s) {id : ℕ} (hpending : ∀ r ∈ s.pending, r.id ≠ id)
    (hdone : id ∉ s.completed.map Prod.fst) : s.answered id = none := by
  cases hanswered : s.answered id with
  | none => rfl
  | some data =>
    rcases h.answered id data hanswered with ⟨r, hr, hid⟩ | hid
    · exact absurd hid (hpending r hr)
    · exact absurd hid hdone

section Steps
variable {s s' : Server}

theorem kept_nbd {message : NbdMessage} {address : UInt64} {alarmUid : UInt32} (h : Kept s)
    (hsmall : message.nbdReq.offset.toNat < 2 ^ 32)
    (hs : s.step (.nbd message address alarmUid) = some s') : Kept s' := by
  have hinv := inv_nbd h.inv hs
  obtain ⟨-, rfl⟩ := nbd_cases hs
  have hold {id : ℕ} (hid : id < s.created) :
      Function.update s.request s.created message id = s.request id :=
    Function.update_of_ne (Nat.ne_of_lt hid) _ _
  refine ⟨hinv, h.answered, fun task ht iov hiov => ?_, fun m hm => ?_, fun id hid => ?_⟩
  · rcases List.mem_cons.mp ht with rfl | ht
    · cases hiov
    · have hlt := h.inv.id_lt (mem_ledger_task ht)
      show iov = payload (Function.update s.request s.created message task.id).nbdReq
      rw [hold hlt]
      exact h.task task ht iov hiov
  · have hlt := h.inv.id_lt (mem_ledger_message hm)
    show _ = (Function.update s.request s.created message m.id).nbdReq.offset.toUInt32 ∧
      _ = written (Function.update s.request s.created message m.id).nbdReq
    rw [hold hlt]
    exact h.wire m hm
  · show (Function.update s.request s.created message id).nbdReq.offset.toNat < 2 ^ 32
    rcases Nat.lt_succ_iff_lt_or_eq.mp hid with hlt | rfl
    · rw [hold hlt]
      exact h.small id hlt
    · rw [Function.update_self]
      exact hsmall

theorem kept_prepare {k : ℕ} (h : Kept s) (hs : s.step (.prepare k) = some s') : Kept s' := by
  have hinv := inv_prepare h.inv hs
  obtain ⟨task, live, hk, -, hlive, rfl⟩ := prepare_cases hs
  have hholds := (h.inv.task _ (List.mem_of_getElem? hk)).holds
  obtain rfl := Option.some.inj (hlive.symm.trans hholds)
  refine ⟨hinv, h.answered, fun other ht iov hiov => ?_, h.wire, h.small⟩
  rcases Bag.mem_set ht with rfl | ht
  · exact (Pc.sendmsg.inj hiov).symm
  · exact h.task other ht iov hiov

/-- A task sends its request's payload: the request lives until it is answered. -/
theorem kept_send {k : ℕ} (h : Kept s) (hs : s.step (.send k) = some s') : Kept s' := by
  have hinv := inv_send h.inv hs
  obtain ⟨task, iov, bytes, hk, hpc, hgather, rfl⟩ := send_cases hs
  have hmem := List.mem_of_getElem? hk
  have hok := h.inv.task _ hmem
  obtain ⟨alarmUid, hheader⟩ := hok.header
  refine ⟨hinv, h.answered, fun other ht => h.task other (List.mem_of_mem_eraseIdx ht), fun m hm => ?_,
    h.small⟩
  rcases List.mem_cons.mp hm with rfl | hm
  · refine ⟨congrArg AtlasHeader.iotOffset hheader, ?_⟩
    have hiov := h.task _ hmem iov hpc
    show bytes = written (s.request task.id).nbdReq
    rw [written]
    by_cases hwrite : (s.request task.id).nbdReq.reqType = NBD_CMD_WRITE
    · rw [payload, if_pos hwrite] at hiov
      have hlive : s.heap task.info.req = some (task.id, s.request task.id) := hok.holds
      rw [if_pos hwrite]
      simpa only [gather, hiov, hlive, Option.map_some, Option.some.injEq, eq_comm] using hgather
    · rw [payload, if_neg hwrite] at hiov
      rw [if_neg hwrite]
      simpa only [gather, hiov, Option.some.injEq, eq_comm] using hgather
  · exact h.wire m hm

theorem kept_answer {k : ℕ} {header : AtlasHeader} {data : List UInt8} (h : Kept s)
    (hrule : Echoes s (.answer k header data)) (hs : s.step (.answer k header data) = some s') :
    Kept s' := by
  have hinv := inv_answer h.inv hrule hs
  obtain ⟨m, hk, rfl⟩ := answer_cases hs
  refine ⟨hinv, fun id d hid => ?_, h.task, fun m' hm' => h.wire m' (List.mem_of_mem_eraseIdx hm'),
    h.small⟩
  by_cases hm : id = m.id
  · subst hm
    exact Or.inl ⟨_, List.mem_append_right _ (List.mem_singleton_self _), rfl⟩
  · rcases h.answered id d ((Function.update_of_ne hm _ _).symm.trans hid) with ⟨r, hr, hrid⟩ | hdone
    · exact Or.inl ⟨r, List.mem_append_left _ hr, hrid⟩
    · exact Or.inr hdone

/-- What reading a reply does to the server. -/
theorem Kept.iot_cases {cuts : ℕ → ℕ} (h : Kept s) (hs : s.step (.iot cuts) = some s') :
    ∃ r rest socket, s.pending = r :: rest ∧ s.iotHandle ⟨s.stream, cuts⟩ =
        .ok (r.header.requestUid, r.id, received (s.request r.id) r.payload, socket) ∧ s' = { s with
      heap := Function.update s.heap r.header.requestUid none
      stream := socket.bytes
      pending := rest
      completed := s.completed ++ [(r.id, nbdRequestDone (received (s.request r.id) r.payload) 0)] } := by
  obtain ⟨hstream, req, id, message, socket, hiot, rfl⟩ := Server.iot_cases hs
  obtain ⟨r, rest, cuts', hpending, hok⟩ := h.inv.iotHandle hstream cuts
  have heq := Except.ok.inj (hiot.symm.trans hok)
  simp only [Prod.mk.injEq] at heq
  obtain ⟨rfl, rfl, rfl, rfl⟩ := heq
  refine ⟨r, rest, _, hpending, hok, ?_⟩
  rw [hpending, List.tail_cons]

theorem kept_iot {cuts : ℕ → ℕ} (h : Kept s) (hs : s.step (.iot cuts) = some s') : Kept s' := by
  have hinv := inv_iot h.inv hs
  obtain ⟨r, rest, socket, hpending, -, rfl⟩ := h.iot_cases hs
  refine ⟨hinv, fun id d hid => ?_, h.task, h.wire, h.small⟩
  rw [List.map_append, List.mem_append]
  rcases h.answered id d hid with ⟨r', hr', rfl⟩ | hid
  · rcases List.mem_cons.mp (hpending ▸ hr') with rfl | hr'
    · exact Or.inr (Or.inr (List.mem_singleton_self _))
    · exact Or.inl ⟨r', hr', rfl⟩
  · exact Or.inr (Or.inl hid)

end Steps

theorem kept_step {l : Label} (h : Kept s.server) (hrule : Serves s l) (hs : s.step l = some s') :
    Kept s'.server := by
  obtain ⟨hserver, -⟩ := step_cases hs
  cases l with
  | nbd message address alarmUid => exact kept_nbd h hrule hserver
  | prepare k => exact kept_prepare h hserver
  | send k => exact kept_send h hserver
  | answer k header data => exact kept_answer h hrule.echoes hserver
  | iot cuts => exact kept_iot h hserver

/-! ### The requests as calls -/

/-- How a request of this message is answered when the node had this for it. -/
def answerTo (message : NbdMessage) (data : List UInt8) : List UInt8 :=
  nbdRequestDone (received message data) 0

def phase (s : Server) (id : ℕ) : Phase NbdMessage (List UInt8) :=
  if id ∈ s.completed.map Prod.fst then .returned
  else
    match s.answered id with
    | some data => .committed (answerTo (s.request id) data)
    | none => if id < s.created then .invoked (s.request id) else .idle

/-- A request is made when it is read, is done when the node handles it, and returns
when its reply is put on the NBD socket. -/
def marks (s : System) : Label → List (Mark ℕ NbdMessage (List UInt8))
  | .nbd message _ _ => [.event (.invoke s.server.created message)]
  | .answer k _ data =>
    match s.server.wire[k]? with
    | some m => [.commit ⟨m.id, s.server.request m.id, answerTo (s.server.request m.id) data⟩]
    | none => []
  | .iot cuts =>
    match s.server.iotHandle ⟨s.server.stream, cuts⟩ with
    | .ok (_, id, message, _) => [.event (.respond id (nbdRequestDone message 0))]
    | .error _ => []
  | .prepare _ | .send _ => []

section Phases
variable {s s' : Server}

theorem phase_done {id : ℕ} (h : id ∈ s.completed.map Prod.fst) : phase s id = .returned := if_pos h

theorem phase_answered {id : ℕ} {data : List UInt8} (h : id ∉ s.completed.map Prod.fst)
    (hdata : s.answered id = some data) : phase s id = .committed (answerTo (s.request id) data) := by
  rw [phase, if_neg h, hdata]

theorem phase_created {id : ℕ} (h : id ∉ s.completed.map Prod.fst) (hnone : s.answered id = none)
    (hid : id < s.created) : phase s id = .invoked (s.request id) := by
  rw [phase, if_neg h, hnone]
  exact if_pos hid

theorem phase_idle {id : ℕ} (h : id ∉ s.completed.map Prod.fst) (hnone : s.answered id = none)
    (hid : ¬id < s.created) : phase s id = .idle := by
  rw [phase, if_neg h, hnone]
  exact if_neg hid

/-- The phases of the requests that a step does not concern. -/
theorem phase_congr {id : ℕ} (hdone : id ∈ s'.completed.map Prod.fst ↔ id ∈ s.completed.map Prod.fst)
    (hanswered : s'.answered id = s.answered id) (hrequest : s'.request id = s.request id)
    (hcreated : id < s'.created ↔ id < s.created) : phase s' id = phase s id := by
  simp only [phase, hdone, hanswered, hrequest, hcreated]

theorem Kept.not_created (h : Kept s) {id : ℕ} (hid : ¬id < s.created) :
    id ∉ s.completed.map Prod.fst ∧ s.answered id = none := by
  have hdone : id ∉ s.completed.map Prod.fst := fun hmem => by
    obtain ⟨e, he, rfl⟩ := List.mem_map.mp hmem
    exact hid (h.inv.id_lt (mem_ledger_done he))
  exact ⟨hdone, h.unanswered (fun r hr hrid => hid (hrid ▸ h.inv.id_lt (mem_ledger_reply hr))) hdone⟩

end Phases

/-- **The node does what the local server does**: its answer is the local server's reply,
and the store is the local server's storage. -/
theorem handle_answer {m : Message} {message : NbdMessage} {store : Memory}
    (hsmall : message.nbdReq.offset.toNat < 2 ^ 32) (htype : m.header.type = message.nbdReq.reqType)
    (hlen : m.header.len = message.nbdReq.dataLen)
    (hoffset : m.header.iotOffset = message.nbdReq.offset.toUInt32)
    (hpayload : m.payload = written message.nbdReq) :
    Local.handle message store = (answerTo message (m.fetch store), m.stores store) := by
  have hoff : m.header.iotOffset.toNat = message.nbdReq.offset.toNat := by
    rw [hoffset, UInt64.toNat_toUInt32]
    exact Nat.mod_eq_of_lt hsmall
  rw [answerTo, received, Message.fetch, Message.stores, htype, hlen, hoff, hpayload, written,
    Local.handle, Local.filled, Local.stored]
  by_cases hread : message.nbdReq.reqType = NBD_CMD_READ
  · have hne : ¬message.nbdReq.reqType = NBD_CMD_WRITE := by
      rw [hread]
      decide
    simp only [if_pos hread, if_neg hne]
  · by_cases hwrite : message.nbdReq.reqType = NBD_CMD_WRITE
    · simp only [if_neg hread, if_pos hwrite]
    · simp only [if_neg hread, if_neg hwrite]

theorem moves_nbd {message : NbdMessage} {address : UInt64} {alarmUid : UInt32} (h : Kept s.server)
    (hs : s.step (.nbd message address alarmUid) = some s') :
    Moves (Local.device storage) (phase s.server) s.store (marks s (.nbd message address alarmUid))
      (phase s'.server) s'.store := by
  obtain ⟨hserver, hstore⟩ := step_cases hs
  obtain ⟨-, hs'⟩ := nbd_cases hserver
  obtain ⟨hdone, hnone⟩ := h.not_created (Nat.lt_irrefl s.server.created)
  have hphase : phase s'.server =
      Function.update (phase s.server) s.server.created (.invoked message) := by
    funext id
    rw [hs']
    by_cases hid : id = s.server.created
    · subst hid
      rw [Function.update_self]
      refine (phase_created ?_ ?_ ?_).trans (congrArg Phase.invoked (Function.update_self ..))
      · exact hdone
      · exact hnone
      · exact Nat.lt_succ_self _
    · rw [Function.update_of_ne hid]
      refine phase_congr Iff.rfl rfl (Function.update_of_ne hid _ _) ?_
      dsimp only
      omega
  rw [hphase, hstore]
  exact Moves.nil.invoke (phase_idle hdone hnone (Nat.lt_irrefl _))

theorem moves_answer {k : ℕ} {header : AtlasHeader} {data : List UInt8} (h : Kept s.server)
    (hrule : Serves s (.answer k header data)) (hs : s.step (.answer k header data) = some s') :
    Moves (Local.device storage) (phase s.server) s.store (marks s (.answer k header data))
      (phase s'.server) s'.store := by
  obtain ⟨hserver, hstore⟩ := step_cases hs
  obtain ⟨m, hk, hs'⟩ := answer_cases hserver
  obtain ⟨-, rfl⟩ := hrule m hk
  have hmem := List.mem_of_getElem? hk
  obtain ⟨hpending, hdone⟩ := h.inv.alone_message hk
  have hdone' : m.id ∉ s.server.completed.map Prod.fst := fun hid => by
    obtain ⟨e, he, heq⟩ := List.mem_map.mp hid
    exact hdone e he heq
  have hlt := h.inv.id_lt (mem_ledger_message hmem)
  have hcreated := phase_created hdone' (h.unanswered hpending hdone') hlt
  have hok := h.inv.message m hmem
  obtain ⟨hoffset, hpayload⟩ := h.wire m hmem
  have hphase : phase s'.server = Function.update (phase s.server) m.id
      (.committed (answerTo (s.server.request m.id) (m.fetch s.store))) := by
    funext id
    rw [hs']
    by_cases hid : id = m.id
    · subst hid
      rw [Function.update_self]
      exact phase_answered hdone' (Function.update_self ..)
    · rw [Function.update_of_ne hid]
      exact phase_congr Iff.rfl (Function.update_of_ne hid _ _) rfl Iff.rfl
  have hafter : s'.store = m.stores s.store := by
    rw [hstore]
    simp only [storeAfter, hk]
  simp only [marks, hk, hphase, hafter]
  exact Moves.nil.commit hcreated
    (handle_answer (h.small m.id hlt) hok.type hok.len hoffset hpayload)

theorem moves_iot {cuts : ℕ → ℕ} (h : Kept s.server) (hs : s.step (.iot cuts) = some s') :
    Moves (Local.device storage) (phase s.server) s.store (marks s (.iot cuts))
      (phase s'.server) s'.store := by
  obtain ⟨hserver, hstore⟩ := step_cases hs
  obtain ⟨r, rest, socket, hpending, hiot, hs'⟩ := h.iot_cases hserver
  have hmem : r ∈ s.server.pending := hpending ▸ List.mem_cons_self
  have hdone := h.inv.not_done (Or.inr ⟨r, hmem, rfl⟩)
  have hphase : phase s'.server = Function.update (phase s.server) r.id .returned := by
    funext id
    rw [hs']
    by_cases hid : id = r.id
    · subst hid
      rw [Function.update_self]
      exact phase_done (by simp)
    · rw [Function.update_of_ne hid]
      refine phase_congr ?_ rfl rfl Iff.rfl
      simp [hid]
  simp only [marks, hiot, hphase, hstore]
  exact Moves.nil.respond (phase_answered hdone (h.inv.reply r hmem).answered)

/-- **Each step is what its marks say of the device.** -/
theorem moves_step {l : Label} (h : Kept s.server) (hrule : Serves s l) (hs : s.step l = some s') :
    Moves (Local.device storage) (phase s.server) s.store (marks s l) (phase s'.server) s'.store := by
  cases l with
  | nbd message address alarmUid => exact moves_nbd h hs
  | prepare k =>
    obtain ⟨hserver, hstore⟩ := step_cases hs
    obtain ⟨task, live, -, -, -, hs'⟩ := prepare_cases hserver
    rw [hs', hstore]
    exact Moves.nil
  | send k =>
    obtain ⟨hserver, hstore⟩ := step_cases hs
    obtain ⟨task, iov, payload, -, -, -, hs'⟩ := send_cases hserver
    rw [hs', hstore]
    exact Moves.nil
  | answer k header data => exact moves_answer h hrule hs
  | iot cuts => exact moves_iot h hs

/-- **The pooled server is a linearizable device**, over every interleaving of the reactor,
the pool's tasks and a node that serves, whatever its storage is at first: the requests have
an order that respects real time and in which the local server answers each with the very
bytes. The store is the local server's storage, at every byte what the last WRITE in that
order put there. -/
theorem device_linearizable {trace : List (System × Label)}
    (run : (machine storage).Run (init storage) trace s)
    (hrule : Machine.Meets Serves trace) :
    (Local.device storage).Linearizes (history (marksOf marks trace)) (order (marksOf marks trace)) s.store ∧
      Local.run storage ((order (marksOf marks trace)).map Commit.op) =
        ((order (marksOf marks trace)).map Commit.res, s.store) ∧
      s.store = Local.lastPut storage Local.puts ((order (marksOf marks trace)).map Commit.op) := by
  have hlinear : (Local.device storage).Linearizes (history (marksOf marks trace))
      (order (marksOf marks trace)) s.store :=
    linearizes_of_run (P := fun s => Kept s.server) (fun s => phase s.server) System.store run kept_init
      (fun _ => rfl) rfl (fun _ _ _ h hl hs => ⟨kept_step h hl hs, moves_step h hl hs⟩) hrule
  have hrun := Local.legal_iff.mp hlinear.legal
  refine ⟨hlinear, hrun, ?_⟩
  rw [← Local.run_storage, hrun]

/-- A WRITE, and a READ that is read after it and handled before it. -/
theorem device_linearizable_overtaken : ∃ trace s,
    (machine fun _ => 3).Run (init fun _ => 3) trace s ∧
    (order (marksOf marks trace)).map Commit.call = [1, 0] ∧ s.server.completed.length = 2 ∧
    (Local.device fun _ => 3).Linearizes (history (marksOf marks trace)) (order (marksOf marks trace)) s.store ∧
    s.store = Local.lastPut (fun _ => 3) Local.puts ((order (marksOf marks trace)).map Commit.op) := by
  obtain ⟨trace, s, run, h⟩ := (machine fun _ => 3).run_of_replay (init fun _ => 3)
    [.nbd ⟨⟨NBD_CMD_WRITE, 2, 0, fun _ => 9⟩, ⟨0, 0, []⟩⟩ 64 0,
      .nbd ⟨⟨NBD_CMD_READ, 2, 0, fun _ => 0⟩, ⟨0, 0, []⟩⟩ 96 0, .prepare 0, .send 0,
      .answer 0 ⟨96, 0, 0, NBD_CMD_READ, 2⟩ [3, 3], .prepare 0, .send 0,
      .answer 0 ⟨64, 0, 0, NBD_CMD_WRITE, 2⟩ [], .iot fun _ => 1, .iot fun _ => 1]
    (fun e => decide (Machine.Meets Serves e.1 ∧
      (order (marksOf marks e.1)).map Commit.call = [1, 0] ∧ e.2.server.completed.length = 2))
    (by decide +kernel)
  obtain ⟨hrule, horder, hdone⟩ := of_decide_eq_true h
  obtain ⟨hlinear, -, hstore⟩ := device_linearizable run hrule
  exact ⟨trace, s, run, horder, hdone, hlinear, hstore⟩

end System
end PrivateCloud.Atlas
