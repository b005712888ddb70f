import PrivateCloud.Library.Bag
import PrivateCloud.Library.Machine
import PrivateCloud.Nbd.Comm

/-! The server with a pool and one node: `atlas_ThreadPool.cpp`.

A request goes to the node whole, under the address of its message. The reactor's
`nbdHandle` reads it and hands a task to the pool, the task sends it, and `iotHandle`
takes the address out of the reply's header, uses it as the request it was, answers and
frees it. The heap gives a new message any address that is not in use.

Which request is meant is kept beside everything, as the number of the request: on the
heap, in the tasks, with the messages. The source has the address only. -/
namespace PrivateCloud.Atlas
open Nbd

structure AtlasHeader where
  requestUid : UInt64
  alarmUid : UInt32
  iotOffset : UInt32
  type : UInt32
  len : UInt32
  deriving DecidableEq

def sizeofAtlasHeader : ℕ := 24

namespace AtlasHeader

def store (h : AtlasHeader) : List UInt8 :=
  Bytes.toLE 8 h.requestUid.toNat ++ (Bytes.toLE 4 h.alarmUid.toNat ++
    (Bytes.toLE 4 h.iotOffset.toNat ++ (Bytes.toLE 4 h.type.toNat ++
      (Bytes.toLE 4 h.len.toNat ++ []))))

def load (bytes : List UInt8) : AtlasHeader where
  requestUid := loadU64 (Bytes.field bytes 0 8)
  alarmUid := loadU32 (Bytes.field bytes 8 4)
  iotOffset := loadU32 (Bytes.field bytes 12 4)
  type := loadU32 (Bytes.field bytes 16 4)
  len := loadU32 (Bytes.field bytes 20 4)

@[simp] theorem store_length (h : AtlasHeader) : h.store.length = sizeofAtlasHeader := by
  simp only [store, List.length_append, Bytes.toLE_length, List.length_nil]
  rfl

theorem load_store (h : AtlasHeader) : load h.store = h := by
  have h8 (n : ℕ) : (Bytes.toLE 8 n).length = 8 := Bytes.toLE_length ..
  have h4 (n : ℕ) : (Bytes.toLE 4 n).length = 4 := Bytes.toLE_length ..
  have skip8 (n at_ : ℕ) (back : List UInt8) :
      Bytes.field (Bytes.toLE 8 n ++ back) (at_ + 8) 4 = Bytes.field back at_ 4 := by
    rw [Bytes.field_skip (by rw [h8]; omega), h8, Nat.add_sub_cancel]
  have skip4 (n at_ : ℕ) (back : List UInt8) :
      Bytes.field (Bytes.toLE 4 n ++ back) (at_ + 4) 4 = Bytes.field back at_ 4 := by
    rw [Bytes.field_skip (by rw [h4]; omega), h4, Nat.add_sub_cancel]
  have here (x : UInt32) (back : List UInt8) :
      loadU32 (Bytes.field (Bytes.toLE 4 x.toNat ++ back) 0 4) = x := by
    rw [Bytes.field_here (h4 _), loadU32_toLE]
  cases h
  simp only [load, store, mk.injEq]
  refine ⟨?_, ?_, ?_, ?_, ?_⟩
  · rw [Bytes.field_here (h8 _), loadU64_toLE]
  · rw [skip8 _ 0, here]
  · rw [skip8 _ 4, skip4 _ 0, here]
  · rw [skip8 _ 8, skip4 _ 4, skip4 _ 0, here]
  · rw [skip8 _ 12, skip4 _ 8, skip4 _ 4, skip4 _ 0, here]

end AtlasHeader

/-- `m_alarmUid` is left as the stack had it. -/
def convertToAtlas (address : UInt64) (alarmUid : UInt32) (request : NbdRequest) : AtlasHeader where
  requestUid := address
  alarmUid := alarmUid
  iotOffset := request.offset.toUInt32
  type := request.reqType
  len := request.dataLen

structure SendMsgInfo where
  header : AtlasHeader
  req : UInt64

/-- Where `SendMsgWrapper` is: at its start, or at `sendmsg` with its second `iovec`, of
this length, or without it. -/
inductive Pc where
  | start
  | sendmsg (iov : Option UInt32)

structure Task where
  id : ℕ
  info : SendMsgInfo
  pc : Pc

/-- A message on its way to the node, or a reply on its way back with its data. -/
structure Message where
  id : ℕ
  header : AtlasHeader
  payload : List UInt8

def Message.bytes (m : Message) : List UInt8 := m.header.store ++ m.payload

structure Server where
  heap : UInt64 → Option (ℕ × NbdMessage)
  created : ℕ
  tasks : List Task
  wire : List Message
  stream : List UInt8
  pending : List Message
  /-- The calls of `NbdRequestDone` with what each put on the NBD socket, oldest first. -/
  completed : List (ℕ × List UInt8)
  /-- Bookkeeping: the requests as they were read, and what the node sent back for each. -/
  request : ℕ → NbdMessage
  answered : ℕ → Option (List UInt8)

inductive Fault where
  | bytesRead
  /-- A request used after it was freed. -/
  | dangling

inductive Label where
  /-- `NbdHandle`, the message allocated at `address`. -/
  | nbd (message : NbdMessage) (address : UInt64) (alarmUid : UInt32)
  /-- Task `k` looks at its request. -/
  | prepare (k : ℕ)
  /-- Task `k` sends. -/
  | send (k : ℕ)
  | answer (k : ℕ) (header : AtlasHeader) (data : List UInt8)
  | iot (cuts : ℕ → ℕ)

namespace Server

def init : Server where
  heap := fun _ => none
  created := 0
  tasks := []
  wire := []
  stream := []
  pending := []
  completed := []
  request := fun _ => ⟨⟨0, 0, 0, fun _ => 0⟩, ⟨0, 0, []⟩⟩
  answered := fun _ => none

/-- `NbdHandle`; `malloc` returns no address that is in use. -/
def nbdHandle (s : Server) (message : NbdMessage) (address : UInt64) (alarmUid : UInt32) :
    Option Server :=
  if s.heap address = none then
    some { s with
      heap := Function.update s.heap address (some (s.created, message))
      created := s.created + 1
      tasks := ⟨s.created, ⟨convertToAtlas address alarmUid message.nbdReq, address⟩, .start⟩ :: s.tasks
      request := Function.update s.request s.created message }
  else none

/-- The second `iovec` of a WRITE, by its length. -/
def payload (request : NbdRequest) : Option UInt32 :=
  if request.reqType = NBD_CMD_WRITE then some request.dataLen else none

/-- `SendMsgWrapper` up to `sendmsg`. -/
def prepare (s : Server) (k : ℕ) : Option Server :=
  match s.tasks[k]? with
  | some ⟨id, info, .start⟩ =>
    match s.heap info.req with
    | none => none
    | some (_, message) =>
      some {s with tasks := s.tasks.set k ⟨id, info, .sendmsg (payload message.nbdReq)⟩}
  | _ => none

/-- What `sendmsg` reads through the second `iovec`. -/
def gather (s : Server) (req : UInt64) : Option UInt32 → Option (List UInt8)
  | none => some []
  | some len => (s.heap req).map fun live => live.2.nbdReq.dataBuf.read 0 len.toNat

def send (s : Server) (k : ℕ) : Option Server :=
  match s.tasks[k]? with
  | some ⟨id, info, .sendmsg iov⟩ =>
    match s.gather info.req iov with
    | none => none
    | some payload =>
      some { s with
        tasks := s.tasks.eraseIdx k
        wire := ⟨id, info.header, payload⟩ :: s.wire }
  | _ => none

def answer (s : Server) (k : ℕ) (header : AtlasHeader) (data : List UInt8) : Option Server :=
  match s.wire[k]? with
  | none => none
  | some m =>
    some { s with
      wire := s.wire.eraseIdx k
      stream := s.stream ++ (header.store ++ data)
      pending := s.pending ++ [⟨m.id, header, data⟩]
      answered := Function.update s.answered m.id (some data) }

def readAll (count : ℕ) (s : Socket) : Option (List UInt8 × Socket) := s.readLoop false count count

/-- The data of a READ, received into the request's buffer. -/
def receiveData (message : NbdMessage) (s : Socket) : Except Fault (NbdMessage × Socket) :=
  if message.nbdReq.reqType = NBD_CMD_READ then
    match readAll message.nbdReq.dataLen.toNat s with
    | none => .error .bytesRead
    | some (data, s) =>
      .ok ({message with nbdReq := {message.nbdReq with
        dataBuf := message.nbdReq.dataBuf.write 0 data}}, s)
  else .ok (message, s)

/-- `IotHandle`, up to the `free` in `NbdRequestDone`: the address it uses, whose request
that is, and the request as it is answered. -/
def iotHandle (s : Server) (socket : Socket) : Except Fault (UInt64 × ℕ × NbdMessage × Socket) :=
  match readAll sizeofAtlasHeader socket with
  | none => .error .bytesRead
  | some (bytes, socket) =>
    let req := (AtlasHeader.load bytes).requestUid
    match s.heap req with
    | none => .error .dangling
    | some (id, message) =>
      match receiveData message socket with
      | .error fault => .error fault
      | .ok (message, socket) => .ok (req, id, message, socket)

def iot (s : Server) (cuts : ℕ → ℕ) : Option Server :=
  if s.stream = [] then none
  else
    match s.iotHandle ⟨s.stream, cuts⟩ with
    | .error _ => none
    | .ok (req, id, message, socket) =>
      some { s with
        heap := Function.update s.heap req none
        stream := socket.bytes
        pending := s.pending.tail
        completed := s.completed ++ [(id, nbdRequestDone message 0)] }

def step (s : Server) : Label → Option Server
  | .nbd message address alarmUid => s.nbdHandle message address alarmUid
  | .prepare k => s.prepare k
  | .send k => s.send k
  | .answer k header data => s.answer k header data
  | .iot cuts => s.iot cuts

def machine : Machine Server Label := ⟨init, step⟩

/-- The node echoes the header, with as many bytes after it as a READ asks for. -/
def Echoes (s : Server) : Label → Prop
  | .answer k header data => ∀ m ∈ s.wire[k]?, header = m.header ∧
      data.length = if m.header.type = NBD_CMD_READ then m.header.len.toNat else 0
  | _ => True

instance (s : Server) : (l : Label) → Decidable (Echoes s l)
  | .answer k header data => inferInstanceAs (Decidable (∀ m ∈ s.wire[k]?, header = m.header ∧
      data.length = if m.header.type = NBD_CMD_READ then m.header.len.toNat else 0))
  | .nbd _ _ _ | .prepare _ | .send _ | .iot _ => isTrue trivial

/-! ### What one step can do -/

variable {s s' : Server}

theorem nbd_cases {message : NbdMessage} {address : UInt64} {alarmUid : UInt32}
    (h : s.step (.nbd message address alarmUid) = some s') :
    s.heap address = none ∧ s' = { s with
      heap := Function.update s.heap address (some (s.created, message))
      created := s.created + 1
      tasks := ⟨s.created, ⟨convertToAtlas address alarmUid message.nbdReq, address⟩, .start⟩ :: s.tasks
      request := Function.update s.request s.created message } := by
  simp only [step, nbdHandle] at h
  split at h
  case isTrue hfree => exact ⟨hfree, (Option.some.inj h).symm⟩
  case isFalse => cases h

theorem prepare_cases {k : ℕ} (h : s.step (.prepare k) = some s') :
    ∃ task live, s.tasks[k]? = some task ∧ task.pc = .start ∧ s.heap task.info.req = some live ∧
      s' = {s with tasks := s.tasks.set k {task with pc := .sendmsg (payload live.2.nbdReq)}} := by
  simp only [step, prepare] at h
  split at h
  case h_1 id info htask =>
    split at h
    case h_1 => cases h
    case h_2 b message hlive =>
      exact ⟨⟨id, info, .start⟩, (b, message), htask, rfl, hlive, (Option.some.inj h).symm⟩
  case h_2 => cases h

theorem send_cases {k : ℕ} (h : s.step (.send k) = some s') :
    ∃ task iov payload, s.tasks[k]? = some task ∧ task.pc = .sendmsg iov ∧
      s.gather task.info.req iov = some payload ∧ s' = { s with
        tasks := s.tasks.eraseIdx k
        wire := ⟨task.id, task.info.header, payload⟩ :: s.wire } := by
  simp only [step, send] at h
  split at h
  case h_1 id info iov htask =>
    split at h
    case h_1 => cases h
    case h_2 payload hgather =>
      exact ⟨⟨id, info, .sendmsg iov⟩, iov, payload, htask, rfl, hgather, (Option.some.inj h).symm⟩
  case h_2 => cases h

theorem answer_cases {k : ℕ} {header : AtlasHeader} {data : List UInt8}
    (h : s.step (.answer k header data) = some s') :
    ∃ m, s.wire[k]? = some m ∧ s' = { s with
      wire := s.wire.eraseIdx k
      stream := s.stream ++ (header.store ++ data)
      pending := s.pending ++ [⟨m.id, header, data⟩]
      answered := Function.update s.answered m.id (some data) } := by
  simp only [step, answer] at h
  split at h
  case h_1 => cases h
  case h_2 m hm => exact ⟨m, hm, (Option.some.inj h).symm⟩

theorem iot_cases {cuts : ℕ → ℕ} (h : s.step (.iot cuts) = some s') :
    s.stream ≠ [] ∧ ∃ req id message socket,
      s.iotHandle ⟨s.stream, cuts⟩ = .ok (req, id, message, socket) ∧ s' = { s with
        heap := Function.update s.heap req none
        stream := socket.bytes
        pending := s.pending.tail
        completed := s.completed ++ [(id, nbdRequestDone message 0)] } := by
  simp only [step, iot] at h
  split at h
  case isTrue => cases h
  case isFalse hstream =>
    refine ⟨hstream, ?_⟩
    split at h
    case h_1 => cases h
    case h_2 req id message socket hiot =>
      exact ⟨req, id, message, socket, hiot, (Option.some.inj h).symm⟩

end Server
end PrivateCloud.Atlas
