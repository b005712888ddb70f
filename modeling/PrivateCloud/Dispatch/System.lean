import PrivateCloud.Dispatch.Dispatcher
import PrivateCloud.Library.Bag
import PrivateCloud.Library.Stride

/-! The server with its pool and its nodes, one step at a time.

The reactor's thread takes a request from the NBD socket and registers its tasks with
the pool one by one, or handles a reply on a node's socket; a pool's worker evaluates
the loop condition of a task or sends one fragment; a node answers one of the messages
it was sent. Which of them moves, what a node answers, how a socket cuts what it
delivers and what a read of freed memory sees is all in the label.

A task holds a raw pointer to its request. A request that was freed is still looked
up in `host`, to know which request a task is wrong about, but what the task finds
there is the label's to say.

`owner` and `read` are bookkeeping: which request a message was sent for, and which
fragments have had their replies read. The source has neither. -/
namespace PrivateCloud.Dispatch
open Nbd Host

/-- Where a task is in the loop of `SendMsgWrapper`. -/
inductive Pc where
  | test
  | body
  deriving DecidableEq

structure Task where
  owner : ℕ
  info : SendMsgInfo
  i : UInt32
  pc : Pc

/-- A message on its way to a node. -/
structure Message where
  owner : ℕ
  sockfd : ℕ
  header : AtlasHeader
  payload : List UInt8

/-- What a message does to its node's store: a WRITE puts its payload there. -/
def Message.stores (m : Message) (node : Memory) : Memory :=
  if m.header.type = NBD_CMD_WRITE then node.write m.header.iotOffset.toNat m.payload else node

/-- What the node has for it: of a READ, the bytes asked for. -/
def Message.fetch (m : Message) (node : Memory) : List UInt8 :=
  if m.header.type = NBD_CMD_READ then node.read m.header.iotOffset.toNat m.header.len.toNat else []

/-- A reply on its way back. -/
structure Reply where
  owner : ℕ
  sockfd : ℕ
  header : AtlasHeader
  data : List UInt8

def Reply.bytes (r : Reply) : List UInt8 := r.header.store ++ r.data

structure System where
  disp : Dispatcher
  /-- What `Distribute`'s loop, the reactor in it, has still to hand to the pool. -/
  queueing : List Task
  tasks : List Task
  wire : List Message
  stream : ℕ → List UInt8
  pending : List Reply
  read : List (ℕ × ℕ)
  /-- What a node keeps, by its socket. -/
  store : ℕ → Memory

inductive Label where
  /-- `NbdRequestsHandle`, up to the loop in `Distribute`. -/
  | nbd (message : NbdMessage)
  /-- One `Async` of that loop. -/
  | async
  /-- The loop condition of task `k`, which sees `seen` in a freed request's `dataLen`. -/
  | test (k : ℕ) (seen : UInt32)
  /-- The loop body of task `k`, which sees `junk` in a freed request's buffer. -/
  | send (k : ℕ) (junk : Memory)
  /-- A node answers message `k`. -/
  | answer (k : ℕ) (header : AtlasHeader) (data : List UInt8)
  /-- `IotHandle` on a socket that has something to read, cut like this. -/
  | iot (sockfd : ℕ) (cuts : ℕ → ℕ)

/-- The request that a step takes. -/
def Label.takes : Label → List NbdMessage
  | .nbd message => [message]
  | _ => []

namespace System

def init : System where
  disp := Dispatcher.init
  queueing := []
  tasks := []
  wire := []
  stream := fun _ => []
  pending := []
  read := []
  store := fun _ _ => 0

def host (s : System) (c : ℕ) : RequestHost := s.disp.host c

/-- The tasks of a request, as `Distribute` makes them. -/
def tasksOf (h : RequestHost) (owner : ℕ) : List Task :=
  h.distribute.map fun info => ⟨owner, info, info.atlasHeader.fragmentUid, .test⟩

def nbd (s : System) (message : NbdMessage) : Option System :=
  if s.queueing = [] then
    some { s with
      disp := s.disp.nbdRequestsHandle message
      queueing := tasksOf (RequestHost.create s.disp.reqUid message) s.disp.created }
  else none

def async (s : System) : Option System :=
  match s.queueing with
  | [] => none
  | task :: rest => some {s with queueing := rest, tasks := task :: s.tasks}

/-- What a task finds through its pointer, `seen` if the request was freed. -/
def dataLenAt (s : System) (owner : ℕ) (seen : UInt32) : UInt32 :=
  if s.disp.freed owner then seen else (s.host owner).dataLen

def dataBufAt (s : System) (owner : ℕ) (junk : Memory) : Memory :=
  if s.disp.freed owner then junk else (s.host owner).nbqReq.nbdReq.dataBuf

/-- The loop condition; a task it fails for has ended. -/
def test (s : System) (k : ℕ) (seen : UInt32) : Option System :=
  match s.tasks[k]? with
  | some ⟨owner, info, i, .test⟩ =>
    if i < fragments (s.dataLenAt owner seen) then some {s with tasks := s.tasks.set k ⟨owner, info, i, .body⟩}
    else some {s with tasks := s.tasks.eraseIdx k}
  | _ => none

/-- The loop body and the increments after it. A type without a command is a call
through a null creator. -/
def send (s : System) (k : ℕ) (junk : Memory) : Option System :=
  match s.tasks[k]? with
  | some ⟨owner, info, i, .body⟩ =>
    match creators.create info.atlasHeader.type with
    | none => none
    | some command =>
      some { s with
        tasks := s.tasks.set k ⟨owner, info.advance, i + numOfIot, .test⟩
        wire := ⟨owner, info.sockfd, info.atlasHeader,
          command.sendRequest (s.dataBufAt owner junk) info⟩ :: s.wire }
  | _ => none

def answer (s : System) (k : ℕ) (header : AtlasHeader) (data : List UInt8) : Option System :=
  match s.wire[k]? with
  | none => none
  | some m =>
    some { s with
      wire := s.wire.eraseIdx k
      stream := Function.update s.stream m.sockfd (s.stream m.sockfd ++ (header.store ++ data))
      pending := s.pending ++ [⟨m.owner, m.sockfd, header, data⟩]
      store := Function.update s.store m.sockfd (m.stores (s.store m.sockfd)) }

def iot (s : System) (sockfd : ℕ) (cuts : ℕ → ℕ) : Option System :=
  if s.queueing = [] ∧ s.stream sockfd ≠ [] then
    match s.disp.iotHandle ⟨s.stream sockfd, cuts⟩ with
    | .error _ => none
    | .ok (disp, socket) =>
      some { s with
        disp := disp
        stream := Function.update s.stream sockfd socket.bytes
        pending := s.pending.eraseP fun r => r.sockfd = sockfd
        read := match s.pending.find? fun r => r.sockfd = sockfd with
          | none => s.read
          | some r => (r.owner, r.header.fragmentUid.toNat) :: s.read }
  else none

def step (s : System) : Label → Option System
  | .nbd message => s.nbd message
  | .async => s.async
  | .test k seen => s.test k seen
  | .send k junk => s.send k junk
  | .answer k header data => s.answer k header data
  | .iot sockfd cuts => s.iot sockfd cuts

def machine : Machine System Label := ⟨init, step⟩

/-! ### What one step can do -/

variable {s s' : System}

theorem nbd_cases {message : NbdMessage} (h : s.step (.nbd message) = some s') :
    s.queueing = [] ∧ s' = { s with
      disp := s.disp.nbdRequestsHandle message
      queueing := tasksOf (RequestHost.create s.disp.reqUid message) s.disp.created } := by
  simp only [step, nbd] at h
  split at h
  case isTrue hq => exact ⟨hq, (Option.some.inj h).symm⟩
  case isFalse => cases h

theorem async_cases (h : s.step .async = some s') :
    ∃ task rest, s.queueing = task :: rest ∧ s' = {s with queueing := rest, tasks := task :: s.tasks} := by
  simp only [step, async] at h
  split at h
  case h_1 => cases h
  case h_2 task rest hq => exact ⟨task, rest, hq, (Option.some.inj h).symm⟩

theorem test_cases {k : ℕ} {seen : UInt32} (h : s.step (.test k seen) = some s') :
    ∃ task, s.tasks[k]? = some task ∧ task.pc = .test ∧
      ((task.i < fragments (s.dataLenAt task.owner seen) ∧
          s' = {s with tasks := s.tasks.set k {task with pc := .body}}) ∨
        (¬task.i < fragments (s.dataLenAt task.owner seen) ∧
          s' = {s with tasks := s.tasks.eraseIdx k})) := by
  simp only [step, test] at h
  split at h
  case h_1 owner info i htask =>
    refine ⟨⟨owner, info, i, .test⟩, htask, rfl, ?_⟩
    split at h
    case isTrue hlt => exact Or.inl ⟨hlt, (Option.some.inj h).symm⟩
    case isFalse hge => exact Or.inr ⟨hge, (Option.some.inj h).symm⟩
  case h_2 => cases h

theorem send_cases {k : ℕ} {junk : Memory} (h : s.step (.send k junk) = some s') :
    ∃ task command, s.tasks[k]? = some task ∧ task.pc = .body ∧
      creators.create task.info.atlasHeader.type = some command ∧
      s' = { s with
        tasks := s.tasks.set k ⟨task.owner, task.info.advance, task.i + numOfIot, .test⟩
        wire := ⟨task.owner, task.info.sockfd, task.info.atlasHeader,
          command.sendRequest (s.dataBufAt task.owner junk) task.info⟩ :: s.wire } := by
  simp only [step, send] at h
  split at h
  case h_1 owner info i htask =>
    split at h
    case h_1 => cases h
    case h_2 command hcommand =>
      exact ⟨⟨owner, info, i, .body⟩, command, htask, rfl, hcommand, (Option.some.inj h).symm⟩
  case h_2 => cases h

theorem answer_cases {k : ℕ} {header : AtlasHeader} {data : List UInt8}
    (h : s.step (.answer k header data) = some s') :
    ∃ m, s.wire[k]? = some m ∧ s' = { s with
      wire := s.wire.eraseIdx k
      stream := Function.update s.stream m.sockfd (s.stream m.sockfd ++ (header.store ++ data))
      pending := s.pending ++ [⟨m.owner, m.sockfd, header, data⟩]
      store := Function.update s.store m.sockfd (m.stores (s.store m.sockfd)) } := by
  simp only [step, answer] at h
  split at h
  case h_1 => cases h
  case h_2 m hm => exact ⟨m, hm, (Option.some.inj h).symm⟩

theorem iot_cases {sockfd : ℕ} {cuts : ℕ → ℕ} (h : s.step (.iot sockfd cuts) = some s') :
    s.queueing = [] ∧ s.stream sockfd ≠ [] ∧
      ∃ disp socket, s.disp.iotHandle ⟨s.stream sockfd, cuts⟩ = .ok (disp, socket) ∧ s' = { s with
        disp := disp
        stream := Function.update s.stream sockfd socket.bytes
        pending := s.pending.eraseP fun r => r.sockfd = sockfd
        read := match s.pending.find? fun r => r.sockfd = sockfd with
          | none => s.read
          | some r => (r.owner, r.header.fragmentUid.toNat) :: s.read } := by
  simp only [step, iot] at h
  split at h
  case isTrue hready =>
    refine ⟨hready.1, hready.2, ?_⟩
    split at h
    case h_1 => cases h
    case h_2 disp socket hiot => exact ⟨disp, socket, hiot, (Option.some.inj h).symm⟩
  case isFalse => cases h

/-! ### The environment -/

/-- A node answers with the uids it was sent, and with data exactly to a READ. -/
def Honest (s : System) : Label → Prop
  | .answer k header data => ∀ m ∈ s.wire[k]?, header.requestUid = m.header.requestUid ∧
      header.fragmentUid = m.header.fragmentUid ∧
      data.length = if m.header.type = NBD_CMD_READ then 1024 else 0
  | _ => True

/-- Fewer than `2^32` requests are created while one is active. -/
def FewActive (s : System) : Label → Prop
  | .nbd _ => ∀ u c, s.disp.activeRequests u = some c → s.disp.created - c < 2 ^ 32
  | _ => True

/-- The uid of a reply is available whole when it is peeked. -/
def PeeksWhole (_ : System) : Label → Prop
  | .iot _ cuts => 4 ≤ cuts 0
  | _ => True

/-- A loop condition that reads a freed request ends the loop. -/
def EndsStale (s : System) : Label → Prop
  | .test k seen => ∀ task ∈ s.tasks[k]?, s.disp.freed task.owner = true → ¬task.i < fragments seen
  | _ => True

instance (s : System) : (l : Label) → Decidable (Honest s l)
  | .answer k header data => inferInstanceAs (Decidable (∀ m ∈ s.wire[k]?,
      header.requestUid = m.header.requestUid ∧ header.fragmentUid = m.header.fragmentUid ∧
        data.length = if m.header.type = NBD_CMD_READ then 1024 else 0))
  | .nbd _ | .async | .test _ _ | .send _ _ | .iot _ _ => isTrue trivial

instance (s : System) : (l : Label) → Decidable (PeeksWhole s l)
  | .iot _ cuts => inferInstanceAs (Decidable (4 ≤ cuts 0))
  | .nbd _ | .async | .test _ _ | .send _ _ | .answer _ _ _ => isTrue trivial

instance (s : System) : (l : Label) → Decidable (EndsStale s l)
  | .test k seen => inferInstanceAs (Decidable (∀ task ∈ s.tasks[k]?,
      s.disp.freed task.owner = true → ¬task.i < fragments seen))
  | .nbd _ | .async | .send _ _ | .answer _ _ _ | .iot _ _ => isTrue trivial

/-- As long as the counter has not come around at all. -/
theorem fewActive_of_lt {l : Label} (h : s.disp.created < 2 ^ 32) : FewActive s l := by
  cases l with
  | nbd message => exact fun u c _ => by omega
  | _ => trivial

end System
end PrivateCloud.Dispatch
